import DatabaseEngine.Library.Slots
import DatabaseEngine.Proofs.Wire.Portal

/-!
# `DatabaseEngine.Proofs.Wire.Prepared`: what a prepared statement is

* `Declaration`: what a Parse has declared under a name, up to the Close of it.
* `Declared`: Bind and Describe find under every name what was declared.
* `KeepsPrepared`: the messages that leave it so.
* `prepared_declared`: if every message of a connection is one of these, its statements are what
  was declared.
* `prepared_stale`: a statement is described and bound with the types of another.
-/

set_option autoImplicit false

namespace DatabaseEngine

open Library

/-! ### What was declared -/

/-- What a Parse has declared. -/
structure Declaration where
  sql : List UInt8
  params : Nat
  types : List Int

/-- All the types that a Parse message announces. -/
def announced : Nat → List UInt8 → Option (List Int)
  | 0, _ => some []
  | count + 1, body => do
    let (oid, rest) ← bodyI32 body
    let more ← announced count rest
    return oid :: more

/-- What a Parse message declares, under which name. -/
def declaration (body : List UInt8) : Option (List UInt8 × Declaration) := do
  let (name, sql, count, rest) ← parseFields body
  let types ← announced count rest
  return (name, { sql := sql, params := count, types := types })

/-- What is declared behind a message, from what it says and from what it has led to. -/
def declaredBy (message : Message) (events : List WireEvent)
    (declared : List UInt8 → Option Declaration) : List UInt8 → Option Declaration :=
  if message.type = 80 ∧ .reply .parseComplete ∈ events then
    match declaration message.body with
    | some (name, d) => Function.update declared name (some d)
    | none => declared
  else if message.type = 67 ∧ .reply .closeComplete ∈ events then
    match targetFields message.body with
    | some (what, name) => if what = 83 then Function.update declared name none else declared
    | none => declared
  else declared

/-- What Bind and Describe read under a name. -/
def preparedOf (name : List UInt8) (prepared : List Prepared) : Option Prepared :=
  (findPrepared name prepared).map fun i => prepared.getD i freePrepared

/-- A type that was not declared is 0. -/
structure Prepared.Is (statement : Prepared) (d : Declaration) : Prop where
  sql : statement.sql = d.sql
  params : statement.params = d.params
  types : ∀ n, statement.types.getD n 0 = d.types.getD n 0

/-- The statements are those that were declared. -/
def Declared (session : WireSession) (declared : List UInt8 → Option Declaration) : Prop :=
  ∀ name, Option.Rel Prepared.Is (preparedOf name session.prepared) (declared name)

section
variable {E : Type}

/-- A connection, with what is declared, behind one more message. -/
def serveDeclared (b : Backend E) (s : Client E × (List UInt8 → Option Declaration))
    (message : Message) : Client E × (List UInt8 → Option Declaration) :=
  (serveMessage b message s.1, declaredBy message (serveMessage b message s.1).events s.2)

end

/-- A Parse whose name and text can be read holds all the types that it announces, no more of them
than a statement has room for, and takes a slot with no types behind them. -/
def ParseKeeps (session : WireSession) (body : List UInt8) : Prop :=
  ∀ fields ∈ parseFields body, ∀ claimed ∈ claimPrepared fields.1 session.prepared,
    (announced fields.2.2.1 fields.2.2.2).isSome = true ∧ fields.2.2.1 ≤ MAX_PARAMS ∧
      ∀ oid ∈ (claimed.2.getD claimed.1 freePrepared).types.drop fields.2.2.1, oid = 0

instance (session : WireSession) (body : List UInt8) : Decidable (ParseKeeps session body) :=
  inferInstanceAs (Decidable (∀ _ ∈ _, ∀ _ ∈ _, _ ∧ _))

/-- A Parse keeps what it is given. -/
def KeepsPrepared (session : WireSession) (message : Message) : Prop :=
  session.ignoringUntilSync = false → message.type = 80 → ParseKeeps session message.body

instance (session : WireSession) (message : Message) : Decidable (KeepsPrepared session message) :=
  inferInstanceAs (Decidable (_ → _ → _))

/-! ### The slots -/

/-- The name that a slot is in use for. -/
def Prepared.key (statement : Prepared) : Option (List UInt8) :=
  if statement.used then some statement.name else none

/-- A slot's key is its name while it is in use. -/
theorem Prepared.key_eq_some {statement : Prepared} {name : List UInt8} :
    statement.key = some name ↔ statement.used = true ∧ statement.name = name := by
  unfold Prepared.key
  split <;> simp_all

/-- Looking for a statement is looking for its key. -/
theorem findPrepared_eq (name : List UInt8) (prepared : List Prepared) :
    findPrepared name prepared = Slots.find Prepared.key name prepared := by
  unfold findPrepared Slots.find
  congr 1
  funext statement
  rw [Bool.eq_iff_iff, decide_eq_true_iff, Prepared.key_eq_some]
  simp

/-- The statement under a name is the one its key finds. -/
theorem preparedOf_eq (name : List UInt8) (prepared : List Prepared) :
    preparedOf name prepared = Slots.lookup Prepared.key name prepared := by
  unfold preparedOf Slots.lookup
  rw [findPrepared_eq]
  cases hfind : Slots.find Prepared.key name prepared with
  | none => rfl
  | some i =>
    obtain ⟨hi, -, -⟩ := List.findIdx?_eq_some_iff_getElem.mp hfind
    simp [hi]

/-- The slots of a session: no name is there twice, and each has room for all its types. -/
structure SlotsKept (prepared : List Prepared) : Prop where
  distinct : Slots.Distinct Prepared.key prepared
  room : ∀ statement ∈ prepared, statement.types.length = MAX_PARAMS

/-- What `claimPrepared` finds: the slot of that name, or a free one, which takes the name. -/
theorem claimPrepared_spec {name : List UInt8} {prepared prepared' : List Prepared} {i : Nat}
    (hname : name.length ≤ NAME_LEN - 1) (hdistinct : Slots.Distinct Prepared.key prepared)
    (h : claimPrepared name prepared = some (i, prepared')) :
    ∃ old, prepared[i]? = some old ∧ prepared' = prepared.set i { old with used := true, name := name } ∧
      (old.key = some name ∨
        old.key = none ∧ ∀ (j : Nat) (a : Prepared), prepared[j]? = some a → a.key ≠ some name) := by
  unfold claimPrepared at h
  cases hfind : findPrepared name prepared with
  | some j =>
    rw [hfind] at h
    obtain ⟨rfl, rfl⟩ : j = i ∧ prepared = prepared' := by simpa using h
    rw [findPrepared_eq] at hfind
    obtain ⟨old, hget, hkey⟩ := (Slots.find_eq_some_iff hdistinct).mp hfind
    obtain ⟨hused, rfl⟩ := Prepared.key_eq_some.mp hkey
    refine ⟨old, hget, ?_, .inl hkey⟩
    obtain ⟨hj, rfl⟩ := List.getElem?_eq_some_iff.mp hget
    rw [← hused, List.set_getElem_self]
  | none =>
    rw [hfind] at h
    obtain ⟨j, hfree, heq⟩ := Option.map_eq_some_iff.mp h
    obtain ⟨rfl, rfl⟩ := Prod.mk.inj heq
    obtain ⟨hj, hunused, -⟩ := List.findIdx?_eq_some_iff_getElem.mp hfree
    refine ⟨prepared[j], List.getElem?_eq_getElem hj, ?_, .inr ⟨?_, ?_⟩⟩
    · rw [List.modify_eq_set_getElem?, List.getElem?_eq_getElem hj, List.take_of_length_le hname]
      rfl
    · unfold Prepared.key
      rw [if_neg (by simpa using hunused)]
    · intro k a hget hkey
      have hout := List.findIdx?_eq_none_iff.mp hfind a (List.mem_of_getElem? hget)
      obtain ⟨hused, hsame⟩ := Prepared.key_eq_some.mp hkey
      simp [hused, hsame] at hout

/-! ### Reading the types -/

/-- A Parse announces as many types as it says. -/
theorem announced_length {count : Nat} {body : List UInt8} {types : List Int}
    (h : announced count body = some types) : types.length = count := by
  induction count generalizing body types with
  | zero =>
    obtain rfl : [] = types := Option.some.inj h
    rfl
  | succ count ih =>
    unfold announced at h
    simp only [Option.bind_eq_bind, Option.bind_eq_some_iff] at h
    obtain ⟨⟨oid, rest⟩, -, more, hmore, htypes⟩ := h
    obtain rfl : oid :: more = types := Option.some.inj htypes
    simp [ih hmore]

/-- The types that a message holds are put over the front of those of the slot. -/
theorem readTypes_announced {count i : Nat} {types more : List Int} {body : List UInt8}
    (h : announced count body = some more) (hroom : i + count ≤ MAX_PARAMS)
    (hlength : types.length = MAX_PARAMS) :
    readTypes count i types body = (true, types.take i ++ more ++ types.drop (i + count)) := by
  induction count generalizing i types more body with
  | zero =>
    obtain rfl : [] = more := Option.some.inj h
    simp [readTypes]
  | succ count ih =>
    unfold announced at h
    simp only [Option.bind_eq_bind, Option.bind_eq_some_iff] at h
    obtain ⟨⟨oid, rest⟩, hread, more, hmore, htypes⟩ := h
    obtain rfl := Option.some.inj htypes
    unfold readTypes
    rw [hread]
    dsimp only
    have hi : i < types.length := by omega
    rw [if_pos (by omega), ih hmore (by omega) (by simpa using hlength)]
    have htake : (types.set i oid).take (i + 1) = types.take i ++ [oid] := by
      rw [List.take_set, List.take_add_one, List.getElem?_eq_getElem hi]
      rw [List.set_append_right _ _ (by simp)]
      simp [Nat.min_eq_left hi.le]
    have hdrop : (types.set i oid).drop (i + 1 + count) = types.drop (i + (count + 1)) := by
      rw [List.drop_set_of_lt (by omega), Nat.add_right_comm, Nat.add_assoc]
    rw [htake, hdrop]
    simp

/-- The name of a Parse fits its field. -/
theorem parseFields_name {body name sql rest : List UInt8} {count : Nat}
    (h : parseFields body = some (name, sql, count, rest)) : name.length ≤ NAME_LEN - 1 := by
  unfold parseFields at h
  simp only [Option.bind_eq_bind, Option.bind_eq_some_iff] at h
  obtain ⟨⟨n, body₁⟩, hname, ⟨sql₁, body₂⟩, -, ⟨count₁, body₃⟩, -, hfields⟩ := h
  obtain ⟨rfl, -⟩ := Prod.mk.inj (Option.some.inj hfields)
  unfold bodyString at hname
  split at hname
  · exact absurd hname (by simp)
  · obtain ⟨rfl, -⟩ := Prod.mk.inj (Option.some.inj hname)
    exact List.length_take_le _ _

/-! ### One message -/

section
variable {E : Type} {b : Backend E}

/-- Other messages declare nothing. -/
theorem declaredBy_quiet {message : Message} {events : List WireEvent}
    (hparse : message.type = 80 → .reply .parseComplete ∉ events)
    (hclose : message.type = 67 → .reply .closeComplete ∉ events)
    (declared : List UInt8 → Option Declaration) : declaredBy message events declared = declared := by
  unfold declaredBy
  rw [if_neg fun h => hparse h.1 h.2, if_neg fun h => hclose h.1 h.2]

/-- Only the prepared statements count. -/
theorem Declared.congr {session session' : WireSession}
    {declared : List UInt8 → Option Declaration} (h : Declared session declared)
    (hsame : session'.prepared = session.prepared) : Declared session' declared := by
  unfold Declared
  rw [hsame]
  exact h

/-- The slot that a Parse takes is put under the name of it. -/
theorem declared_update {i : Nat} {old new : Prepared} {name : List UInt8} {d : Declaration}
    {session session' : WireSession} {declared : List UInt8 → Option Declaration}
    (hslots : SlotsKept session.prepared) (hget : session.prepared[i]? = some old)
    (hold : old.key = some name ∨ old.key = none ∧
      ∀ (j : Nat) (a : Prepared), session.prepared[j]? = some a → a.key ≠ some name)
    (hnew : new.key = some name) (hroom : new.types.length = MAX_PARAMS) (his : new.Is d)
    (hprepared : session'.prepared = session.prepared.set i new)
    (hdeclared : Declared session declared) :
    SlotsKept session'.prepared ∧ Declared session' (Function.update declared name (some d)) := by
  have hi : i < session.prepared.length := (List.getElem?_eq_some_iff.mp hget).1
  have hdistinct : Slots.Distinct Prepared.key (session.prepared.set i new) := by
    refine hslots.distinct.set hi fun k hk j a hj ha => ?_
    obtain rfl : name = k := Option.some.inj (hnew.symm.trans hk)
    rcases hold with hold | ⟨-, hout⟩
    · exact hslots.distinct j i a old name hj hget ha hold
    · exact absurd ha (hout j a hj)
  rw [hprepared]
  refine ⟨⟨hdistinct, fun statement hmem => ?_⟩, fun k => ?_⟩
  · rcases List.mem_or_eq_of_mem_set hmem with hmem | rfl
    · exact hslots.room statement hmem
    · exact hroom
  · rw [hprepared, preparedOf_eq]
    by_cases hk : k = name
    · subst hk
      rw [Slots.lookup_set_same hdistinct hi hnew, Function.update_self]
      exact .some his
    · have hother : Slots.lookup Prepared.key k (session.prepared.set i new) =
          Slots.lookup Prepared.key k session.prepared := by
        refine Slots.lookup_set_other hslots.distinct hdistinct hget ?_ ?_
        · rcases hold with hold | ⟨hold, -⟩
          · rw [hold]
            exact fun h => hk (Option.some.inj h).symm
          · rw [hold]
            exact fun h => absurd h (by simp)
        · rw [hnew]
          exact fun h => hk (Option.some.inj h).symm
      rw [hother, Function.update_of_ne hk, ← preparedOf_eq]
      exact hdeclared k

/-- A Parse that keeps what it is given declares the statement. -/
theorem parse_step {c : Client E} {message : Message}
    {declared : List UInt8 → Option Declaration} (hevents : c.events = [])
    (hslots : SlotsKept c.session.prepared) (hdeclared : Declared c.session declared)
    (htype : message.type = 80) (hflag : c.session.ignoringUntilSync = false)
    (hkeeps : KeepsPrepared c.session message) :
    SlotsKept (dispatch b message c).session.prepared ∧
      Declared (dispatch b message c).session
        (declaredBy message (dispatch b message c).events declared) := by
  have hkeeps := hkeeps hflag htype
  have hsent : ∀ (code : ErrorCode) (session : WireSession),
      (c.handled .parseComplete (.error code, session)).events = [.reply (.errorResponse code)] :=
    fun code session => by
      show c.events ++ _ = _
      rw [hevents, List.nil_append]
  have hquiet : ∀ code : ErrorCode,
      declaredBy message [.reply (.errorResponse code)] declared = declared := fun code =>
    declaredBy_quiet (fun _ => by simp) (fun _ => by simp) declared
  rw [dispatch_parse htype]
  unfold handleParse failExtended
  cases hfields : parseFields message.body with
  | none =>
    dsimp only
    rw [hsent, hquiet]
    exact ⟨hslots, hdeclared⟩
  | some fields =>
    obtain ⟨name, sql, count, rest⟩ := fields
    dsimp only
    cases hclaim : claimPrepared name c.session.prepared with
    | none =>
      dsimp only
      rw [hsent, hquiet]
      exact ⟨hslots, hdeclared⟩
    | some claimed =>
      obtain ⟨i, prepared'⟩ := claimed
      obtain ⟨hwhole, hcount, hbehind⟩ :=
        hkeeps (name, sql, count, rest) hfields (i, prepared') hclaim
      dsimp only at hcount hwhole hbehind
      obtain ⟨old, hget, rfl, hold⟩ :=
        claimPrepared_spec (parseFields_name hfields) hslots.distinct hclaim
      obtain ⟨hi, hold'⟩ := List.getElem?_eq_some_iff.mp hget
      have hstatement : (c.session.prepared.set i { old with used := true, name := name }).getD i
          freePrepared = { old with used := true, name := name } := by
        simp [hi]
      have hlength : old.types.length = MAX_PARAMS :=
        hslots.room old (hold' ▸ List.getElem_mem hi)
      obtain ⟨types, htypes⟩ := Option.isSome_iff_exists.mp hwhole
      dsimp only at hbehind ⊢
      rw [hstatement] at hbehind ⊢
      rw [show readTypes count 0 _ rest = _ from
        @readTypes_announced _ _ old.types _ _ htypes (by omega) hlength]
      dsimp only
      have hok : ∀ session : WireSession,
          (c.handled .parseComplete (.ok (), session)).events = [.reply .parseComplete] :=
        fun session => by
          show c.events ++ _ = _
          rw [hevents, List.nil_append]
      have hnow : declaredBy message [.reply .parseComplete] declared =
          Function.update declared name (some { sql := sql, params := count, types := types }) := by
        have hdeclares : declaration message.body =
            some (name, { sql := sql, params := count, types := types }) := by
          unfold declaration
          rw [hfields]
          show (announced count rest).bind _ = _
          rw [htypes]
          rfl
        unfold declaredBy
        rw [if_pos ⟨htype, List.mem_singleton_self _⟩, hdeclares]
      rw [if_pos rfl, hok, hnow]
      have hlen := announced_length htypes
      have hput := @declared_update _ _ _ _ { sql := sql, params := count, types := types }
        _ { c.session with
          prepared := (c.session.prepared.set i { old with used := true, name := name }).set i
            { used := true, name := name, sql := sql, params := min count MAX_PARAMS
              types := old.types.take 0 ++ types ++ old.types.drop (0 + count) } } _ hslots hget
                  hold (Prepared.key_eq_some.mpr ⟨rfl, rfl⟩) ?_ ⟨rfl, min_eq_left hcount, ?_⟩
                  (List.set_set ..) hdeclared
      · exact hput
      · simp [hlen, hlength, hcount]
      · intro n
        rw [List.take_zero, List.nil_append, Nat.zero_add]
        dsimp only
        by_cases hn : n < types.length
        · rw [List.getD_append _ _ _ _ hn]
        · rw [List.getD_append_right _ _ _ _ (by omega), List.getD_eq_default types 0 (by omega)]
          by_cases hin : n - types.length < (old.types.drop count).length
          · rw [List.getD_eq_getElem _ _ hin]
            exact hbehind _ (List.getElem_mem hin)
          · rw [List.getD_eq_default _ _ (by omega)]

/-- Closing a statement by its name frees its slot. -/
theorem handleClose_prepared {c : Client E} {body name : List UInt8} {what : UInt8}
    (hfields : targetFields body = some (what, name)) :
    (handleClose body c).session.prepared =
      if what = 83 then
        match findPrepared name c.session.prepared with
        | none => c.session.prepared
        | some i =>
          c.session.prepared.modify i fun statement => { statement with used := false }
      else c.session.prepared := by
  unfold handleClose
  rw [hfields]
  show WireSession.prepared (if _ then _ else _) = _
  split
  · cases findPrepared name c.session.prepared <;> rfl
  · split <;> rfl

/-- A Close gives the slot of its name up. -/
theorem close_prepared {c : Client E} {message : Message}
    {declared : List UInt8 → Option Declaration}
    (hslots : SlotsKept c.session.prepared) (hdeclared : Declared c.session declared)
    (htype : message.type = 67) :
    SlotsKept (dispatch b message c).session.prepared ∧
      Declared (dispatch b message c).session
        (declaredBy message (dispatch b message c).events declared) := by
  have hdispatch : dispatch b message c = handleClose message.body c := by
    unfold dispatch
    rw [htype]
    rfl
  have hnot : ¬ (message.type = 80 ∧
      WireEvent.reply .parseComplete ∈ (handleClose message.body c).events) := fun h => by
    rw [htype] at h
    exact absurd h.1 (by decide)
  rw [hdispatch]
  unfold declaredBy
  rw [if_neg hnot]
  cases hfields : targetFields message.body with
  | none =>
    have hfail : handleClose message.body c = c.fail .IO_BAD_FORMAT := by
      unfold handleClose
      rw [hfields]
    rw [hfail]
    dsimp only
    rw [ite_self]
    exact ⟨hslots, hdeclared⟩
  | some fields =>
    obtain ⟨what, name⟩ := fields
    have hprepared := handleClose_prepared (c := c) hfields
    rw [if_pos ⟨htype, (handleClose_target hfields).1⟩]
    dsimp only
    by_cases hwhat : what = 83
    · rw [if_pos hwhat] at hprepared ⊢
      cases hfind : findPrepared name c.session.prepared with
      | none =>
        rw [hfind] at hprepared
        have hnone : declared name = none := by
          have hrel := hdeclared name
          unfold preparedOf at hrel
          rw [hfind] at hrel
          cases hd : declared name with
          | none => rfl
          | some d =>
            rw [hd] at hrel
            exact absurd hrel (by rintro ⟨⟩)
        rw [← hnone, Function.update_eq_self, hprepared]
        exact ⟨hslots, hdeclared.congr hprepared⟩
      | some i =>
        rw [hfind] at hprepared
        rw [findPrepared_eq] at hfind
        obtain ⟨old, hget, hkey⟩ := (Slots.find_eq_some_iff hslots.distinct).mp hfind
        obtain ⟨hi, hold⟩ := List.getElem?_eq_some_iff.mp hget
        have hset : (handleClose message.body c).session.prepared =
            c.session.prepared.set i { old with used := false } := by
          rw [hprepared]
          show c.session.prepared.modify i _ = _
          rw [List.modify_eq_set_getElem?, hget]
          rfl
        have hnew : ({ old with used := false } : Prepared).key = none := rfl
        have hdistinct : Slots.Distinct Prepared.key
            (c.session.prepared.set i { old with used := false }) :=
          hslots.distinct.set hi fun k hk => absurd (hnew.symm.trans hk) (by simp)
        refine ⟨⟨hset ▸ hdistinct, fun statement hmem => ?_⟩, fun k => ?_⟩
        · rw [hset] at hmem
          rcases List.mem_or_eq_of_mem_set hmem with hmem | rfl
          · exact hslots.room statement hmem
          · exact hslots.room old (hold ▸ List.getElem_mem hi)
        · rw [hset, preparedOf_eq]
          by_cases hk : k = name
          · subst hk
            rw [Slots.lookup_set_none hslots.distinct hdistinct hget hkey (by rw [hnew]; simp),
              Function.update_self]
            exact .none
          · rw [Slots.lookup_set_other hslots.distinct hdistinct hget
              (by rw [hkey]; exact fun h => hk (Option.some.inj h).symm) (by rw [hnew]; simp),
              Function.update_of_ne hk, ← preparedOf_eq]
            exact hdeclared k
    · rw [if_neg hwhat] at hprepared ⊢
      rw [hprepared]
      exact ⟨hslots, hdeclared.congr hprepared⟩

/-- One message, by the kind that it is of. -/
theorem declared_step {s : Client E × (List UInt8 → Option Declaration)} {message : Message}
    (hslots : SlotsKept s.1.session.prepared) (hdeclared : Declared s.1.session s.2)
    (hkeeps : KeepsPrepared s.1.session message) :
    SlotsKept (serveDeclared b s message).1.session.prepared ∧
      Declared (serveDeclared b s message).1.session (serveDeclared b s message).2 := by
  obtain ⟨c, declared⟩ := s
  unfold serveDeclared
  dsimp only at hslots hdeclared hkeeps ⊢
  by_cases hserved : c.session.ignoringUntilSync = false ∨ message.isSync = true ∧ c.lost = false
  · rw [serveMessage_dispatched hserved]
    by_cases hparse : message.type = 80
    · have hflag : c.session.ignoringUntilSync = false := by
        rcases hserved with hflag | ⟨hsync, -⟩
        · exact hflag
        · exact absurd hparse (by
            rw [show message.type = 83 by simpa [Message.isSync] using hsync]
            decide)
      exact parse_step (c := { c with events := [] }) rfl hslots hdeclared hparse hflag hkeeps
    · by_cases hclose : message.type = 67
      · exact close_prepared (c := { c with events := [] }) hslots hdeclared hclose
      · rw [declaredBy_quiet (fun h => absurd h hparse) fun h => absurd h hclose]
        have hsame := dispatch_prepared (b := b) (c := { c with events := [] }) hparse hclose
        rw [hsame]
        exact ⟨hslots, hdeclared.congr hsame⟩
  · rw [(serveMessage_else hserved).2, declaredBy_quiet (fun _ => by simp) fun _ => by simp]
    exact ⟨hslots, hdeclared⟩

end

/-! ### Whole connections -/

/-- If every message of a connection keeps the statements apart, they are what was declared. -/
theorem prepared_declared {E : Type} (b : Backend E) (messages : List Message) (engine : E)
    (h : StepsMeet (serveDeclared b) (fun s message => KeepsPrepared s.1.session message)
      (newClient engine, fun _ => none) (served messages)) :
    Declared (run (serveDeclared b) (newClient engine, fun _ => none) (served messages)).1.session
      (run (serveDeclared b) (newClient engine, fun _ => none) (served messages)).2 := by
  refine (h.invariant
    (fun s => SlotsKept s.1.session.prepared ∧ Declared s.1.session s.2)
    (fun s message hs hm => declared_step hs.1 hs.2 hm) ⟨⟨?_, ?_⟩, fun name => ?_⟩).2
  · intro i j a c k hi _ ha _
    obtain rfl := List.eq_of_mem_replicate (List.mem_of_getElem? hi)
    exact absurd (show none = some k from ha) (by simp)
  · intro statement hmem
    obtain rfl := List.eq_of_mem_replicate hmem
    rfl
  · have hnone : preparedOf name (newClient engine).session.prepared = none := by
      unfold preparedOf findPrepared
      rw [List.findIdx?_eq_none_iff.mpr fun statement hmem => by
        rw [List.eq_of_mem_replicate hmem]
        rfl]
      rfl
    show Option.Rel Prepared.Is (preparedOf name (newClient engine).session.prepared) none
    rw [hnone]
    exact .none

/-- A Parse with the type of one parameter. -/
def parseTyped (name text : List UInt8) (oid : UInt8) : Message :=
  { type := 80, body := name ++ 0 :: (text ++ [0, 0, 1, 0, 0, 0, oid]) }

/-- Two statements, of which one is declared again, with as many types. -/
def declaredTwice : List Message :=
  [parseTyped (ascii "s") (ascii "select a from t where a=$1") 23,
    parseOf (ascii "u") (ascii "select a from t"),
    parseTyped (ascii "s") (ascii "select b from t where b=$1") 25]

/-- Two declarations of one name leave the later one. -/
theorem prepared_declared_twice :
    Declared (run (serveDeclared silent) (newClient (), fun _ => none)
      (served declaredTwice)).1.session
      (run (serveDeclared silent) (newClient (), fun _ => none) (served declaredTwice)).2 :=
  prepared_declared silent declaredTwice () (by decide +kernel)

/-- Every type of a statement is the declared one. -/
theorem Declared.type_eq {session : WireSession} {declared : List UInt8 → Option Declaration}
    (h : Declared session declared) (name : List UInt8) (n : Nat) :
    ((preparedOf name session.prepared).map fun statement => statement.types.getD n 0) =
      (declared name).map fun d => d.types.getD n 0 := by
  have hrel := h name
  cases hstatement : preparedOf name session.prepared with
  | none =>
    rw [hstatement] at hrel
    cases hd : declared name with
    | none => rfl
    | some d =>
      rw [hd] at hrel
      exact absurd hrel (by rintro ⟨⟩)
  | some statement =>
    rw [hstatement] at hrel
    cases hd : declared name with
    | none =>
      rw [hd] at hrel
      exact absurd hrel (by rintro ⟨⟩)
    | some d =>
      rw [hd] at hrel
      cases hrel with
      | some his => exact congrArg some (his.types n)

/-- A statement is declared with a parameter of type text, and again with none declared. -/
def declaredLess : List Message :=
  [parseTyped (ascii "s") (ascii "select a from t where b=$1") 25,
    parseOf (ascii "s") (ascii "select a from t where a=$1")]

/-- It keeps the type. -/
theorem prepared_stale :
    ¬ Declared (run (serveDeclared silent) (newClient (), fun _ => none)
      (served declaredLess)).1.session
      (run (serveDeclared silent) (newClient (), fun _ => none) (served declaredLess)).2 := by
  intro h
  have hprepared : ((preparedOf (ascii "s") (run (serveDeclared silent)
      (newClient (), fun _ => none) (served declaredLess)).1.session.prepared).map
        fun statement => statement.types.getD 0 0) = some 25 := by
    decide +kernel
  have hdeclared : (((run (serveDeclared silent) (newClient (), fun _ => none)
      (served declaredLess)).2 (ascii "s")).map fun d => d.types.getD 0 0) = some 0 := by
    decide +kernel
  have hsame := h.type_eq (ascii "s") 0
  rw [hprepared, hdeclared] at hsame
  exact absurd hsame (by decide)

end DatabaseEngine
