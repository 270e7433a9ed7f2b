import DatabaseEngine.Library.Run
import DatabaseEngine.Spec.Messages

/-!
# `DatabaseEngine.Proofs.Wire.Effects`: what each handler does to a connection

* `Client.Kept`: prepared statements, the portal and its result are as they were.
* `runPortalOn_cases`: the ways in which a portal is run.
* `dispatch_asks`, `dispatch_portal`: what follows on it.
* `dispatch_apart`, `dispatch_prepared`: the messages that leave the portal, or the prepared
  statements, alone.
* `SumFits`: the messages whose sums are ints; `serving_step`: behind these the connection is
  still served.
-/

set_option autoImplicit false

namespace DatabaseEngine

open Library

/-- The statements that were handed to the engine. -/
def runsOf (events : List WireEvent) : List (List UInt8) :=
  events.filterMap fun
    | .run sql => some sql
    | .reply _ => none

/-- The runs among events come in their order. -/
theorem runsOf_append (front back : List WireEvent) :
    runsOf (front ++ back) = runsOf front ++ runsOf back :=
  List.filterMap_append ..

/-- Replies are no runs. -/
theorem runsOf_replies (replies : List Reply) : runsOf (replies.map .reply) = [] := by
  induction replies with
  | nil => rfl
  | cons reply rest ih => exact ih

section
variable {E : Type} {b : Backend E} {c c' c'' : Client E}

/-! ### What a handler leaves alone -/

/-- What was done left the statements, the portal and the result. -/
structure Client.Kept (c c' : Client E) : Prop where
  prepared : c'.session.prepared = c.session.prepared
  portal : c'.session.portal = c.session.portal
  result : c'.result = c.result
  held : c'.held = c.held
  lost : c'.lost = c.lost

/-- Doing nothing keeps the session. -/
theorem Client.Kept.refl (c : Client E) : c.Kept c := ⟨rfl, rfl, rfl, rfl, rfl⟩

/-- Two steps that keep it keep it. -/
theorem Client.Kept.trans (h : c.Kept c') (h' : c'.Kept c'') : c.Kept c'' :=
  ⟨h'.prepared.trans h.prepared, h'.portal.trans h.portal, h'.result.trans h.result,
    h'.held.trans h.held, h'.lost.trans h.lost⟩

/-- Sending a reply keeps the session. -/
theorem send_kept (reply : Reply) (c : Client E) : c.Kept (c.send reply) :=
  ⟨rfl, rfl, rfl, rfl, rfl⟩

/-- So does failing, but for the flag. -/
theorem fail_kept (code : ErrorCode) (c : Client E) : c.Kept (c.fail code) :=
  ⟨rfl, rfl, rfl, rfl, rfl⟩

/-- Running a statement keeps the session. -/
theorem processStatement_kept {sql : List UInt8} {answer : Except ErrorCode Results}
    (h : b.processStatement sql c = (answer, c')) : c.Kept c' := by
  obtain ⟨-, rfl⟩ := Prod.mk.inj h
  exact ⟨rfl, rfl, rfl, rfl, rfl⟩

/-- Rows are sent one reply each. -/
theorem sendRows_eq (fresh : Bool) (rows : List Row) (c : Client E) :
    sendRows fresh rows c =
      { c with events := c.events ++ rows.map fun row => .reply (.dataRow row fresh) } := by
  induction rows generalizing c with
  | nil => simp [sendRows]
  | cons row rest ih =>
    rw [show sendRows fresh (row :: rest) c = sendRows fresh rest (c.send (.dataRow row fresh)) from
      rfl, ih]
    simp [Client.send]

/-- Sending rows keeps the session. -/
theorem sendRows_kept (fresh : Bool) (rows : List Row) (c : Client E) :
    c.Kept (sendRows fresh rows c) := by
  rw [sendRows_eq]
  exact ⟨rfl, rfl, rfl, rfl, rfl⟩

/-- Sending a shape keeps it. -/
theorem sendShape_kept (results : Results) (c : Client E) : c.Kept (sendShape results c) := by
  unfold sendShape
  split
  · exact send_kept _ c
  · exact send_kept _ c

/-- Sending a result keeps it. -/
theorem sendResult_kept (sql : List UInt8) (results : Results) (c : Client E) :
    c.Kept (sendResult sql results c) := by
  unfold sendResult
  split
  · have hrows := sendRows_kept true results.rows (sendRowDescription results c)
    exact ((send_kept _ c).trans hrows).trans (send_kept _ _)
  · exact send_kept _ c

/-- Running the statements of a text keeps it. -/
theorem runStatements_kept {statements : List (List UInt8)} {failed : Bool}
    (h : runStatements b statements c = (failed, c')) : c.Kept c' := by
  induction statements generalizing c with
  | nil =>
    obtain ⟨-, rfl⟩ := Prod.mk.inj h
    exact .refl c
  | cons sql rest ih =>
    unfold runStatements at h
    split at h
    · rename_i hran
      obtain ⟨-, rfl⟩ := Prod.mk.inj h
      exact (processStatement_kept hran).trans (send_kept _ _)
    · rename_i hran
      exact ((processStatement_kept hran).trans (sendResult_kept sql _ _)).trans (ih h)

/-- Probing a statement keeps it. -/
theorem probeStatement_kept {statement : Prepared} {n attempt : Nat} {code : ErrorCode}
    {answer : Except ErrorCode Results}
    (h : probeStatement b statement n attempt code c = (answer, c')) : c.Kept c' := by
  induction n generalizing attempt code c with
  | zero =>
    obtain ⟨-, rfl⟩ := Prod.mk.inj h
    exact .refl c
  | succ n ih =>
    unfold probeStatement at h
    dsimp only at h
    split at h
    · obtain ⟨-, rfl⟩ := Prod.mk.inj h
      exact .refl c
    · split at h
      · rename_i hran
        obtain ⟨-, rfl⟩ := Prod.mk.inj h
        exact processStatement_kept hran
      · rename_i hran
        exact (processStatement_kept hran).trans (ih h)

/-- Describing a statement keeps it. -/
theorem describeStatement_kept (statement : Prepared) (c : Client E) :
    c.Kept (describeStatement b statement c) := by
  have hfirst := send_kept (.parameterDescription statement.params) c
  unfold describeStatement
  dsimp only
  split
  · exact hfirst.trans (send_kept _ _)
  · split
    · rename_i hprobe
      exact (hfirst.trans (probeStatement_kept hprobe)).trans (fail_kept _ _)
    · rename_i hprobe
      exact (hfirst.trans (probeStatement_kept hprobe)).trans (sendShape_kept _ _)

/-! ### Running the portal -/

/-- A connection whose portal has just been run. -/
def Client.executed (results : Results) (c : Client E) : Client E :=
  { c with
    session := { c.session with portal := { c.session.portal with executed := true, sent := 0 } }
    result := results
    held := c.arenas.generation results.arena }

/-- What `runPortalOn` can do. -/
inductive RanPortal (b : Backend E) (c : Client E) : Except ErrorCode Unit → Client E → Prop
  | missing (hused : c.session.portal.used = false) :
    RanPortal b c (.error .SEMANTIC_TABLE_NOT_FOUND) c
  | done (hused : c.session.portal.used = true) (hexecuted : c.session.portal.executed = true) :
    RanPortal b c (.ok ()) c
  | failed {code : ErrorCode} {c' : Client E} (hused : c.session.portal.used = true)
      (hexecuted : c.session.portal.executed = false)
      (hran : b.processStatement (c.session.portal.sql.takeWhile (· ≠ 0)) c = (.error code, c')) :
    RanPortal b c (.error code) c'
  | ran {results : Results} {c' : Client E} (hused : c.session.portal.used = true)
      (hexecuted : c.session.portal.executed = false)
      (hran : b.processStatement (c.session.portal.sql.takeWhile (· ≠ 0)) c = (.ok results, c')) :
    RanPortal b c (.ok ()) (c'.executed results)

/-- The portal is run, or was run before, or there is none. -/
theorem runPortalOn_cases {answer : Except ErrorCode Unit} (h : runPortalOn b c = (answer, c')) :
    RanPortal b c answer c' := by
  unfold runPortalOn at h
  cases hused : c.session.portal.used with
  | false =>
    have hportal : runPortal c.session = .error .SEMANTIC_TABLE_NOT_FOUND := by
      simp [runPortal, hused]
    rw [hportal] at h
    obtain ⟨rfl, rfl⟩ := Prod.mk.inj h
    exact .missing hused
  | true =>
    cases hexecuted : c.session.portal.executed with
    | true =>
      have hportal : runPortal c.session = .ok none := by simp [runPortal, hused, hexecuted]
      rw [hportal] at h
      obtain ⟨rfl, rfl⟩ := Prod.mk.inj h
      exact .done hused hexecuted
    | false =>
      have hportal :
          runPortal c.session = .ok (some (c.session.portal.sql.takeWhile (· ≠ 0))) := by
        simp [runPortal, hused, hexecuted]
      rw [hportal] at h
      dsimp only at h
      split at h
      · rename_i hran
        obtain ⟨rfl, rfl⟩ := Prod.mk.inj h
        exact .failed hused hexecuted hran
      · rename_i hran
        obtain ⟨rfl, rfl⟩ := Prod.mk.inj h
        exact .ran hused hexecuted hran

/-! ### Handing over rows -/

/-- A connection that has sent its rows from one up to the last, for a portal. -/
def Client.handOver (first last : Nat) (c : Client E) : Client E :=
  let sent := sendRows c.fresh ((c.result.rows.take last).drop first) c
  let next : Client E :=
    { sent with session := { sent.session with portal := { c.session.portal with sent := last } } }
  if last < c.result.rows.length then next.send .portalSuspended
  else next.send (.commandComplete (commandTag (c.session.portal.sql.takeWhile (· ≠ 0)) c.result))

/-- The C sum is the sum as long as it does not overflow. -/
theorem addInt_eq {a b : Int} (hlow : -2 ^ 31 ≤ a + b) (hhigh : a + b < 2 ^ 31) :
    addInt a b = a + b :=
  Int.bmod_eq_of_le (by omega) (by omega)

/-- As long as the sum is an `int`, the rows from the first that was not sent are. -/
theorem sendPortal_hands {limit : Int} {first : Nat} (hfirst : c.session.portal.sent = first)
    (hsum : c.session.portal.sent + limit < 2 ^ 31) :
    ∃ last : Nat, (first ≤ last ∨ c.result.rows.length ≤ last) ∧
      sendPortal limit c = c.handOver first last := by
  have hfront : ∀ last : Nat,
      (if 0 < limit ∧ addInt c.session.portal.sent limit < c.result.rows.length then
        addInt c.session.portal.sent limit else (c.result.rows.length : Int)) = last →
      sendPortal limit c = c.handOver first last := by
    intro last hlast
    unfold sendPortal Client.handOver
    dsimp only
    rw [hlast, hfirst, if_neg (by omega), Int.toNat_natCast, Int.toNat_natCast, sendRows_eq]
    by_cases hmore : last < c.result.rows.length
    · rw [if_pos hmore, if_pos (Int.ofNat_lt.mpr hmore)]
    · rw [if_neg hmore, if_neg fun h => hmore (Int.ofNat_lt.mp h)]
  by_cases hmore : 0 < limit ∧ c.session.portal.sent + limit < c.result.rows.length
  · have hadd := addInt_eq (a := c.session.portal.sent) (b := limit) (by omega) hsum
    refine ⟨first + limit.toNat, .inl (Nat.le_add_right ..), hfront _ ?_⟩
    rw [hadd, if_pos hmore]
    omega
  · refine ⟨c.result.rows.length, .inr (Nat.le_refl _), hfront _ (if_neg fun h => ?_)⟩
    rw [addInt_eq (by omega) hsum] at h
    exact hmore h

/-! ### Messages that run the portal -/

/-- The portal that a message asks for, to run it or to describe it. -/
def Message.portal (message : Message) : Option (List UInt8) :=
  if message.type = 69 then (executeFields message.body).map (·.1)
  else if message.type = 68 then
    match targetFields message.body with
    | some (what, name) => if what = 83 then none else some name
    | none => none
  else none

/-- What is done once the portal has been run. -/
structure Client.Follows (c c' : Client E) : Prop where
  prepared : c'.session.prepared = c.session.prepared
  used : c'.session.portal.used = c.session.portal.used
  name : c'.session.portal.name = c.session.portal.name
  sql : c'.session.portal.sql = c.session.portal.sql
  executed : c'.session.portal.executed = c.session.portal.executed
  runs : runsOf c'.events = runsOf c.events

/-- Sending a shape touches nothing of the portal but where it stands. -/
theorem sendShape_follows (results : Results) (c : Client E) :
    c.Follows (sendShape results c) := by
  have hsend : ∀ reply : Reply, c.Follows (c.send reply) := fun reply =>
    ⟨rfl, rfl, rfl, rfl, rfl, by
      show runsOf (c.events ++ [reply].map .reply) = _
      rw [runsOf_append, runsOf_replies, List.append_nil]⟩
  unfold sendShape
  split
  · exact hsend _
  · exact hsend _

/-- So does sending the portal's rows. -/
theorem sendPortal_follows (limit : Int) (c : Client E) : c.Follows (sendPortal limit c) := by
  unfold sendPortal
  dsimp only
  generalize (if 0 < limit ∧ addInt c.session.portal.sent limit < c.result.rows.length then
    addInt c.session.portal.sent limit else (c.result.rows.length : Int)) = last
  rw [sendRows_eq]
  have hrows : ∀ (rows : List Row) (reply : Reply),
      runsOf (c.events ++ (rows.map fun row => .reply (.dataRow row c.fresh)) ++ [.reply reply]) =
        runsOf c.events := fun rows reply => by
    have hreplies : (rows.map fun row => WireEvent.reply (.dataRow row c.fresh)) ++ [.reply reply] =
        ((rows.map fun row => Reply.dataRow row c.fresh) ++ [reply]).map .reply := by simp
    rw [List.append_assoc, hreplies, runsOf_append, runsOf_replies, List.append_nil]
  split
  · exact ⟨rfl, rfl, rfl, rfl, rfl, rfl⟩
  · split
    · exact ⟨rfl, rfl, rfl, rfl, rfl, hrows _ _⟩
    · exact ⟨rfl, rfl, rfl, rfl, rfl, hrows _ _⟩

/-- A message that asks for a portal runs the one in use, whatever it asks for. -/
theorem dispatch_asks {message : Message} {name : List UInt8} (h : message.portal = some name) :
    ∃ next : Client E → Client E,
      (dispatch b message c =
        match runPortalOn b c with
        | (.error code, c) => c.fail code
        | (.ok (), c) => next c) ∧
      ((message.type = 69 ∧
          ∃ limit, executeFields message.body = some (name, limit) ∧ next = sendPortal limit) ∨
        (message.type = 68 ∧ next = fun c => sendShape c.result c)) := by
  unfold Message.portal at h
  unfold dispatch
  split at h
  · rename_i htype
    obtain ⟨⟨n, limit⟩, hfields, rfl⟩ := Option.map_eq_some_iff.mp h
    refine ⟨sendPortal limit, ?_, .inl ⟨htype, limit, hfields, rfl⟩⟩
    rw [htype]
    show handleExecute b message.body c = _
    unfold handleExecute
    exact hfields ▸ rfl
  · split at h
    · rename_i htype
      split at h
      · rename_i what n hfields
        split at h
        · exact absurd h (by simp)
        · rename_i hwhat
          refine ⟨fun c => sendShape c.result c, ?_, .inr ⟨htype, rfl⟩⟩
          rw [htype]
          show handleDescribe b message.body c = _
          unfold handleDescribe
          rw [hfields]
          exact if_neg hwhat
      · exact absurd h (by simp)
    · exact absurd h (by simp)

/-- A message that names the portal runs it first. -/
theorem dispatch_portal {message : Message} {name : List UInt8} (h : message.portal = some name) :
    ∃ answer c₁, runPortalOn b c = (answer, c₁) ∧
      match answer with
      | .error code => dispatch b message c = c₁.fail code
      | .ok () => c₁.Follows (dispatch b message c) := by
  obtain ⟨next, hdispatch, hnext⟩ := dispatch_asks (b := b) (c := c) h
  rw [hdispatch]
  cases hran : runPortalOn b c with
  | mk answer c₁ =>
    cases answer with
    | error code => exact ⟨_, _, rfl, rfl⟩
    | ok u =>
      refine ⟨_, _, rfl, ?_⟩
      rcases hnext with ⟨-, limit, -, rfl⟩ | ⟨-, rfl⟩
      · exact sendPortal_follows limit c₁
      · exact sendShape_follows _ c₁

/-! ### Messages that leave the portal alone -/

/-- Parse leaves the portal. -/
theorem handleParse_portal (body : List UInt8) (session : WireSession) :
    (handleParse body session).2.portal = session.portal := by
  unfold handleParse failExtended
  split
  · rfl
  · split
    · rfl
    · dsimp only
      split <;> rfl

/-- What a handler leaves is the client's session. -/
theorem handled_session (reply : Reply) (result : Except ErrorCode Unit × WireSession) :
    (c.handled reply result).session = result.2 := by
  obtain ⟨answer, session⟩ := result
  cases answer <;> rfl

/-- The Describe of a statement, and one that cannot be read. -/
theorem handleDescribe_kept {body : List UInt8}
    (h : ∀ what name, targetFields body = some (what, name) → what = 83) :
    c.Kept (handleDescribe b body c) := by
  unfold handleDescribe
  split
  · exact fail_kept _ c
  · rename_i what name hfields
    rw [if_pos (h what name hfields)]
    split
    · exact fail_kept _ c
    · exact describeStatement_kept _ c

/-- Neither Query nor Parse nor Bind nor Close, nor a message that asks for a portal. -/
theorem dispatch_kept {message : Message} (hquery : message.type ≠ 81) (hparse : message.type ≠ 80)
    (hbind : message.type ≠ 66) (hclose : message.type ≠ 67) (hportal : message.portal = none) :
    c.Kept (dispatch b message c) := by
  unfold Message.portal at hportal
  unfold dispatch
  rw [if_neg hquery, if_neg hparse, if_neg hbind, if_neg hclose]
  split
  · rename_i hdescribe
    rw [if_neg (by rw [hdescribe]; decide), if_pos hdescribe] at hportal
    refine handleDescribe_kept fun what name hfields => ?_
    rw [hfields] at hportal
    simpa using hportal
  · split
    · rename_i hexecute
      rw [if_pos hexecute] at hportal
      unfold handleExecute
      rw [Option.map_eq_none_iff.mp hportal]
      exact fail_kept _ c
    · split
      · exact .refl c
      · split
        · exact ⟨rfl, rfl, rfl, rfl, rfl⟩
        · exact fail_kept _ c

/-- A Parse goes to its handler. -/
theorem dispatch_parse {message : Message} (h : message.type = 80) :
    dispatch b message c = c.handled .parseComplete (handleParse message.body c.session) := by
  unfold dispatch
  rw [h]
  rfl

/-- A Bind goes to its handler. -/
theorem dispatch_bind {message : Message} (h : message.type = 66) :
    dispatch b message c = c.handled .bindComplete (handleBind message.body c.session) := by
  unfold dispatch
  rw [h]
  rfl

/-- A Close goes to its handler. -/
theorem dispatch_close {message : Message} (h : message.type = 67) :
    dispatch b message c = handleClose message.body c := by
  unfold dispatch
  rw [h]
  rfl

/-- A Query goes to its handler, up to the first zero byte. -/
theorem dispatch_query {message : Message} (h : message.type = 81) :
    dispatch b message c = handleQuery b (message.body.takeWhile (· ≠ 0)) c := by
  unfold dispatch
  rw [h]
  rfl

/-- Neither Query nor Bind nor Close, nor a message that asks for a portal. -/
theorem dispatch_apart {message : Message} (hquery : message.type ≠ 81) (hbind : message.type ≠ 66)
    (hclose : message.type ≠ 67) (hportal : message.portal = none) :
    (dispatch b message c).session.portal = c.session.portal := by
  by_cases hparse : message.type = 80
  · rw [dispatch_parse hparse, handled_session]
    exact handleParse_portal _ _
  · exact (dispatch_kept hquery hparse hbind hclose hportal).portal

/-- A Query frees the portal and leaves the statements. -/
theorem handleQuery_session (sql : List UInt8) :
    (handleQuery b sql c).session.prepared = c.session.prepared ∧
      (handleQuery b sql c).session.portal =
        { c.session.portal with used := false, executed := false } := by
  unfold handleQuery
  dsimp only
  generalize hstart : ({ c with
    session :=
      { c.session with portal := { c.session.portal with used := false, executed := false } } } :
    Client E) = start
  have hsame : start.session.prepared = c.session.prepared ∧ start.session.portal =
      { c.session.portal with used := false, executed := false } := by
    rw [← hstart]
    exact ⟨rfl, rfl⟩
  cases hrun : runStatements b (runQuery sql).1 start with
  | mk failed next =>
    have hkept := runStatements_kept hrun
    have hnext : ∀ reply : Reply, (sendReadyForQuery b (next.send reply)).session = next.session :=
      fun reply => rfl
    dsimp only
    split
    · rw [hnext]
      exact ⟨hkept.prepared.trans hsame.1, hkept.portal.trans hsame.2⟩
    · exact ⟨hkept.prepared.trans hsame.1, hkept.portal.trans hsame.2⟩

/-- Neither Parse nor Close. -/
theorem dispatch_prepared {message : Message} (hparse : message.type ≠ 80)
    (hclose : message.type ≠ 67) :
    (dispatch b message c).session.prepared = c.session.prepared := by
  cases hportal : message.portal with
  | some name =>
    obtain ⟨answer, c₁, hran, hdone⟩ := dispatch_portal (b := b) (c := c) hportal
    have hkept : c₁.session.prepared = c.session.prepared := by
      cases runPortalOn_cases hran with
      | missing => rfl
      | done => rfl
      | failed _ _ hprocess => exact (processStatement_kept hprocess).prepared
      | ran _ _ hprocess => exact (processStatement_kept hprocess).prepared
    cases answer with
    | error code =>
      rw [show dispatch b message c = c₁.fail code from hdone]
      exact hkept
    | ok u => exact (show c₁.Follows _ from hdone).prepared.trans hkept
  | none =>
    by_cases hquery : message.type = 81
    · rw [dispatch_query hquery]
      exact (handleQuery_session _).1
    · by_cases hbind : message.type = 66
      · rw [dispatch_bind hbind, handled_session]
        unfold handleBind failExtended
        split
        · rfl
        · dsimp only
          split <;> rfl
      · exact (dispatch_kept hquery hparse hbind hclose hportal).prepared

/-! ### Connections that are served -/

/-- The next row of the portal is not in front of the result, and has never been. -/
structure Client.Serving (c : Client E) : Prop where
  sent : 0 ≤ c.session.portal.sent
  lost : c.lost = false

/-- An Execute of a portal that has been run asks for no more rows than an `int` counts, with
those that were sent. -/
def SumFits (c : Client E) (message : Message) : Prop :=
  c.session.ignoringUntilSync = false → message.type = 69 → c.session.portal.used = true →
    c.session.portal.executed = true →
      ∀ fields ∈ executeFields message.body, c.session.portal.sent + fields.2 < 2 ^ 31

instance (c : Client E) (message : Message) : Decidable (SumFits c message) :=
  inferInstanceAs (Decidable (_ → _ → _ → _ → _))

/-- A limit is an `int`. -/
theorem executeFields_limit {body name : List UInt8} {limit : Int}
    (h : executeFields body = some (name, limit)) : limit < 2 ^ 31 := by
  unfold executeFields at h
  obtain ⟨⟨name', rest⟩, -, h⟩ := Option.bind_eq_some_iff.mp h
  obtain ⟨⟨limit', rest'⟩, hlimit, h⟩ := Option.bind_eq_some_iff.mp h
  obtain ⟨-, rfl⟩ := Prod.mk.inj (Option.some.inj h)
  unfold bodyI32 at hlimit
  split at hlimit
  · obtain ⟨rfl, -⟩ := Prod.mk.inj (Option.some.inj hlimit)
    exact Int32.toInt_lt _
  · exact absurd hlimit (by simp)

/-- What is left of a connection once its portal has been run. -/
theorem RanPortal.serving {answer : Except ErrorCode Unit} (h : RanPortal b c answer c')
    (hserving : c.Serving) : c'.Serving := by
  cases h with
  | missing => exact hserving
  | done => exact hserving
  | failed _ _ hran =>
    have hkept := processStatement_kept hran
    exact ⟨hkept.portal ▸ hserving.sent, hkept.lost.trans hserving.lost⟩
  | ran _ _ hran => exact ⟨Int.le_refl 0, (processStatement_kept hran).lost.trans hserving.lost⟩

/-- Handing over rows within the result goes on serving. -/
theorem handOver_serving {first last : Nat} (h : c.Serving) : (c.handOver first last).Serving := by
  unfold Client.handOver
  rw [sendRows_eq]
  dsimp only
  split
  · exact ⟨Int.natCast_nonneg _, h.lost⟩
  · exact ⟨Int.natCast_nonneg _, h.lost⟩

/-- The limit of an Execute, once its portal has been run. -/
theorem RanPortal.sumFits {message : Message} {answer : Except ErrorCode Unit}
    (h : RanPortal b c answer c') (hok : answer = .ok ()) (hfits : SumFits c message)
    (hflag : c.session.ignoringUntilSync = false) (htype : message.type = 69)
    {name : List UInt8} {limit : Int} (hfields : executeFields message.body = some (name, limit)) :
    c'.session.portal.sent + limit < 2 ^ 31 := by
  cases h with
  | missing => exact absurd hok (by simp)
  | done hused hexecuted => exact hfits hflag htype hused hexecuted (name, limit) hfields
  | failed => exact absurd hok (by simp)
  | ran =>
    have hlimit := executeFields_limit hfields
    show (0 : Int) + limit < 2 ^ 31
    omega

/-- A handler's reply loses nothing. -/
theorem handled_lost (reply : Reply) (result : Except ErrorCode Unit × WireSession) :
    (c.handled reply result).lost = c.lost := by
  obtain ⟨answer, session⟩ := result
  cases answer <;> rfl

/-- Nor does a Query. -/
theorem handleQuery_lost (sql : List UInt8) : (handleQuery b sql c).lost = c.lost := by
  unfold handleQuery
  dsimp only
  cases hrun : runStatements b (runQuery sql).1 _ with
  | mk failed next =>
    have hkept : next.lost = c.lost := (runStatements_kept hrun).lost
    dsimp only
    split
    · exact hkept
    · exact hkept

/-- A Bind starts another portal, or leaves how much of it was sent. -/
theorem handleBind_sent (body : List UInt8) {session : WireSession} (h : 0 ≤ session.portal.sent) :
    0 ≤ (handleBind body session).2.portal.sent := by
  unfold handleBind failExtended
  split
  · exact h
  · dsimp only
    split
    · exact h
    · exact Int.le_refl 0

/-- Nor does a Close. -/
theorem handleClose_serving (body : List UInt8) (h : c.Serving) : (handleClose body c).Serving := by
  unfold handleClose
  split
  · exact ⟨h.sent, h.lost⟩
  · refine ⟨?_, h.lost⟩
    show 0 ≤ (WireSession.portal (if _ then _ else _)).sent
    split
    · split
      · exact h.sent
      · exact h.sent
    · split
      · exact h.sent
      · exact h.sent

/-- A message that is served keeps the connection served, as long as its sum is an `int`. -/
theorem dispatch_serving {message : Message} (hserving : c.Serving) (hfits : SumFits c message)
    (hflag : c.session.ignoringUntilSync = false ∨ message.type = 83) :
    (dispatch b message c).Serving := by
  cases hportal : message.portal with
  | some name =>
    obtain ⟨next, hdispatch, hnext⟩ := dispatch_asks (b := b) (c := c) hportal
    rw [hdispatch]
    cases hrun : runPortalOn b c with
    | mk answer c₁ =>
      have hran := runPortalOn_cases hrun
      have hafter := hran.serving hserving
      cases answer with
      | error code => exact ⟨hafter.sent, hafter.lost⟩
      | ok u =>
        rcases hnext with ⟨htype, limit, hfields, rfl⟩ | ⟨-, rfl⟩
        · have hopen : c.session.ignoringUntilSync = false :=
            hflag.resolve_right fun h => absurd (htype.symm.trans h) (by decide)
          obtain ⟨last, -, hhands⟩ := sendPortal_hands (Int.toNat_of_nonneg hafter.sent).symm
            (hran.sumFits rfl hfits hopen htype hfields)
          show (sendPortal limit c₁).Serving
          rw [hhands]
          exact handOver_serving hafter
        · have hkept := sendShape_kept c₁.result c₁
          exact ⟨hkept.portal ▸ hafter.sent, hkept.lost.trans hafter.lost⟩
  | none =>
    by_cases hquery : message.type = 81
    · rw [dispatch_query hquery]
      refine ⟨?_, (handleQuery_lost _).trans hserving.lost⟩
      rw [(handleQuery_session _).2]
      exact hserving.sent
    · by_cases hparse : message.type = 80
      · rw [dispatch_parse hparse]
        refine ⟨?_, (handled_lost _ _).trans hserving.lost⟩
        rw [handled_session, handleParse_portal]
        exact hserving.sent
      · by_cases hbind : message.type = 66
        · rw [dispatch_bind hbind]
          refine ⟨?_, (handled_lost _ _).trans hserving.lost⟩
          rw [handled_session]
          exact handleBind_sent _ hserving.sent
        · by_cases hclose : message.type = 67
          · rw [dispatch_close hclose]
            exact handleClose_serving _ hserving
          · have hkept := dispatch_kept (b := b) (c := c) hquery hparse hbind hclose hportal
            exact ⟨hkept.portal ▸ hserving.sent, hkept.lost.trans hserving.lost⟩

end

end DatabaseEngine
