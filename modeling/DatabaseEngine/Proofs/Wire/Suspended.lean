import DatabaseEngine.Proofs.Wire.Prepared

/-!
# `DatabaseEngine.Proofs.Wire.Suspended`: the rows of a suspended portal

The rows of a portal are handed over as its Executes ask for them. Their texts stay in an arena that
later statements of the thread release.

* `HandsOver`: an Execute sends texts that are where they were put, and the rows sent for a portal
  are those that its statement produced.
* `releases`: how often a Describe releases an arena with its probes.
* `KeepsTexts`: the messages that release no text that is still to be sent.
* `suspended_hands_over`: if every message of a connection is one of these and its sums are ints,
  its Executes hand over what their statements produced.
* `suspended_released`: a Describe of another statement releases them.
-/

set_option autoImplicit false

namespace DatabaseEngine

open Library

/-! ### What is handed over -/

/-- Whether a row has a text. -/
def Row.hasText (row : Row) : Bool := row.any fun v => v.type = .TYPE_TEXT && !v.isNull

/-- The rows that were sent. -/
def rowsOf (events : List WireEvent) : List Row :=
  events.filterMap fun
    | .reply (.dataRow row _) => some row
    | _ => none

/-- The rows that the statement of a portal has produced, and those that have been sent. -/
structure Handed where
  produced : List Row
  handed : List Row

section
variable {E : Type}

/-- What is handed over behind a message that has run the portal, or has found that it was run. -/
def handedBy (b : Backend E) (c : Client E) (message : Message) (events : List WireEvent)
    (g : Handed) : Handed :=
  if message.portal = none then g
  else
    match runsOf events with
    | [] => { g with handed := g.handed ++ rowsOf events }
    | sql :: _ =>
      match (b.process sql c.engine).answer with
      | .ok results => { produced := results.rows, handed := rowsOf events }
      | .error _ => { produced := [], handed := [] }

/-- One message, to the connection and to what it has been handed. -/
def serveHanded (b : Backend E) (s : Client E × Handed) (message : Message) : Client E × Handed :=
  (serveMessage b message s.1, handedBy b s.1 message (serveMessage b message s.1).events s.2)

/-- What an Execute sends is fresh, and is what was produced: a front of it, and all of it once the
portal is complete. It does not read in front of it. -/
def HandsOver (b : Backend E) (s : Client E × Handed) (message : Message) : Prop :=
  s.1.session.ignoringUntilSync = false → message.type = 69 →
    (serveMessage b message s.1).lost = false ∧
    (∀ row fresh, .reply (.dataRow row fresh) ∈ (serveMessage b message s.1).events →
      row.hasText = true → fresh = true) ∧
    (serveHanded b s message).2.handed <+: (serveHanded b s message).2.produced ∧
    (∀ tag, .reply (.commandComplete tag) ∈ (serveMessage b message s.1).events →
      (serveHanded b s message).2.handed = (serveHanded b s message).2.produced)

/-! ### What a Describe releases -/

/-- The statement that a message describes. -/
def describedBy (session : WireSession) (message : Message) : Option Prepared :=
  if message.type = 68 then
    match targetFields message.body with
    | some (what, name) => if what = 83 then preparedOf name session.prepared else none
    | none => none
  else none

/-- The statements that a probe runs, from an attempt on. -/
def probes (b : Backend E) (statement : Prepared) : Nat → Nat → E → List (Processed E)
  | 0, _, _ => []
  | n + 1, attempt, engine =>
    if (probeSql statement attempt).error.isSome then []
    else
      let ran := b.process ((probeSql statement attempt).out.takeWhile (· ≠ 0)) engine
      match ran.answer with
      | .ok _ => [ran]
      | .error _ => ran :: probes b statement n (attempt + 1) ran.engine

/-- What a message probes. -/
def probesOf (b : Backend E) (c : Client E) (message : Message) : List (Processed E) :=
  match describedBy c.session message with
  | some statement =>
    if (takeVerb statement.sql).1 = ascii "SELECT" then
      probes b statement PROBE_ATTEMPTS 0 c.engine
    else []
  | none => []

/-- How often statements release an arena. -/
def releases (arena : Arena) (ran : List (Processed E)) : Nat :=
  match arena with
  | .statementArena => ran.length
  | .groupArena => (ran.map Processed.groupings).sum

/-- As long as a portal that was run has texts to send, no Describe releases their arena. -/
def KeepsTexts (b : Backend E) (c : Client E) (message : Message) : Prop :=
  c.session.ignoringUntilSync = false → c.session.portal.used = true →
    c.session.portal.executed = true →
      (c.result.rows.drop c.session.portal.sent.toNat).any Row.hasText = true →
        releases c.result.arena (probesOf b c message) = 0

instance (b : Backend E) (c : Client E) (message : Message) : Decidable (KeepsTexts b c message) :=
  inferInstanceAs (Decidable (_ → _ → _ → _ → _))

variable {b : Backend E} {c c' : Client E}

/-- A statement that runs winds back the arenas it says. -/
theorem generation_run {sql : List UInt8} {answer : Except ErrorCode Results}
    (h : b.processStatement sql c = (answer, c')) (arena : Arena) :
    c'.arenas.generation arena =
      c.arenas.generation arena + releases arena [b.process sql c.engine] := by
  obtain ⟨-, rfl⟩ := Prod.mk.inj h
  cases arena
  · rfl
  · show _ = c.arenas.groupArena + ([_] : List Nat).sum
    rw [List.sum_singleton]
    rfl

/-- The releases of several runs add up. -/
theorem releases_cons (arena : Arena) (ran : Processed E) (rest : List (Processed E)) :
    releases arena (ran :: rest) = releases arena [ran] + releases arena rest := by
  cases arena
  · simp [releases, Nat.add_comm]
  · simp [releases]

/-- Probing winds back the arenas each of its probes says. -/
theorem generation_probe {statement : Prepared} {n attempt : Nat} {code : ErrorCode}
    {answer : Except ErrorCode Results}
    (h : probeStatement b statement n attempt code c = (answer, c')) (arena : Arena) :
    c'.arenas.generation arena =
      c.arenas.generation arena + releases arena (probes b statement n attempt c.engine) := by
  have hnone : releases arena ([] : List (Processed E)) = 0 := by cases arena <;> rfl
  induction n generalizing attempt code c with
  | zero =>
    obtain ⟨-, rfl⟩ := Prod.mk.inj h
    rw [probes, hnone, Nat.add_zero]
  | succ n ih =>
    unfold probeStatement at h
    unfold probes
    dsimp only at h ⊢
    by_cases herror : (probeSql statement attempt).error.isSome = true
    · rw [if_pos herror] at h ⊢
      obtain ⟨-, rfl⟩ := Prod.mk.inj h
      rw [hnone, Nat.add_zero]
    · rw [if_neg herror] at h ⊢
      cases hran : b.processStatement
          ((probeSql statement attempt).out.takeWhile (· ≠ 0)) c with
      | mk ran c₁ =>
        obtain ⟨hanswer, hc₁⟩ := Prod.mk.inj hran
        rw [hran] at h
        rw [hanswer]
        cases ran with
        | ok results =>
          obtain ⟨-, rfl⟩ := Prod.mk.inj h
          exact generation_run hran arena
        | error code' =>
          have hengine : c₁.engine =
              (b.process ((probeSql statement attempt).out.takeWhile (· ≠ 0)) c.engine).engine := by
            rw [← hc₁]
          rw [ih h, generation_run hran, hengine, releases_cons arena _ (probes ..), Nat.add_assoc]

/-! ### Messages that leave the result alone -/

/-- The result of the portal is as it was, and its arena has been released so often. -/
structure Client.Holding (c c' : Client E) (ran : List (Processed E)) : Prop where
  result : c'.result = c.result
  held : c'.held = c.held
  arenas : ∀ arena, c'.arenas.generation arena = c.arenas.generation arena + releases arena ran

/-- Nothing run, nothing released. -/
theorem releases_nil (arena : Arena) : releases arena ([] : List (Processed E)) = 0 := by
  cases arena <;> rfl

/-- A step that touches neither result nor arenas holds what was held. -/
theorem Client.Holding.idle (hresult : c'.result = c.result) (hheld : c'.held = c.held)
    (harenas : c'.arenas = c.arenas) : c.Holding c' [] :=
  ⟨hresult, hheld, fun arena => by rw [harenas, releases_nil, Nat.add_zero]⟩

/-- So does sending a shape. -/
theorem sendShape_holding (results : Results) (c : Client E) (ran : List (Processed E))
    {c₀ : Client E} (h : c₀.Holding c ran) : c₀.Holding (sendShape results c) ran := by
  unfold sendShape
  split
  · exact ⟨h.result, h.held, h.arenas⟩
  · exact ⟨h.result, h.held, h.arenas⟩

/-- Describing a statement holds it but for the probes it runs. -/
theorem describeStatement_holding (statement : Prepared) (c : Client E) :
    c.Holding (describeStatement b statement c)
      (if (takeVerb statement.sql).1 = ascii "SELECT" then
        probes b statement PROBE_ATTEMPTS 0 c.engine else []) := by
  unfold describeStatement
  dsimp only
  by_cases hverb : (takeVerb statement.sql).1 = ascii "SELECT"
  · rw [if_neg fun h => h hverb, if_pos hverb]
    cases hprobe : probeStatement b statement PROBE_ATTEMPTS 0 .SYNTAX_EXPECTED_VALUE
        (c.send (.parameterDescription statement.params)) with
    | mk answer c₁ =>
      have hkept := probeStatement_kept hprobe
      have hholding : c.Holding c₁ (probes b statement PROBE_ATTEMPTS 0 c.engine) :=
        ⟨hkept.result, hkept.held, fun arena => generation_probe hprobe arena⟩
      cases answer with
      | error code => exact ⟨hholding.result, hholding.held, hholding.arenas⟩
      | ok results => exact sendShape_holding results c₁ _ hholding
  · rw [if_pos hverb, if_neg hverb]
    exact .idle rfl rfl rfl

/-- A handler's reply holds it. -/
theorem handled_holding (reply : Reply) (result : Except ErrorCode Unit × WireSession) :
    c.Holding (c.handled reply result) [] := by
  obtain ⟨answer, session⟩ := result
  cases answer with
  | ok u => exact .idle rfl rfl rfl
  | error code => exact .idle rfl rfl rfl

/-- No other message probes. -/
theorem probesOf_other {message : Message} (h : message.type ≠ 68) : probesOf b c message = [] := by
  unfold probesOf describedBy
  rw [if_neg h]

/-- Neither Query nor a message that asks for a portal. -/
theorem dispatch_holding {message : Message} (hquery : message.type ≠ 81)
    (hportal : message.portal = none) :
    c.Holding (dispatch b message c) (probesOf b c message) := by
  unfold Message.portal at hportal
  by_cases hdescribe : message.type = 68
  · rw [if_neg (by rw [hdescribe]; decide), if_pos hdescribe] at hportal
    have hdispatch : dispatch b message c = handleDescribe b message.body c := by
      unfold dispatch
      rw [hdescribe]
      rfl
    rw [hdispatch]
    unfold handleDescribe probesOf describedBy
    rw [if_pos hdescribe]
    cases hfields : targetFields message.body with
    | none => exact .idle rfl rfl rfl
    | some fields =>
      obtain ⟨what, name⟩ := fields
      rw [hfields] at hportal
      dsimp only at hportal ⊢
      by_cases hwhat : what = 83
      · rw [if_pos hwhat, if_pos hwhat]
        unfold preparedOf
        cases findPrepared name c.session.prepared with
        | none => exact .idle rfl rfl rfl
        | some i => exact describeStatement_holding _ c
      · rw [if_neg hwhat] at hportal
        exact absurd hportal (by simp)
  · rw [probesOf_other hdescribe]
    unfold dispatch
    rw [if_neg hquery, if_neg hdescribe]
    split
    · exact handled_holding _ _
    · split
      · exact handled_holding _ _
      · split
        · rename_i hexecute
          rw [if_pos hexecute] at hportal
          unfold handleExecute
          rw [Option.map_eq_none_iff.mp hportal]
          exact .idle rfl rfl rfl
        · split
          · unfold handleClose
            split
            · exact .idle rfl rfl rfl
            · exact .idle rfl rfl rfl
          · split
            · exact .idle rfl rfl rfl
            · split
              · exact .idle rfl rfl rfl
              · exact .idle rfl rfl rfl

/-! ### One message -/

/-- A portal that was run has sent a front of its rows, and the texts of the others are fresh. -/
structure Suspended (c : Client E) (g : Handed) : Prop where
  serving : c.Serving
  front : g.handed <+: g.produced
  fresh : c.session.portal.used = true → c.session.portal.executed = true →
    (c.result.rows.drop c.session.portal.sent.toNat).any Row.hasText = true → c.fresh = true
  handed : c.session.portal.used = true → c.session.portal.executed = true →
    g.produced = c.result.rows ∧ g.handed = c.result.rows.take c.session.portal.sent.toNat

/-- The portal is as it was, or not to be asked for any more, and nothing that is to be sent was
released. -/
theorem Suspended.of_holding {g : Handed} {ran : List (Processed E)} (h : Suspended c g)
    (hserving : c'.Serving) (hholding : c.Holding c' ran)
    (hportal : c'.session.portal.used = true → c'.session.portal.executed = true →
      c.session.portal.used = true ∧ c.session.portal.executed = true ∧
        c'.session.portal.sent = c.session.portal.sent)
    (hkeeps : c.session.portal.used = true → c.session.portal.executed = true →
      (c.result.rows.drop c.session.portal.sent.toNat).any Row.hasText = true →
        releases c.result.arena ran = 0) : Suspended c' g := by
  refine ⟨hserving, h.front, fun hused hexecuted htext => ?_, fun hused hexecuted => ?_⟩
  · obtain ⟨hused', hexecuted', hsent⟩ := hportal hused hexecuted
    rw [hholding.result, hsent] at htext
    have hfresh := h.fresh hused' hexecuted' htext
    unfold Client.fresh at hfresh ⊢
    rw [hholding.result, hholding.held, hholding.arenas, hkeeps hused' hexecuted' htext,
      Nat.add_zero]
    exact hfresh
  · obtain ⟨hused', hexecuted', hsent⟩ := hportal hused hexecuted
    rw [hholding.result, hsent]
    exact h.handed hused' hexecuted'

/-! ### Messages that hand over rows -/

/-- The rows among events come in their order. -/
theorem rowsOf_append (front back : List WireEvent) :
    rowsOf (front ++ back) = rowsOf front ++ rowsOf back :=
  List.filterMap_append ..

/-- The rows that were sent are the rows of the events. -/
theorem rowsOf_rows (rows : List Row) (fresh : Bool) :
    rowsOf (rows.map fun row => .reply (.dataRow row fresh)) = rows := by
  induction rows with
  | nil => rfl
  | cons row rest ih =>
    show row :: rowsOf (rest.map fun row => .reply (.dataRow row fresh)) = _
    rw [ih]

/-- The rows up to the last are sent, in one piece behind those sent before. -/
structure Client.Sends (first last : Nat) (c c' : Client E) : Prop where
  result : c'.result = c.result
  fresh : c'.fresh = c.fresh
  count : c'.session.portal.sent = last
  rows : rowsOf c'.events = rowsOf c.events ++ (c.result.rows.take last).drop first
  sent : ∀ row fresh, .reply (.dataRow row fresh) ∈ c'.events →
    .reply (.dataRow row fresh) ∈ c.events ∨ fresh = c.fresh ∧ row ∈ c.result.rows.drop first
  complete : ∀ tag, .reply (.commandComplete tag) ∈ c'.events →
    .reply (.commandComplete tag) ∈ c.events ∨ c.result.rows.length ≤ last

/-- Handing over sends the rows between two bounds. -/
theorem handOver_sends (first last : Nat) (c : Client E) :
    c.Sends first last (c.handOver first last) := by
  unfold Client.handOver
  rw [sendRows_eq]
  dsimp only
  have hrows : ∀ reply : Reply, (∀ row fresh, reply ≠ .dataRow row fresh) →
      rowsOf (c.events ++ ((c.result.rows.take last).drop first).map
        (fun row => .reply (.dataRow row c.fresh)) ++ [.reply reply]) =
        rowsOf c.events ++ (c.result.rows.take last).drop first := by
    intro reply hreply
    have hnone : rowsOf [.reply reply] = [] := by
      cases reply <;> first | rfl | exact absurd rfl (hreply _ _)
    rw [rowsOf_append, rowsOf_append, rowsOf_rows, hnone, List.append_nil]
  have hsent : ∀ (reply : Reply) (row : Row) (fresh : Bool),
      (∀ row fresh, reply ≠ .dataRow row fresh) →
      .reply (.dataRow row fresh) ∈ c.events ++ ((c.result.rows.take last).drop first).map
        (fun row => .reply (.dataRow row c.fresh)) ++ [.reply reply] →
      .reply (.dataRow row fresh) ∈ c.events ∨
        fresh = c.fresh ∧ row ∈ c.result.rows.drop first := by
    intro reply row fresh hreply hmem
    rcases List.mem_append.mp hmem with hmem | hmem
    · rcases List.mem_append.mp hmem with hmem | hmem
      · exact .inl hmem
      · obtain ⟨row', hrow', heq⟩ := List.mem_map.mp hmem
        obtain ⟨rfl, rfl⟩ : row' = row ∧ c.fresh = fresh := by simpa using heq
        rw [List.drop_take] at hrow'
        exact .inr ⟨rfl, List.mem_of_mem_take hrow'⟩
    · have heq : Reply.dataRow row fresh = reply := by simpa using hmem
      exact absurd heq.symm (hreply row fresh)
  split
  · rename_i hmore
    refine ⟨rfl, rfl, rfl, hrows _ (by simp), fun row fresh => hsent _ row fresh (by simp),
      fun tag htag => ?_⟩
    rcases List.mem_append.mp htag with htag | htag
    · rcases List.mem_append.mp htag with htag | htag
      · exact .inl htag
      · obtain ⟨row, -, heq⟩ := List.mem_map.mp htag
        exact absurd heq (by simp)
    · exact absurd htag (by simp)
  · rename_i hmore
    exact ⟨rfl, rfl, rfl, hrows _ (by simp), fun row fresh => hsent _ row fresh (by simp),
      fun _ _ => .inr (Nat.le_of_not_lt hmore)⟩

/-- An Execute of a portal that has been run, whose sum is an `int`. -/
theorem sendPortal_suspended {g : Handed} {limit : Int} (h : Suspended c g)
    (hsum : c.session.portal.sent + limit < 2 ^ 31)
    (hused : c.session.portal.used = true) (hexecuted : c.session.portal.executed = true)
    (hevents : ∀ reply : Reply, .reply reply ∉ c.events) :
    Suspended (sendPortal limit c)
        { g with handed := g.handed ++ rowsOf (sendPortal limit c).events } ∧
      (∀ row fresh, .reply (.dataRow row fresh) ∈ (sendPortal limit c).events →
        row.hasText = true → fresh = true) ∧
      (∀ tag, .reply (.commandComplete tag) ∈ (sendPortal limit c).events →
        g.handed ++ rowsOf (sendPortal limit c).events = g.produced) := by
  obtain ⟨last, hreach, hhands⟩ :=
    sendPortal_hands (Int.toNat_of_nonneg h.serving.sent).symm hsum
  rw [hhands]
  generalize hfirst : c.session.portal.sent.toNat = first at hreach ⊢
  have hsends := handOver_sends first last c
  obtain ⟨hproduced, hhanded⟩ := h.handed hused hexecuted
  rw [hfirst] at hhanded
  have hcount : (c.handOver first last).session.portal.sent.toNat = last := by
    rw [hsends.count, Int.toNat_natCast]
  have hnone : rowsOf c.events = [] := by
    refine List.filterMap_eq_nil_iff.mpr fun event hevent => ?_
    cases event with
    | run sql => rfl
    | reply reply => exact absurd hevent (hevents reply)
  have hall : g.handed ++ rowsOf (c.handOver first last).events = c.result.rows.take last := by
    rw [hhanded, hsends.rows, hnone, List.nil_append]
    rcases hreach with hreach | hreach
    · calc c.result.rows.take first ++ _
          = (c.result.rows.take last).take first ++ _ := by rw [List.take_take, min_eq_left hreach]
        _ = _ := List.take_append_drop ..
    · rw [List.take_of_length_le hreach]
      exact List.take_append_drop ..
  have hfresh : (c.result.rows.drop first).any Row.hasText = true → c.fresh = true := by
    rw [← hfirst]
    exact h.fresh hused hexecuted
  refine ⟨⟨handOver_serving h.serving, ?_, fun _ _ htext => ?_,
      fun _ _ => ⟨hproduced.trans (by rw [hsends.result]), ?_⟩⟩,
    fun row fresh hmem htext => ?_, fun tag htag => ?_⟩
  · show g.handed ++ _ <+: g.produced
    rw [hall, hproduced]
    exact List.take_prefix ..
  · rw [hsends.fresh]
    refine hfresh ?_
    rw [hsends.result, hcount] at htext
    obtain ⟨row, hrow, htext⟩ := List.any_eq_true.mp htext
    refine List.any_eq_true.mpr ⟨row, ?_, htext⟩
    rcases hreach with hreach | hreach
    · exact (List.drop_subset_drop_left _ hreach) hrow
    · rw [List.drop_of_length_le hreach] at hrow
      exact absurd hrow List.not_mem_nil
  · show g.handed ++ _ = _
    rw [hall, hsends.result, hcount]
  · rcases hsends.sent row fresh hmem with hmem | ⟨rfl, hrow⟩
    · exact absurd hmem (hevents _)
    · exact hfresh (List.any_eq_true.mpr ⟨row, hrow, htext⟩)
  · rcases hsends.complete tag htag with htag | hlength
    · exact absurd htag (hevents _)
    · rw [hall, hproduced, List.take_of_length_le hlength]

/-- Sending a shape leaves a suspended portal suspended. -/
theorem sendShape_suspended {g : Handed} (h : Suspended c g)
    (hevents : ∀ reply : Reply, .reply reply ∉ c.events) :
    Suspended (sendShape c.result c)
      { g with handed := g.handed ++ rowsOf (sendShape c.result c).events } := by
  have hnone : rowsOf (sendShape c.result c).events = [] := by
    have hbefore : rowsOf c.events = [] := by
      refine List.filterMap_eq_nil_iff.mpr fun event hevent => ?_
      cases event with
      | run sql => rfl
      | reply reply => exact absurd hevent (hevents reply)
    unfold sendShape
    split
    · exact (rowsOf_append ..).trans (by rw [hbefore]; rfl)
    · exact (rowsOf_append ..).trans (by rw [hbefore]; rfl)
  have hsame : sendShape c.result c = { c with events := (sendShape c.result c).events } := by
    unfold sendShape
    split <;> rfl
  rw [hnone, List.append_nil, hsame]
  exact ⟨⟨h.serving.sent, h.serving.lost⟩, h.front, h.fresh, h.handed⟩

/-- A message that asks for the portal. The cases are those in which a portal is run. -/
theorem asked_handed {message : Message} {name : List UInt8} {g : Handed} (hevents : c.events = [])
    (h : Suspended c g) (hportal : message.portal = some name) (hfits : SumFits c message)
    (hflag : c.session.ignoringUntilSync = false) :
    Suspended (dispatch b message c) (handedBy b c message (dispatch b message c).events g) ∧
      (message.type = 69 →
        (∀ row fresh, .reply (.dataRow row fresh) ∈ (dispatch b message c).events →
          row.hasText = true → fresh = true) ∧
        (∀ tag, .reply (.commandComplete tag) ∈ (dispatch b message c).events →
          (handedBy b c message (dispatch b message c).events g).handed =
            (handedBy b c message (dispatch b message c).events g).produced)) := by
  obtain ⟨next, hdispatch, hnext⟩ := dispatch_asks (b := b) (c := c) hportal
  have hnow : ∀ events : List WireEvent, handedBy b c message events g =
      match runsOf events with
      | [] => { g with handed := g.handed ++ rowsOf events }
      | sql :: _ =>
        match (b.process sql c.engine).answer with
        | .ok results => { produced := results.rows, handed := rowsOf events }
        | .error _ => { produced := [], handed := [] } := fun events => by
    unfold handedBy
    rw [if_neg (by rw [hportal]; simp)]
  -- what the portal's rows are handed over from, once it has been run
  have hafter : ∀ (c₁ : Client E) (g₁ : Handed), RanPortal b c (.ok ()) c₁ → Suspended c₁ g₁ →
      c₁.session.portal.used = true → c₁.session.portal.executed = true →
      (∀ reply : Reply, .reply reply ∉ c₁.events) →
      Suspended (next c₁) { g₁ with handed := g₁.handed ++ rowsOf (next c₁).events } ∧
        (message.type = 69 →
          (∀ row fresh, .reply (.dataRow row fresh) ∈ (next c₁).events →
            row.hasText = true → fresh = true) ∧
          (∀ tag, .reply (.commandComplete tag) ∈ (next c₁).events →
            g₁.handed ++ rowsOf (next c₁).events = g₁.produced)) ∧
        runsOf (next c₁).events = runsOf c₁.events := by
    intro c₁ g₁ hran h₁ hused hexecuted hreplies
    rcases hnext with ⟨htype, limit, hfields, rfl⟩ | ⟨htype, rfl⟩
    · obtain ⟨hsuspended, hfresh, hcomplete⟩ :=
        sendPortal_suspended h₁ (hran.sumFits rfl hfits hflag htype hfields) hused hexecuted hreplies
      exact ⟨hsuspended, fun _ => ⟨hfresh, hcomplete⟩, (sendPortal_follows limit c₁).runs⟩
    · exact ⟨sendShape_suspended h₁ hreplies, fun h => absurd (h.symm.trans htype) (by decide),
        (sendShape_follows _ c₁).runs⟩
  cases hran : runPortalOn b c with
  | mk answer c₁ =>
    rw [hran] at hdispatch
    have hcases := runPortalOn_cases hran
    cases hcases with
    | missing hused =>
      have hfail : dispatch b message c = c.fail .SEMANTIC_TABLE_NOT_FOUND := hdispatch
      have hsent : (dispatch b message c).events =
          [.reply (.errorResponse .SEMANTIC_TABLE_NOT_FOUND)] := by
        rw [hfail]
        show c.events ++ _ = _
        rw [hevents, List.nil_append]
      have hsame : handedBy b c message (dispatch b message c).events g = g := by
        rw [hnow, hsent]
        show ({ g with handed := g.handed ++ [] } : Handed) = g
        rw [List.append_nil]
      rw [hsame, hsent, hfail]
      exact ⟨⟨⟨h.serving.sent, h.serving.lost⟩, h.front,
        fun hu => absurd (hused.symm.trans hu) (by simp),
        fun hu => absurd (hused.symm.trans hu) (by simp)⟩,
        fun _ => ⟨fun row fresh hmem => absurd hmem (by simp), fun tag hmem => absurd hmem (by simp)⟩⟩
    | done hused hexecuted =>
      have hdone : dispatch b message c = next c := hdispatch
      obtain ⟨hsuspended, hsends, hruns⟩ :=
        hafter c g (.done hused hexecuted) h hused hexecuted fun reply => by rw [hevents]; exact List.not_mem_nil
      rw [hevents] at hruns
      rw [hdone, hnow, hruns]
      exact ⟨hsuspended, hsends⟩
    | @failed code _ hused hexecuted hprocess =>
      have hfail : dispatch b message c = c₁.fail code := hdispatch
      have hkept := processStatement_kept hprocess
      obtain ⟨hanswer, hc₁⟩ := Prod.mk.inj hprocess
      have hsent : (dispatch b message c).events =
          [.run (c.session.portal.sql.takeWhile (· ≠ 0)), .reply (.errorResponse code)] := by
        rw [hfail, ← hc₁]
        show c.events ++ _ ++ _ = _
        rw [hevents]
        rfl
      have hnone : handedBy b c message (dispatch b message c).events g =
          { produced := [], handed := [] } := by
        rw [hnow, hsent]
        show (match (b.process _ c.engine).answer with
          | .ok results => _
          | .error _ => _) = _
        rw [hanswer]
      rw [hnone, hsent]
      have hexecuted' : (dispatch b message c).session.portal.executed = false := by
        rw [hfail]
        show c₁.session.portal.executed = false
        rw [hkept.portal]
        exact hexecuted
      have hserving : (dispatch b message c).Serving := by
        have hafter := (RanPortal.failed hused hexecuted hprocess).serving h.serving
        rw [hfail]
        exact ⟨hafter.sent, hafter.lost⟩
      exact ⟨⟨hserving, List.prefix_rfl, fun _ he => absurd (hexecuted'.symm.trans he) (by simp),
        fun _ he => absurd (hexecuted'.symm.trans he) (by simp)⟩,
        fun _ => ⟨fun row fresh hmem => absurd hmem (by simp), fun tag hmem => absurd hmem (by simp)⟩⟩
    | @ran results c₂ hused hexecuted hprocess =>
      have hdone : dispatch b message c = next (c₂.executed results) := hdispatch
      have hkept := processStatement_kept hprocess
      obtain ⟨hanswer, hc₂⟩ := Prod.mk.inj hprocess
      have hevents₂ : (c₂.executed results).events =
          [.run (c.session.portal.sql.takeWhile (· ≠ 0))] := by
        rw [← hc₂]
        show c.events ++ _ = _
        rw [hevents, List.nil_append]
      have hfresh : (c₂.executed results).fresh = true := by
        unfold Client.fresh Client.executed
        simp
      obtain ⟨hsuspended, hsends, hruns⟩ :=
        hafter (c₂.executed results) { produced := results.rows, handed := [] }
          (.ran hused hexecuted hprocess)
          ⟨(RanPortal.ran hused hexecuted hprocess).serving h.serving, List.nil_prefix,
            fun _ _ _ => hfresh, fun _ _ => ⟨rfl, rfl⟩⟩
          (by show c₂.session.portal.used = true; rw [hkept.portal]; exact hused) rfl
          (fun reply => by rw [hevents₂]; simp)
      rw [hevents₂] at hruns
      have hgives : handedBy b c message (next (c₂.executed results)).events g =
          { produced := results.rows, handed := rowsOf (next (c₂.executed results)).events } := by
        rw [hnow, hruns]
        show (match (b.process _ c.engine).answer with
          | .ok results => _
          | .error _ => _) = _
        rw [hanswer]
      rw [hdone, hgives]
      exact ⟨hsuspended, hsends⟩

/-- What the portal can still be asked for, behind a message that does not ask for it. -/
theorem dispatch_portal_kept {message : Message} (hquery : message.type ≠ 81)
    (hportal : message.portal = none)
    (hused : (dispatch b message c).session.portal.used = true)
    (hexecuted : (dispatch b message c).session.portal.executed = true) :
    c.session.portal.used = true ∧ c.session.portal.executed = true ∧
      (dispatch b message c).session.portal.sent = c.session.portal.sent := by
  by_cases hbind : message.type = 66
  · rw [dispatch_bind hbind, handled_session] at hused hexecuted ⊢
    unfold handleBind failExtended at hused hexecuted ⊢
    split
    · rename_i hfields
      rw [hfields] at hused hexecuted
      exact ⟨hused, hexecuted, rfl⟩
    · rename_i hfields
      rw [hfields] at hused hexecuted
      dsimp only at hused hexecuted ⊢
      split
      · rename_i hwritten
        rw [hwritten] at hused hexecuted
        exact ⟨hused, hexecuted, rfl⟩
      · rename_i hwritten
        rw [hwritten] at hexecuted
        exact absurd hexecuted (by simp)
  · by_cases hclose : message.type = 67
    · rw [dispatch_close hclose] at hused hexecuted ⊢
      cases hfields : targetFields message.body with
      | none =>
        have hfail : handleClose message.body c = c.fail .IO_BAD_FORMAT := by
          unfold handleClose
          rw [hfields]
        rw [hfail] at hused hexecuted ⊢
        exact ⟨hused, hexecuted, rfl⟩
      | some fields =>
        have hclosed := (handleClose_target (c := c) hfields).2
        rw [hclosed] at hused hexecuted ⊢
        split at hused
        · exact absurd hused (by simp)
        · rename_i hname
          rw [if_neg hname] at hexecuted ⊢
          exact ⟨hused, hexecuted, rfl⟩
    · rw [dispatch_apart hquery hbind hclose hportal] at hused hexecuted ⊢
      exact ⟨hused, hexecuted, rfl⟩

/-- One message, by the kind that it is of. -/
theorem suspended_step {s : Client E × Handed} {message : Message} (h : Suspended s.1 s.2)
    (hkeeps : KeepsTexts b s.1 message) (hfits : SumFits s.1 message) :
    HandsOver b s message ∧ Suspended (serveHanded b s message).1 (serveHanded b s message).2 := by
  obtain ⟨c, g⟩ := s
  unfold HandsOver serveHanded
  dsimp only at h hkeeps hfits ⊢
  have hafter : (serveMessage b message c).Serving := serving_step h.serving hfits
  have hstart : Suspended { c with events := [] } g :=
    ⟨⟨h.serving.sent, h.serving.lost⟩, h.front, h.fresh, h.handed⟩
  by_cases hserved : c.session.ignoringUntilSync = false ∨ message.isSync = true ∧ c.lost = false
  · rw [serveMessage_dispatched hserved] at hafter ⊢
    have hsync : c.session.ignoringUntilSync = true → message.type = 83 := fun hflag => by
      rcases hserved with hflag' | ⟨hsync, -⟩
      · exact absurd (hflag.symm.trans hflag') (by simp)
      · simpa [Message.isSync] using hsync
    cases hportal : message.portal with
    | some name =>
      have hflag : c.session.ignoringUntilSync = false := by
        cases hcase : c.session.ignoringUntilSync with
        | false => rfl
        | true =>
          unfold Message.portal at hportal
          rw [hsync hcase] at hportal
          exact absurd hportal (by simp)
      obtain ⟨hsuspended, hsends⟩ :=
        asked_handed (b := b) (c := { c with events := [] }) rfl hstart hportal hfits hflag
      exact ⟨fun _ htype => ⟨hafter.lost, (hsends htype).1, hsuspended.front, (hsends htype).2⟩,
        hsuspended⟩
    | none =>
      have hsame : ∀ events : List WireEvent, handedBy b c message events g = g := fun events => by
        unfold handedBy
        rw [if_pos hportal]
      rw [hsame]
      constructor
      · intro _ htype
        have hfail : dispatch b message { c with events := [] } =
            ({ c with events := [] } : Client E).fail .IO_BAD_FORMAT := by
          unfold Message.portal at hportal
          rw [if_pos htype] at hportal
          unfold dispatch
          rw [htype]
          show handleExecute b message.body _ = _
          unfold handleExecute
          rw [Option.map_eq_none_iff.mp hportal]
        have hsent : (dispatch b message { c with events := [] }).events =
            [.reply (.errorResponse .IO_BAD_FORMAT)] := by
          rw [hfail]
          rfl
        rw [hsent]
        exact ⟨hafter.lost, fun row fresh hmem => absurd hmem (by simp), h.front,
          fun tag hmem => absurd hmem (by simp)⟩
      · by_cases hquery : message.type = 81
        · have hused : (dispatch b message { c with events := [] }).session.portal.used = false := by
            rw [dispatch_query hquery, (handleQuery_session _).2]
          exact ⟨hafter, h.front, fun hu => absurd (hused.symm.trans hu) (by simp),
            fun hu => absurd (hused.symm.trans hu) (by simp)⟩
        · refine hstart.of_holding hafter (dispatch_holding hquery hportal)
            (dispatch_portal_kept hquery hportal) fun hused hexecuted htext => ?_
          cases hflag : c.session.ignoringUntilSync with
          | false => exact hkeeps hflag hused hexecuted htext
          | true =>
            rw [probesOf_other (by rw [hsync hflag]; decide)]
            exact releases_nil _
  · obtain ⟨hflag, hskipped⟩ := serveMessage_else (b := b) hserved
    rw [hskipped]
    refine ⟨fun hopen => absurd (hopen.symm.trans hflag) (by simp), ?_⟩
    have hsame : handedBy b c message [] g = g := by
      unfold handedBy
      split
      · rfl
      · show ({ g with handed := g.handed ++ [] } : Handed) = g
        rw [List.append_nil]
    rw [hsame]
    exact hstart

/-! ### Whole connections -/

end

/-! ### Two connections -/

/-- An Execute for one row. -/
def executeOne (portal : List UInt8) : Message := { type := 69, body := portal ++ [0, 0, 0, 0, 1] }

/-- A Describe of a statement. -/
def describeOf (name : List UInt8) : Message := { type := 68, body := 83 :: (name ++ [0]) }

/-- A portal is suspended behind its first row, and a SELECT is described. -/
def describedBetween : List Message :=
  [parseOf (ascii "s") (ascii "select a from t"), bindOf (ascii "p") (ascii "s"),
    executeOne (ascii "p"), describeOf (ascii "s")]

end DatabaseEngine
