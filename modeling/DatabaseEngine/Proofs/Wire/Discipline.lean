import DatabaseEngine.Proofs.Wire.Effects

/-!
# `DatabaseEngine.Proofs.Wire.Discipline`: how a connection replies

* `Client.Quiet`: steps that send neither an error nor ReadyForQuery; `Client.Failed`: an error
  behind such steps.
* `dispatch_extended`: a message of the extended protocol is quiet or fails.
* `runStatements_quiet`: a Query runs its statements up to the first that fails.
* `connection_disciplined`: a connection whose sums are ints is disciplined.
* `connection_lost`: behind a sum that wraps, a Sync is not answered.
-/

set_option autoImplicit false

namespace DatabaseEngine

open Library

section
variable {E : Type} {b : Backend E} {c c' c'' : Client E}

/-! ### Steps of a handler -/

/-- Neither an error nor ReadyForQuery. -/
def WireEvent.Plain (event : WireEvent) : Prop := event.isError = false ∧ event.isReady = false

/-- What was done added plain events only and left the flag. -/
def Client.Quiet (c c' : Client E) : Prop :=
  ∃ added : List WireEvent, c'.events = c.events ++ added ∧ (∀ event ∈ added, event.Plain) ∧
    c'.session.ignoringUntilSync = c.session.ignoringUntilSync

/-- What was done ended in one error and set the flag. -/
def Client.Failed (c c' : Client E) : Prop :=
  ∃ (added : List WireEvent) (code : ErrorCode),
    c'.events = c.events ++ (added ++ [.reply (.errorResponse code)]) ∧
      (∀ event ∈ added, event.Plain) ∧ c'.session.ignoringUntilSync = true

/-- Doing nothing is quiet. -/
theorem Client.Quiet.refl (c : Client E) : c.Quiet c := ⟨[], by simp, by simp, rfl⟩

/-- Two quiet steps are quiet. -/
theorem Client.Quiet.trans (h : c.Quiet c') (h' : c'.Quiet c'') : c.Quiet c'' := by
  obtain ⟨added, hevents, hplain, hflag⟩ := h
  obtain ⟨added', hevents', hplain', hflag'⟩ := h'
  refine ⟨added ++ added', by rw [hevents', hevents, List.append_assoc], ?_, hflag'.trans hflag⟩
  intro event hevent
  exact (List.mem_append.mp hevent).elim (hplain event) (hplain' event)

/-- What is neither sent nor flagged does not matter. -/
theorem Client.Quiet.congr (h : c.Quiet c') (hevents : c''.events = c'.events)
    (hflag : c''.session.ignoringUntilSync = c'.session.ignoringUntilSync) : c.Quiet c'' := by
  obtain ⟨added, hadded, hplain, hsame⟩ := h
  exact ⟨added, hevents.trans hadded, hplain, hflag.trans hsame⟩

/-- A quiet step before a failure is a failure. -/
theorem Client.Quiet.failed (h : c.Quiet c') (h' : c'.Failed c'') : c.Failed c'' := by
  obtain ⟨added, hevents, hplain, -⟩ := h
  obtain ⟨added', code, hevents', hplain', hflag⟩ := h'
  refine ⟨added ++ added', code, by rw [hevents', hevents]; simp, ?_, hflag⟩
  intro event hevent
  exact (List.mem_append.mp hevent).elim (hplain event) (hplain' event)

/-- A quiet step before one that is quiet or fails. -/
theorem Client.Quiet.then (h : c.Quiet c') (h' : c'.Quiet c'' ∨ c'.Failed c'') :
    c.Quiet c'' ∨ c.Failed c'' :=
  h'.imp h.trans h.failed

/-- Sending a reply that ends nothing is quiet. -/
theorem send_quiet {reply : Reply} (h : (WireEvent.reply reply).Plain) : c.Quiet (c.send reply) :=
  ⟨[.reply reply], rfl, fun event hevent => by rw [List.mem_singleton.mp hevent]; exact h, rfl⟩

/-- Failing sends one error and ignores what follows. -/
theorem fail_failed (code : ErrorCode) : c.Failed (c.fail code) :=
  ⟨[], code, rfl, by simp, rfl⟩

/-- Running a statement is quiet. -/
theorem processStatement_quiet {sql : List UInt8} {answer : Except ErrorCode Results}
    (h : b.processStatement sql c = (answer, c')) : c.Quiet c' := by
  obtain ⟨-, rfl⟩ := Prod.mk.inj h
  exact ⟨[.run sql], rfl, fun event hevent => by
    rw [List.mem_singleton.mp hevent]
    exact ⟨rfl, rfl⟩, rfl⟩

/-- Sending rows is quiet. -/
theorem sendRows_quiet (fresh : Bool) (rows : List Row) (c : Client E) :
    c.Quiet (sendRows fresh rows c) := by
  induction rows generalizing c with
  | nil => exact .refl c
  | cons row rest ih => exact (@send_quiet _ _ (.dataRow row fresh) ⟨rfl, rfl⟩).trans (ih _)

/-- Sending a result is quiet. -/
theorem sendResult_quiet (sql : List UInt8) (results : Results) :
    c.Quiet (sendResult sql results c) := by
  have htag : ∀ c : Client E, c.Quiet (c.send (.commandComplete (commandTag sql results))) :=
    fun c => send_quiet ⟨rfl, rfl⟩
  unfold sendResult
  split
  · exact ((@send_quiet _ _ (.rowDescription results.headers results.types) ⟨rfl, rfl⟩).trans
      (sendRows_quiet ..)).trans (htag _)
  · exact htag c

/-! ### The extended protocol -/

/-- A handler's reply is quiet, its error a failure. -/
theorem handled_quiet {reply : Reply} (hreply : (WireEvent.reply reply).Plain)
    {result : Except ErrorCode Unit × WireSession}
    (hok : ∀ session, result = (.ok (), session) →
      session.ignoringUntilSync = c.session.ignoringUntilSync)
    (herror : ∀ code session, result = (.error code, session) →
      session.ignoringUntilSync = true) :
    c.Quiet (c.handled reply result) ∨ c.Failed (c.handled reply result) := by
  obtain ⟨answer, session⟩ := result
  cases answer with
  | ok u =>
    exact .inl ⟨[.reply reply], rfl, fun event hevent => by
      rw [List.mem_singleton.mp hevent]
      exact hreply, hok session rfl⟩
  | error code => exact .inr ⟨[], code, rfl, by simp, herror code session rfl⟩

/-- Parse is quiet or fails. -/
theorem handleParse_quiet (body : List UInt8) :
    c.Quiet (c.handled .parseComplete (handleParse body c.session)) ∨
      c.Failed (c.handled .parseComplete (handleParse body c.session)) := by
  refine handled_quiet ⟨rfl, rfl⟩ (fun session h => ?_) fun code session h => ?_
  · unfold handleParse failExtended at h
    split at h
    · simp at h
    · split at h
      · simp at h
      · dsimp only at h
        split at h
        · exact (congrArg WireSession.ignoringUntilSync (Prod.mk.inj h).2).symm
        · simp at h
  · unfold handleParse failExtended at h
    split at h
    · exact (congrArg WireSession.ignoringUntilSync (Prod.mk.inj h).2).symm
    · split at h
      · exact (congrArg WireSession.ignoringUntilSync (Prod.mk.inj h).2).symm
      · dsimp only at h
        split at h
        · simp at h
        · exact (congrArg WireSession.ignoringUntilSync (Prod.mk.inj h).2).symm

/-- Bind is quiet or fails. -/
theorem handleBind_quiet (body : List UInt8) :
    c.Quiet (c.handled .bindComplete (handleBind body c.session)) ∨
      c.Failed (c.handled .bindComplete (handleBind body c.session)) := by
  refine handled_quiet ⟨rfl, rfl⟩ (fun session h => ?_) fun code session h => ?_
  · unfold handleBind failExtended at h
    split at h
    · simp at h
    · dsimp only at h
      split at h
      · simp at h
      · exact (congrArg WireSession.ignoringUntilSync (Prod.mk.inj h).2).symm
  · unfold handleBind failExtended at h
    split at h
    · exact (congrArg WireSession.ignoringUntilSync (Prod.mk.inj h).2).symm
    · dsimp only at h
      split at h
      · exact (congrArg WireSession.ignoringUntilSync (Prod.mk.inj h).2).symm
      · simp at h

/-- Running the portal is quiet. -/
theorem runPortalOn_quiet {answer : Except ErrorCode Unit} (h : runPortalOn b c = (answer, c')) :
    c.Quiet c' := by
  unfold runPortalOn at h
  split at h
  · obtain ⟨-, rfl⟩ := Prod.mk.inj h
    exact .refl c
  · obtain ⟨-, rfl⟩ := Prod.mk.inj h
    exact .refl c
  · split at h
    · rename_i hran
      obtain ⟨-, rfl⟩ := Prod.mk.inj h
      exact processStatement_quiet hran
    · rename_i hran
      obtain ⟨-, rfl⟩ := Prod.mk.inj h
      exact (processStatement_quiet hran).congr rfl rfl

/-- Sending a shape is quiet. -/
theorem sendShape_quiet (results : Results) : c.Quiet (sendShape results c) := by
  unfold sendShape
  split
  · exact send_quiet ⟨rfl, rfl⟩
  · exact send_quiet ⟨rfl, rfl⟩

/-- Probing a statement is quiet. -/
theorem probeStatement_quiet {statement : Prepared} {n attempt : Nat} {code : ErrorCode}
    {answer : Except ErrorCode Results}
    (h : probeStatement b statement n attempt code c = (answer, c')) : c.Quiet c' := by
  induction n generalizing attempt code c with
  | zero =>
    obtain ⟨-, rfl⟩ := Prod.mk.inj h
    exact .refl c
  | succ n ih =>
    unfold probeStatement at h
    dsimp only at h
    split at h
    · obtain ⟨-, rfl⟩ := Prod.mk.inj h
      exact .refl c
    · split at h
      · rename_i hran
        obtain ⟨-, rfl⟩ := Prod.mk.inj h
        exact processStatement_quiet hran
      · rename_i hran
        exact (processStatement_quiet hran).trans (ih h)

/-- Describing a statement is quiet or fails. -/
theorem describeStatement_quiet (statement : Prepared) :
    c.Quiet (describeStatement b statement c) ∨ c.Failed (describeStatement b statement c) := by
  have hfirst : c.Quiet (c.send (.parameterDescription statement.params)) := send_quiet ⟨rfl, rfl⟩
  unfold describeStatement
  dsimp only
  split
  · exact hfirst.then (.inl (send_quiet ⟨rfl, rfl⟩))
  · split
    · rename_i hprobe
      exact (hfirst.trans (probeStatement_quiet hprobe)).then (.inr (fail_failed _))
    · rename_i hprobe
      exact (hfirst.trans (probeStatement_quiet hprobe)).then (.inl (sendShape_quiet _))

/-- Describe is quiet or fails. -/
theorem handleDescribe_quiet (body : List UInt8) :
    c.Quiet (handleDescribe b body c) ∨ c.Failed (handleDescribe b body c) := by
  unfold handleDescribe
  split
  · exact .inr (fail_failed _)
  · split
    · split
      · exact .inr (fail_failed _)
      · exact describeStatement_quiet _
    · split
      · rename_i hportal
        exact (runPortalOn_quiet hportal).then (.inr (fail_failed _))
      · rename_i hportal
        exact (runPortalOn_quiet hportal).then (.inl (sendShape_quiet _))

/-- Handing over rows is quiet. -/
theorem handOver_quiet (first last : Nat) : c.Quiet (c.handOver first last) := by
  unfold Client.handOver
  dsimp only
  have hrows := sendRows_quiet c.fresh ((c.result.rows.take last).drop first) c
  split
  · exact (hrows.congr rfl rfl).trans (send_quiet ⟨rfl, rfl⟩)
  · exact (hrows.congr rfl rfl).trans (send_quiet ⟨rfl, rfl⟩)

/-- An Execute whose sum is an `int`. -/
theorem handleExecute_quiet {message : Message} (hserving : c.Serving) (hfits : SumFits c message)
    (hflag : c.session.ignoringUntilSync = false) (htype : message.type = 69) :
    c.Quiet (handleExecute b message.body c) ∨ c.Failed (handleExecute b message.body c) := by
  unfold handleExecute
  split
  · exact .inr (fail_failed _)
  · rename_i name limit hfields
    split
    · rename_i hportal
      exact (runPortalOn_quiet hportal).then (.inr (fail_failed _))
    · rename_i next hportal
      have hran := runPortalOn_cases hportal
      have hnonneg := (hran.serving hserving).sent
      obtain ⟨last, -, hhands⟩ := sendPortal_hands (Int.toNat_of_nonneg hnonneg).symm
        (hran.sumFits rfl hfits hflag htype hfields)
      rw [hhands]
      exact (runPortalOn_quiet hportal).then (.inl (handOver_quiet ..))

/-- Close is quiet or fails. -/
theorem handleClose_quiet (body : List UInt8) :
    c.Quiet (handleClose body c) ∨ c.Failed (handleClose body c) := by
  unfold handleClose
  split
  · exact .inr (fail_failed _)
  · refine .inl ⟨[.reply .closeComplete], rfl, fun event hevent => ?_, ?_⟩
    · rw [List.mem_singleton.mp hevent]
      exact ⟨rfl, rfl⟩
    · show WireSession.ignoringUntilSync (if _ then _ else _) = _
      split
      · split <;> rfl
      · split <;> rfl

/-- A message that is neither Query nor Sync. -/
theorem dispatch_extended {message : Message} (hserving : c.Serving) (hfits : SumFits c message)
    (hflag : c.session.ignoringUntilSync = false) (hquery : message.isQuery = false)
    (hsync : message.isSync = false) :
    c.Quiet (dispatch b message c) ∨ c.Failed (dispatch b message c) := by
  have hq : message.type ≠ 81 := by simpa [Message.isQuery] using hquery
  have hs : message.type ≠ 83 := by simpa [Message.isSync] using hsync
  unfold dispatch
  rw [if_neg hq, if_neg hs]
  split
  · exact handleParse_quiet _
  · split
    · exact handleBind_quiet _
    · split
      · exact handleDescribe_quiet _
      · split
        · rename_i htype
          exact handleExecute_quiet hserving hfits hflag htype
        · split
          · exact handleClose_quiet _
          · split
            · exact .inl (.refl c)
            · exact .inr (fail_failed _)

/-! ### The simple query -/

/-- The statements of a Query: none fails, or the last that is run does. -/
theorem runStatements_quiet {statements : List (List UInt8)} {failed : Bool}
    (h : runStatements b statements c = (failed, c')) :
    ∃ added : List WireEvent, c'.events = c.events ++ added ∧
      c'.session.ignoringUntilSync = c.session.ignoringUntilSync ∧
      if failed then ∃ front code, added = front ++ [.reply (.errorResponse code)] ∧
        ∀ event ∈ front, event.Plain
      else ∀ event ∈ added, event.Plain := by
  induction statements generalizing c with
  | nil =>
    obtain ⟨rfl, rfl⟩ := Prod.mk.inj h
    exact ⟨[], by simp, rfl, by simp⟩
  | cons sql rest ih =>
    unfold runStatements at h
    split at h
    · rename_i code next hran
      obtain ⟨rfl, rfl⟩ := Prod.mk.inj h
      obtain ⟨added, hevents, hplain, hflag⟩ := processStatement_quiet hran
      refine ⟨added ++ [.reply (.errorResponse code)], ?_, hflag, added, code, rfl, hplain⟩
      show next.events ++ _ = _
      rw [hevents, List.append_assoc]
    · rename_i results next hran
      obtain ⟨added, hevents, hplain, hflag⟩ :=
        (processStatement_quiet hran).trans (sendResult_quiet sql results)
      obtain ⟨added', hevents', hflag', hrest⟩ := ih h
      refine ⟨added ++ added', by rw [hevents', hevents, List.append_assoc], hflag'.trans hflag, ?_⟩
      cases failed with
      | true =>
        obtain ⟨front, code, rfl, hfront⟩ := hrest
        refine ⟨added ++ front, code, by rw [List.append_assoc], fun event hevent => ?_⟩
        exact (List.mem_append.mp hevent).elim (hplain event) (hfront event)
      | false =>
        intro event hevent
        exact (List.mem_append.mp hevent).elim (hplain event) (hrest event)

/-- A Query: statements, at most one error behind them, and ReadyForQuery. -/
theorem handleQuery_events (sql : List UInt8) :
    ∃ (front error : List WireEvent) (status : Bool),
      (handleQuery b sql c).events =
          c.events ++ (front ++ error ++ [.reply (.readyForQuery status)]) ∧
        (∀ event ∈ front, event.Plain) ∧
        (error = [] ∨ ∃ code, error = [.reply (.errorResponse code)]) ∧
        (handleQuery b sql c).session.ignoringUntilSync = c.session.ignoringUntilSync := by
  unfold handleQuery
  dsimp only
  generalize hstart : ({ c with
    session :=
      { c.session with portal := { c.session.portal with used := false, executed := false } } } :
    Client E) = start
  have hsame : start.events = c.events ∧
      start.session.ignoringUntilSync = c.session.ignoringUntilSync := by
    rw [← hstart]
    exact ⟨rfl, rfl⟩
  cases hrun : runStatements b (runQuery sql).1 start with
  | mk failed next =>
    obtain ⟨added, hevents, hflag, hadded⟩ := runStatements_quiet hrun
    rw [hsame.1] at hevents
    rw [hsame.2] at hflag
    cases failed with
    | true =>
      obtain ⟨front, code, rfl, hfront⟩ := hadded
      refine ⟨front, [.reply (.errorResponse code)], b.inTransaction next.engine, ?_, hfront,
        .inr ⟨code, rfl⟩, hflag⟩
      show next.events ++ [.reply (.readyForQuery (b.inTransaction next.engine))] = _
      rw [hevents, List.append_assoc]
    | false =>
      cases (runQuery sql).2 with
      | true =>
        refine ⟨added, [.reply (.errorResponse .TOO_MANY_TOKENS)], b.inTransaction next.engine, ?_,
          hadded, .inr ⟨_, rfl⟩, hflag⟩
        show (next.events ++ [.reply (.errorResponse .TOO_MANY_TOKENS)]) ++
          [.reply (.readyForQuery (b.inTransaction next.engine))] = _
        rw [hevents, List.append_assoc, List.append_assoc, List.append_assoc]
      | false =>
        refine ⟨added, [], b.inTransaction next.engine, ?_, hadded, .inl rfl, hflag⟩
        show next.events ++ [.reply (.readyForQuery (b.inTransaction next.engine))] = _
        rw [hevents, List.append_assoc, List.append_nil]

/-! ### Whole connections -/

/-- Among replies that end nothing there is no error. -/
theorem any_isError_plain {events : List WireEvent} (h : ∀ event ∈ events, event.Plain) :
    events.any WireEvent.isError = false :=
  List.any_eq_false.mpr fun event hevent => by rw [(h event hevent).1]; exact Bool.false_ne_true

/-- What surrounds the error, where there is at most one between `front` and `last`. -/
theorem error_between {front error last : List WireEvent}
    (hfront : ∀ event ∈ front, event.Plain)
    (herror : error = [] ∨ ∃ code, error = [.reply (.errorResponse code)])
    (hlast : ∀ event ∈ last, event.isError = false ∧ event.isRun = false)
    {before rest : List WireEvent} {event : WireEvent}
    (h : front ++ error ++ last = before ++ event :: rest) (hevent : event.isError = true) :
    (∀ other ∈ before, other.isError = false) ∧ rest = last := by
  have hout : event ∉ last := fun hmem => by
    rw [(hlast event hmem).1] at hevent
    exact Bool.false_ne_true hevent
  induction front generalizing before with
  | nil =>
    rw [List.nil_append] at h
    rcases herror with rfl | ⟨code, rfl⟩
    · have hlast : last = before ++ event :: rest := h
      exact absurd (hlast ▸ List.mem_append_right before (List.mem_cons_self ..)) hout
    · cases before with
      | nil => exact ⟨by simp, (List.cons.inj h).2.symm⟩
      | cons x before =>
        have htail : last = before ++ event :: rest := (List.cons.inj h).2
        exact absurd (htail ▸ List.mem_append_right before (List.mem_cons_self ..)) hout
  | cons x front ih =>
    have hx : x.Plain := hfront x (List.mem_cons_self ..)
    cases before with
    | nil =>
      rw [← (List.cons.inj h).1, hx.1] at hevent
      exact absurd hevent Bool.false_ne_true
    | cons y before =>
      obtain ⟨rfl, htail⟩ := List.cons.inj h
      obtain ⟨hbefore, hrest⟩ := ih (fun e he => hfront e (List.mem_cons_of_mem _ he)) htail
      refine ⟨fun other hother => ?_, hrest⟩
      rcases List.mem_cons.mp hother with rfl | hother
      · exact hx.1
      · exact hbefore other hother

/-- A message of the extended protocol, and the flag behind it. -/
theorem dispatch_answered {message : Message} (hserving : c.Serving) (hfits : SumFits c message)
    (hquery : message.isQuery = false) (hsync : message.isSync = false) (hevents : c.events = [])
    (hflag : c.session.ignoringUntilSync = false) :
    message.Answered (dispatch b message c).events ∧
      (dispatch b message c).session.ignoringUntilSync =
        (dispatch b message c).events.any WireEvent.isError := by
  have hsent : ∃ added error : List WireEvent,
      (dispatch b message c).events = added ++ error ∧ (∀ event ∈ added, event.Plain) ∧
        (error = [] ∨ ∃ code, error = [.reply (.errorResponse code)]) ∧
        (dispatch b message c).session.ignoringUntilSync = error.any WireEvent.isError := by
    rcases dispatch_extended (b := b) hserving hfits hflag hquery hsync with
      ⟨added, hadded, hplain, hsame⟩ | ⟨added, code, hadded, hplain, hset⟩
    · exact ⟨added, [], by rw [hadded, hevents]; simp, hplain, .inl rfl, hsame.trans hflag⟩
    · exact ⟨added, [_], by rw [hadded, hevents]; simp, hplain, .inr ⟨code, rfl⟩, hset⟩
  obtain ⟨added, error, hadded, hplain, herror, hset⟩ := hsent
  rw [hadded, hset, List.any_append, any_isError_plain hplain, Bool.false_or]
  refine ⟨⟨?_, ?_, ?_, ?_⟩, rfl⟩
  · rintro (h | h)
    · exact absurd (hquery.symm.trans h) Bool.false_ne_true
    · exact absurd (hsync.symm.trans h) Bool.false_ne_true
  · intro _ _ event hevent
    rcases List.mem_append.mp hevent with hevent | hevent
    · exact (hplain event hevent).2
    · rcases herror with rfl | ⟨code, rfl⟩
      · exact absurd hevent (List.not_mem_nil)
      · rw [List.mem_singleton.mp hevent]
        rfl
  · intro before event rest hsplit hevent
    obtain ⟨hbefore, rfl⟩ :=
      @error_between _ _ [] hplain herror (by simp) _ _ _ (by rw [List.append_nil, hsplit]) hevent
    exact ⟨hbefore, by simp, fun _ => rfl⟩
  · intro h
    exact absurd (hsync.symm.trans h) Bool.false_ne_true

/-- A query is answered and leaves the flag as it was. -/
theorem query_answered {message : Message} (hquery : message.isQuery = true)
    (hevents : c.events = []) :
    message.Answered (dispatch b message c).events ∧
      (dispatch b message c).session.ignoringUntilSync = c.session.ignoringUntilSync := by
  have htype : message.type = 81 := by simpa [Message.isQuery] using hquery
  have hsync : message.isSync = false := by
    unfold Message.isSync
    rw [htype]
    rfl
  unfold dispatch
  rw [if_pos htype]
  obtain ⟨front, error, status, hadded, hplain, herror, hsame⟩ :=
    handleQuery_events (b := b) (c := c) (message.body.takeWhile (· ≠ 0))
  rw [hevents, List.nil_append] at hadded
  rw [hadded]
  refine ⟨⟨?_, ?_, ?_, ?_⟩, hsame⟩
  · refine fun _ => ⟨front ++ error, status, rfl, fun event hevent => ?_⟩
    rcases List.mem_append.mp hevent with hevent | hevent
    · exact (hplain event hevent).2
    · rcases herror with rfl | ⟨code, rfl⟩
      · exact absurd hevent (List.not_mem_nil)
      · rw [List.mem_singleton.mp hevent]
        rfl
  · intro h
    exact absurd (h.symm.trans hquery) Bool.false_ne_true
  · intro before event rest hsplit hevent
    have hlast : ∀ other ∈ [WireEvent.reply (.readyForQuery status)],
        other.isError = false ∧ other.isRun = false := fun other hother => by
      rw [List.mem_singleton.mp hother]
      exact ⟨rfl, rfl⟩
    obtain ⟨hbefore, rfl⟩ := error_between hplain herror hlast hsplit hevent
    exact ⟨hbefore, hlast, fun h => absurd (h.symm.trans hquery) Bool.false_ne_true⟩
  · intro h
    exact absurd (hsync.symm.trans h) Bool.false_ne_true

/-- Sync is answered with ReadyForQuery alone, and ends the skipping. -/
theorem sync_answered {message : Message} (hsync : message.isSync = true)
    (hevents : c.events = []) :
    message.Answered (dispatch b message c).events ∧
      (dispatch b message c).session.ignoringUntilSync = false := by
  have htype : message.type = 83 := by simpa [Message.isSync] using hsync
  have hrun : dispatch b message c =
      sendReadyForQuery b { c with session := { c.session with ignoringUntilSync := false } } := by
    unfold dispatch
    rw [htype]
    rfl
  have hsent : (dispatch b message c).events =
      [.reply (.readyForQuery (b.inTransaction c.engine))] := by
    rw [hrun]
    show c.events ++ _ = _
    rw [hevents, List.nil_append]
  refine ⟨?_, by rw [hrun]; rfl⟩
  rw [hsent]
  refine ⟨fun _ => ⟨[], _, rfl, by simp⟩, fun _ h => ?_, ?_, fun _ => ⟨_, rfl⟩⟩
  · exact absurd (h.symm.trans hsync) Bool.false_ne_true
  · intro before event rest hsplit hevent
    have hmem : event ∈ [WireEvent.reply (.readyForQuery (b.inTransaction c.engine))] :=
      hsplit ▸ List.mem_append_right before (List.mem_cons_self ..)
    rw [List.mem_singleton.mp hmem] at hevent
    exact absurd hevent Bool.false_ne_true

/-- What is skipped leaves the connection as it is. -/
theorem serveMessage_skipped {message : Message} (hflag : c.session.ignoringUntilSync = true)
    (hskips : message.isSync = false ∨ c.lost = true) :
    serveMessage b message c = { c with events := [] } := by
  unfold serveMessage
  dsimp only
  rw [hflag]
  refine if_pos ?_
  rcases hskips with hsync | hlost
  · rw [bne, show (message.type == 83) = false from hsync, Bool.not_false, Bool.or_true]
    rfl
  · rw [hlost]
    rfl

/-- A message that is not ignored is dispatched. -/
theorem serveMessage_dispatched {message : Message}
    (h : c.session.ignoringUntilSync = false ∨ message.isSync = true ∧ c.lost = false) :
    serveMessage b message c = dispatch b message { c with events := [] } := by
  unfold serveMessage
  dsimp only
  rcases h with hflag | ⟨hsync, hlost⟩
  · rw [hflag]
    rfl
  · rw [bne, show (message.type == 83) = true from hsync, hlost, Bool.not_true, Bool.or_false,
      Bool.and_false]
    rfl

/-- What is not served is skipped. -/
theorem serveMessage_else {message : Message}
    (h : ¬ (c.session.ignoringUntilSync = false ∨ message.isSync = true ∧ c.lost = false)) :
    c.session.ignoringUntilSync = true ∧ serveMessage b message c = { c with events := [] } := by
  obtain ⟨hflag, hskips⟩ := not_or.mp h
  have hflag : c.session.ignoringUntilSync = true := by simpa using hflag
  refine ⟨hflag, serveMessage_skipped hflag ?_⟩
  cases hsync : message.isSync with
  | false => exact .inl rfl
  | true => exact .inr (by simpa [hsync] using hskips)

/-- A connection that serves goes on serving while no sum overflows. -/
theorem serving_step {message : Message} (hserving : c.Serving) (hfits : SumFits c message) :
    (serveMessage b message c).Serving := by
  by_cases hserved : c.session.ignoringUntilSync = false ∨ message.isSync = true ∧ c.lost = false
  · rw [serveMessage_dispatched hserved]
    exact dispatch_serving (c := { c with events := [] }) ⟨hserving.sent, hserving.lost⟩ hfits
      (hserved.imp_right fun h => by simpa [Message.isSync] using h.1)
  · rw [(serveMessage_else hserved).2]
    exact ⟨hserving.sent, hserving.lost⟩

/-- The messages of a connection up to Terminate. -/
def served (messages : List Message) : List Message := messages.takeWhile fun m => m.type ≠ 88

/-- A message that does not terminate is served before the rest. -/
theorem served_cons {message : Message} (h : message.type ≠ 88) (rest : List Message) :
    served (message :: rest) = message :: served rest :=
  List.takeWhile_cons_of_pos (by simpa using h)

/-- A connection, one message further. -/
def serveNext (b : Backend E) (c : Client E) (message : Message) : Client E :=
  serveMessage b message c

/-- The induction is on the messages; what is carried is the flag of the session, and that no row in
front of a result is the next. -/
theorem transcript_disciplined {messages : List Message} {c : Client E} (hserving : c.Serving)
    (hfits : StepsMeet (serveNext b) SumFits c (served messages)) :
    Disciplined c.session.ignoringUntilSync (transcript b messages c) := by
  induction messages generalizing c with
  | nil => unfold transcript Disciplined; trivial
  | cons message rest ih =>
    unfold transcript
    split
    · unfold Disciplined; trivial
    · rename_i hopen
      rw [served_cons hopen] at hfits
      have hstart : ({ c with events := [] } : Client E).Serving := ⟨hserving.sent, hserving.lost⟩
      have hrest := ih (serving_step (b := b) hserving hfits.1) hfits.2
      cases hflag : c.session.ignoringUntilSync with
      | true =>
        unfold Disciplined
        cases hsync : message.isSync with
        | true =>
          obtain ⟨hanswered, hended⟩ :=
            sync_answered (b := b) (c := { c with events := [] }) hsync rfl
          rw [serveMessage_dispatched (.inr ⟨hsync, hserving.lost⟩)] at hrest ⊢
          rw [hended] at hrest
          exact ⟨hanswered, hrest⟩
        | false =>
          rw [serveMessage_skipped hflag (.inl hsync)] at hrest ⊢
          have hsame : ({ c with events := [] } : Client E).session.ignoringUntilSync = true := hflag
          rw [hsame] at hrest
          exact ⟨rfl, hrest⟩
      | false =>
        unfold Disciplined
        rw [serveMessage_dispatched (.inl hflag)] at hrest ⊢
        cases hquery : message.isQuery with
        | true =>
          obtain ⟨hanswered, hsame⟩ :=
            query_answered (b := b) (c := { c with events := [] }) hquery rfl
          rw [hsame.trans hflag] at hrest
          exact ⟨hanswered, hrest⟩
        | false =>
          cases hsync : message.isSync with
          | true =>
            obtain ⟨hanswered, hended⟩ :=
              sync_answered (b := b) (c := { c with events := [] }) hsync rfl
            obtain ⟨status, hsent⟩ := hanswered.sync hsync
            rw [hended] at hrest
            refine ⟨hanswered, ?_⟩
            rw [hsent]
            exact hrest
          | false =>
            obtain ⟨hanswered, hset⟩ :=
              dispatch_answered (b := b) hstart hfits.1 hquery hsync rfl hflag
            rw [hset] at hrest
            exact ⟨hanswered, hrest⟩

end

/-- A Sync among them is answered. -/
theorem Disciplined.answers {skipping : Bool} {sent : List (Message × List WireEvent)}
    (h : Disciplined skipping sent) {entry : Message × List WireEvent} (hmem : entry ∈ sent)
    (hsync : entry.1.isSync = true) : entry.2 ≠ [] := by
  induction sent generalizing skipping with
  | nil => exact absurd hmem List.not_mem_nil
  | cons first rest ih =>
    have hanswered : first.1.Answered first.2 → entry = first → entry.2 ≠ [] := by
      rintro hanswers rfl
      obtain ⟨status, hready⟩ := hanswers.sync hsync
      rw [hready]
      exact List.cons_ne_nil _ _
    cases skipping with
    | false =>
      unfold Disciplined at h
      exact (List.mem_cons.mp hmem).elim (hanswered h.1) fun hlater => ih h.2 hlater
    | true =>
      unfold Disciplined at h
      split at h
      · exact (List.mem_cons.mp hmem).elim (hanswered h.1) fun hlater => ih h.2 hlater
      · rename_i hother
        refine (List.mem_cons.mp hmem).elim (fun heq => ?_) fun hlater => ih h.2 hlater
        rw [heq] at hsync
        exact absurd hsync hother

/-- A connection replies as a client may expect, as long as no Execute asks for more rows than an
`int` counts with those that were sent. -/
theorem connection_disciplined {E : Type} (b : Backend E) (messages : List Message) (engine : E)
    (h : StepsMeet (serveNext b) SumFits (newClient engine) (served messages)) :
    Disciplined false (transcript b messages (newClient engine)) :=
  transcript_disciplined ⟨Int.le_refl 0, rfl⟩ h

/-- An engine that answers every statement with two rows of a text. -/
def twoRows : Backend Unit where
  process _ _ :=
    { answer := .ok
        { headers := [Name.ofBytes (ascii "a")], types := [.TYPE_TEXT]
          rows := [[setText (ascii "x")], [setText (ascii "y")]], rowsAffected := 0
          arena := .statementArena }
      groupings := 0, engine := () }
  inTransaction _ := false

/-- A statement and its portal, without names. -/
def twoRowsBound : List Message :=
  [{ type := 80, body := 0 :: (ascii "select a from t" ++ [0, 0, 0]) },
    { type := 66, body := [0, 0, 0, 0, 0, 0, 0, 0] }]

/-- An Execute of the portal without a name, for as many rows as four bytes say. -/
def executeFor (limit : List UInt8) : Message := { type := 69, body := 0 :: limit }

/-- Two Executes of one row each. -/
theorem connection_disciplined_rows :
    Disciplined false (transcript twoRows
      (twoRowsBound ++ [executeFor [0, 0, 0, 1], executeFor [0, 0, 0, 1], { type := 83, body := [] }])
      (newClient ())) :=
  connection_disciplined twoRows _ () (by decide +kernel)

/-- Behind an Execute of one row, one that asks for 2147483647 makes the sum wrap, and the next
reads in front of the rows. -/
theorem connection_lost :
    ¬ Disciplined false (transcript twoRows
      (twoRowsBound ++ [executeFor [0, 0, 0, 1], executeFor [127, 255, 255, 255],
        executeFor [0, 0, 0, 0], { type := 83, body := [] }]) (newClient ())) := by
  intro h
  have hunanswered : (transcript twoRows
      (twoRowsBound ++ [executeFor [0, 0, 0, 1], executeFor [127, 255, 255, 255],
        executeFor [0, 0, 0, 0], { type := 83, body := [] }]) (newClient ())).any
          (fun entry => entry.1.isSync && entry.2.isEmpty) = true := by
    decide +kernel
  obtain ⟨entry, hmem, hentry⟩ := List.any_eq_true.mp hunanswered
  rw [Bool.and_eq_true, List.isEmpty_iff] at hentry
  exact h.answers hmem hentry.1 hentry.2

end DatabaseEngine
