import DatabaseEngine.Proofs.Wire.Discipline
import DatabaseEngine.Proofs.Wire.Effects
import DatabaseEngine.Proofs.Wire.Extended
import DatabaseEngine.Proofs.Wire.Substitution

/-!
# `DatabaseEngine.Proofs.Wire.Portal`: what a portal runs

A session has one portal, whatever the messages call it. `Bound` is what a client may take it for:
the name and the text of the last Bind that succeeded, up to the Close, the Query or the Bind that
destroys it.

* `RunsBound`: an Execute or a Describe of a portal hands the bound text to the engine, once.
* `KeepsBound`: the messages for which this holds.
* `portal_runs_bound`: if every message of a connection is one of these, its portals run what was
  bound to them.
* `portal_runs_mixed`: a Bind that fails makes a text executable that nobody has bound.
-/

set_option autoImplicit false

namespace DatabaseEngine

open Library

/-! ### What was bound -/

/-- What a Bind has bound. -/
structure Bound where
  name : List UInt8
  /-- The text of the statement with its parameters filled in. -/
  text : List UInt8
  /-- Whether it has been handed to the engine. -/
  ran : Bool
  deriving DecidableEq

/-- What is bound behind a message, from what it says and from what it has led to. -/
def boundBy (session : WireSession) (message : Message) (events : List WireEvent)
    (bound : Option Bound) : Option Bound :=
  if message.type = 66 then
    if .reply .bindComplete ∈ events then
      match bindFields message.body session with
      | .error _ => bound
      | .ok (name, statement, values) =>
        (filled statement.types values false statement.sql).map fun text =>
          { name := name, text := text, ran := false }
    else bound
  else if message.type = 81 then if events = [] then bound else none
  else if message.type = 67 then
    match targetFields message.body with
    | some (what, name) =>
      if .reply .closeComplete ∈ events ∧ what ≠ 83 then bound.filter fun p => p.name ≠ name
      else bound
    | none => bound
  else if message.portal = none then bound
  else bound.map fun p => { p with ran := p.ran || runsOf events ≠ [] }

section
variable {E : Type} {b : Backend E}

/-- A connection, with what is bound, behind one more message. -/
def serveBound (b : Backend E) (s : Client E × Option Bound) (message : Message) :
    Client E × Option Bound :=
  (serveMessage b message s.1,
    boundBy s.1.session message (serveMessage b message s.1).events s.2)

/-- A message that asks for a portal runs the text that is bound to it unless it has been run, and
fails if nothing is. -/
def RunsBound (b : Backend E) (s : Client E × Option Bound) (message : Message) : Prop :=
  s.1.session.ignoringUntilSync = false → ∀ name ∈ message.portal,
    match s.2.filter fun p => p.name = name with
    | some p => runsOf (serveMessage b message s.1).events = if p.ran then [] else [p.text]
    | none =>
      runsOf (serveMessage b message s.1).events = [] ∧
        ∃ code, .reply (.errorResponse code) ∈ (serveMessage b message s.1).events

/-- No Bind fails while its parameters are filled in and a text is bound that has not been run,
and none puts a zero byte into the text. -/
def BindKeeps (session : WireSession) (body : List UInt8) (bound : Option Bound) : Prop :=
  match bindFields body session with
  | .error _ => True
  | .ok (_, statement, values) =>
    if (substituteParameters statement.sql statement.types values false LINE_LEN).error = none then
      ∀ text ∈ filled statement.types values false statement.sql, 0 ∉ text
    else ∀ p ∈ bound, p.ran = true

instance (session : WireSession) (body : List UInt8) (bound : Option Bound) :
    Decidable (BindKeeps session body bound) :=
  match h : bindFields body session with
  | .error _ => isTrue (by unfold BindKeeps; rw [h]; trivial)
  | .ok (name, statement, values) =>
    decidable_of_iff
      (if (substituteParameters statement.sql statement.types values false LINE_LEN).error = none then
        ∀ text ∈ filled statement.types values false statement.sql, 0 ∉ text
      else ∀ p ∈ bound, p.ran = true) (by unfold BindKeeps; rw [h])

/-- What is bound has the name that is asked for, and has not failed before. -/
def KeepsBound (s : Client E × Option Bound) (message : Message) : Prop :=
  s.1.session.ignoringUntilSync = false →
    (∀ name ∈ message.portal, ∀ p ∈ s.2,
      p.name = name ∧ (p.ran = true → s.1.session.portal.executed = true)) ∧
    (message.type = 66 → BindKeeps s.1.session message.body s.2)

instance (s : Client E × Option Bound) (message : Message) : Decidable (KeepsBound s message) :=
  inferInstanceAs (Decidable (_ → _ ∧ _))

/-! ### One message -/

/-- The portal is what is bound. -/
structure Portal.Holds (portal : Portal) (bound : Bound) : Prop where
  used : portal.used = true
  name : portal.name = bound.name
  executed : portal.executed = true → bound.ran = true
  text : bound.ran = false → portal.sql.takeWhile (· ≠ 0) = bound.text

/-- The portal is what was bound, or free if nothing is. -/
def Portal.Agrees (portal : Portal) : Option Bound → Prop
  | none => portal.used = false
  | some bound => portal.Holds bound

/-- A portal in use is the one that was bound. -/
theorem Portal.Agrees.of_used {portal : Portal} {bound : Option Bound} (h : portal.Agrees bound)
    (hused : portal.used = true) : ∃ p, bound = some p ∧ portal.Holds p := by
  cases bound with
  | none => exact absurd (hused.symm.trans h) (by simp)
  | some p => exact ⟨p, rfl, h⟩

/-- A portal that is not in use was not bound. -/
theorem Portal.Agrees.of_unused {portal : Portal} {bound : Option Bound} (h : portal.Agrees bound)
    (hused : portal.used = false) : bound = none := by
  cases bound with
  | none => rfl
  | some p => exact absurd (hused.symm.trans (show portal.Holds p from h).used) (by simp)

/-- A message that names a portal is no Bind, Query or Close. -/
theorem Message.portal_type {message : Message} {name : List UInt8}
    (h : message.portal = some name) :
    message.type ≠ 66 ∧ message.type ≠ 81 ∧ message.type ≠ 67 := by
  unfold Message.portal at h
  split at h
  · rename_i htype
    rw [htype]
    decide
  · split at h
    · rename_i htype
      rw [htype]
      decide
    · exact absurd h (by simp)

/-- It changes of the bound portal only whether it ran. -/
theorem boundBy_portal {message : Message} {name : List UInt8} (h : message.portal = some name)
    (session : WireSession) (events : List WireEvent) (bound : Option Bound) :
    boundBy session message events bound =
      bound.map fun p => { p with ran := p.ran || runsOf events ≠ [] } := by
  obtain ⟨hbind, hquery, hclose⟩ := message.portal_type h
  unfold boundBy
  rw [if_neg hbind, if_neg hquery, if_neg hclose, if_neg (by rw [h]; simp)]

/-- A message that is skipped binds nothing. -/
theorem boundBy_skipped (session : WireSession) (message : Message) (bound : Option Bound) :
    boundBy session message [] bound = bound := by
  unfold boundBy
  split
  · rfl
  · split
    · rfl
    · split
      · split
        · rw [if_neg (by simp)]
        · rfl
      · split
        · rfl
        · cases bound <;> simp [runsOf]

/-- A message that asks for the portal in use. The cases are those in which a portal is run. -/
theorem asked_step {c : Client E} {message : Message} {bound : Option Bound} {name : List UInt8}
    (hevents : c.events = []) (hagrees : c.session.portal.Agrees bound)
    (hportal : message.portal = some name)
    (hkeeps : ∀ p ∈ bound, p.name = name ∧ (p.ran = true → c.session.portal.executed = true)) :
    (match bound.filter fun p => p.name = name with
      | some p => runsOf (dispatch b message c).events = if p.ran then [] else [p.text]
      | none =>
        runsOf (dispatch b message c).events = [] ∧
          ∃ code, .reply (.errorResponse code) ∈ (dispatch b message c).events) ∧
      (dispatch b message c).session.portal.Agrees
        (bound.map fun p => { p with ran := p.ran || runsOf (dispatch b message c).events ≠ [] }) := by
  obtain ⟨answer, c₁, hran, hdone⟩ := dispatch_portal (b := b) (c := c) hportal
  have hfound : ∀ p, bound = some p → (bound.filter fun p => p.name = name) = some p := by
    rintro p rfl
    exact Option.filter_eq_some_iff.mpr ⟨rfl, by simpa using (hkeeps p rfl).1⟩
  cases runPortalOn_cases hran with
  | missing hused =>
    obtain rfl := hagrees.of_unused hused
    have hfail : dispatch b message c = c.fail .SEMANTIC_TABLE_NOT_FOUND := hdone
    have hsent : (dispatch b message c).events =
        [.reply (.errorResponse .SEMANTIC_TABLE_NOT_FOUND)] := by
      rw [hfail]
      show c.events ++ _ = _
      rw [hevents, List.nil_append]
    refine ⟨?_, by rw [hfail]; exact hused⟩
    show runsOf _ = [] ∧ _
    rw [hsent]
    exact ⟨rfl, _, List.mem_singleton_self _⟩
  | done hused hexecuted =>
    obtain ⟨p, rfl, hholds⟩ := hagrees.of_used hused
    have hfollows : c.Follows (dispatch b message c) := hdone
    have hruns : runsOf (dispatch b message c).events = [] := by
      rw [hfollows.runs, hevents]
      rfl
    have hp : p.ran = true := hholds.executed hexecuted
    rw [hfound p rfl, hruns]
    refine ⟨?_, hfollows.used.trans hused, hfollows.name.trans hholds.name, fun _ => by simp [hp],
      fun h => absurd h (by simp [hp])⟩
    show [] = if p.ran then [] else [p.text]
    rw [if_pos hp]
  | @failed code _ hused hexecuted hprocess =>
    obtain ⟨p, rfl, hholds⟩ := hagrees.of_used hused
    have hfail : dispatch b message c = c₁.fail code := hdone
    have hp : p.ran = false := by
      cases hcase : p.ran with
      | false => rfl
      | true => exact absurd (((hkeeps p rfl).2 hcase).symm.trans hexecuted) (by simp)
    have hkept := processStatement_kept hprocess
    have hsent : c₁.events = [.run p.text] := by
      obtain ⟨-, rfl⟩ := Prod.mk.inj hprocess
      show c.events ++ _ = _
      rw [hevents, hholds.text hp, List.nil_append]
    have hruns : runsOf (dispatch b message c).events = [p.text] := by
      rw [hfail]
      show runsOf (c₁.events ++ _) = _
      rw [hsent]
      rfl
    have hsame : (dispatch b message c).session.portal = c.session.portal := by
      rw [hfail]
      exact hkept.portal
    rw [hfound p rfl, hruns, hsame]
    refine ⟨?_, hused, hholds.name, fun _ => by simp, fun h => absurd h (by simp)⟩
    show [p.text] = if p.ran then [] else [p.text]
    rw [hp, if_neg (by simp)]
  | @ran results c₂ hused hexecuted hprocess =>
    obtain ⟨p, rfl, hholds⟩ := hagrees.of_used hused
    have hfollows : (c₂.executed results).Follows (dispatch b message c) := hdone
    have hp : p.ran = false := by
      cases hcase : p.ran with
      | false => rfl
      | true => exact absurd (((hkeeps p rfl).2 hcase).symm.trans hexecuted) (by simp)
    have hkept := processStatement_kept hprocess
    have hsent : (c₂.executed results).events = [.run p.text] := by
      obtain ⟨-, rfl⟩ := Prod.mk.inj hprocess
      show c.events ++ _ = _
      rw [hevents, hholds.text hp, List.nil_append]
    have hruns : runsOf (dispatch b message c).events = [p.text] := by
      rw [hfollows.runs, hsent]
      rfl
    have hused' : c₂.session.portal.used = true := by rw [hkept.portal]; exact hused
    have hname' : c₂.session.portal.name = p.name := by rw [hkept.portal]; exact hholds.name
    rw [hfound p rfl, hruns]
    refine ⟨?_, hfollows.used.trans hused', hfollows.name.trans hname', fun _ => by simp,
      fun h => absurd h (by simp)⟩
    show [p.text] = if p.ran then [] else [p.text]
    rw [hp, if_neg (by simp)]

/-! ### Messages that bind -/

/-- A text without a zero byte is read up to the one behind it. -/
theorem takeWhile_zero {text : List UInt8} (h : 0 ∉ text) (rest : List UInt8) :
    (text ++ ([0] ++ rest)).takeWhile (· ≠ 0) = text := by
  rw [List.takeWhile_append_of_pos fun c hc => by
    simpa using fun hz : c = 0 => h (hz ▸ hc)]
  simp

/-- Only what the bound portal says counts. -/
theorem Portal.Holds.congr {portal portal' : Portal} {bound : Bound} (h : portal.Holds bound)
    (hsql : portal'.used = portal.used ∧ portal'.name = portal.name ∧
      portal'.executed = portal.executed)
    (htext : bound.ran = false → portal'.sql = portal.sql) : portal'.Holds bound :=
  ⟨hsql.1.trans h.used, hsql.2.1.trans h.name, fun he => h.executed (hsql.2.2.symm.trans he),
    fun hr => by rw [htext hr]; exact h.text hr⟩

/-- A Bind that keeps what it is given binds the portal. -/
theorem bind_step {c : Client E} {message : Message} {bound : Option Bound}
    (hevents : c.events = []) (hagrees : c.session.portal.Agrees bound)
    (htype : message.type = 66) (hkeeps : BindKeeps c.session message.body bound) :
    (dispatch b message c).session.portal.Agrees
      (boundBy c.session message (dispatch b message c).events bound) := by
  have hbound : ∀ events : List WireEvent, .reply .bindComplete ∉ events →
      boundBy c.session message events bound = bound := fun events hout => by
    unfold boundBy
    rw [if_pos htype, if_neg hout]
  have herror : ∀ (code : ErrorCode) (session : WireSession),
      (c.handled .bindComplete (.error code, session)).events = [.reply (.errorResponse code)] :=
    fun code session => by
      show c.events ++ _ = _
      rw [hevents, List.nil_append]
  have hok : ∀ session : WireSession,
      (c.handled .bindComplete (.ok (), session)).events = [.reply .bindComplete] :=
    fun session => by
      show c.events ++ _ = _
      rw [hevents, List.nil_append]
  rw [dispatch_bind htype]
  unfold BindKeeps at hkeeps
  unfold handleBind failExtended
  cases hfields : bindFields message.body c.session with
  | error code =>
    rw [hbound _ (by rw [herror]; simp)]
    exact hagrees
  | ok fields =>
    obtain ⟨name, statement, values⟩ := fields
    rw [hfields] at hkeeps
    dsimp only at hkeeps ⊢
    cases hwritten : (substituteParameters statement.sql statement.types values false LINE_LEN).error with
    | some code =>
      rw [hwritten, if_neg (by simp)] at hkeeps
      dsimp only
      rw [hbound _ (by rw [herror]; simp)]
      cases bound with
      | none => exact hagrees
      | some p =>
        exact Portal.Holds.congr hagrees ⟨rfl, rfl, rfl⟩ fun hran =>
          absurd (hran.symm.trans (hkeeps p rfl)) (by simp)
    | none =>
      rw [hwritten, if_pos rfl] at hkeeps
      dsimp only
      obtain ⟨text, hfilled, hout, -⟩ :=
        @substituteFrom_filled _ _ _ _ _ [] _ (by decide) hwritten
      have htext : 0 ∉ text := hkeeps text hfilled
      rw [hok]
      have hnow : boundBy c.session message [.reply .bindComplete] bound =
          some { name := name, text := text, ran := false } := by
        unfold boundBy
        rw [if_pos htype, if_pos (List.mem_singleton_self _), hfields]
        dsimp only
        rw [show filled statement.types values false statement.sql = some text from hfilled]
        rfl
      rw [hnow]
      refine ⟨rfl, rfl, fun h => absurd (show false = true from h) (by simp), fun _ => ?_⟩
      show (overlay (_ ++ [0]) c.session.portal.sql).takeWhile (· ≠ 0) = text
      rw [show (substituteParameters statement.sql statement.types values false LINE_LEN).out = text
        from hout, overlay, List.append_assoc]
      exact takeWhile_zero htext _

/-- Closing the portal by its name frees it. -/
theorem handleClose_target {c : Client E} {body name : List UInt8} {what : UInt8}
    (hfields : targetFields body = some (what, name)) :
    .reply .closeComplete ∈ (handleClose body c).events ∧
      (handleClose body c).session.portal =
        if what ≠ 83 ∧ c.session.portal.used = true ∧ c.session.portal.name = name then
          { c.session.portal with used := false, executed := false }
        else c.session.portal := by
  unfold handleClose
  rw [hfields]
  refine ⟨List.mem_append_right _ (List.mem_singleton_self _), ?_⟩
  show WireSession.portal (if _ then _ else _) = _
  by_cases hwhat : what = 83
  · rw [if_pos hwhat, if_neg fun h => h.1 hwhat]
    split <;> rfl
  · by_cases hname : c.session.portal.used = true ∧ c.session.portal.name = name
    · rw [if_neg hwhat, if_pos (by simpa using hname), if_pos ⟨hwhat, hname⟩]
    · rw [if_neg hwhat, if_neg (by simpa using hname), if_neg fun h => hname h.2]

/-- A Close leaves the portal as the messages say. -/
theorem close_step {c : Client E} {message : Message} {bound : Option Bound}
    (hagrees : c.session.portal.Agrees bound) (htype : message.type = 67) :
    (dispatch b message c).session.portal.Agrees
      (boundBy c.session message (dispatch b message c).events bound) := by
  rw [dispatch_close htype]
  unfold boundBy
  rw [if_neg (by rw [htype]; decide), if_neg (by rw [htype]; decide), if_pos htype]
  cases hfields : targetFields message.body with
  | none =>
    unfold handleClose
    rw [hfields]
    exact hagrees
  | some fields =>
    obtain ⟨what, name⟩ := fields
    obtain ⟨hsent, hportal⟩ := handleClose_target (c := c) hfields
    dsimp only
    rw [hportal]
    by_cases hasks : what ≠ 83 ∧ c.session.portal.used = true ∧ c.session.portal.name = name
    · obtain ⟨p, rfl, hholds⟩ := hagrees.of_used hasks.2.1
      have hout : (some p).filter (fun p => p.name ≠ name) = none := by
        rw [Option.filter_some, if_neg (by simpa using hholds.name.symm.trans hasks.2.2)]
      rw [if_pos hasks, if_pos ⟨hsent, hasks.1⟩, hout]
      rfl
    · rw [if_neg hasks]
      split
      · rename_i hclosed
        cases bound with
        | none => exact hagrees
        | some p =>
          have hholds : c.session.portal.Holds p := hagrees
          have hname : p.name ≠ name := fun h =>
            hasks ⟨hclosed.2, hholds.used, hholds.name.trans h⟩
          rw [Option.filter_some, if_pos (by simpa using hname)]
          exact hholds
      · exact hagrees

/-- A Query leaves no portal. -/
theorem query_step {c : Client E} {message : Message} {bound : Option Bound}
    (htype : message.type = 81) :
    (dispatch b message c).session.portal.Agrees
      (boundBy c.session message (dispatch b message c).events bound) := by
  rw [dispatch_query htype]
  obtain ⟨front, error, status, hsent, -, -, -⟩ :=
    handleQuery_events (b := b) (c := c) (message.body.takeWhile (· ≠ 0))
  have hne : (handleQuery b (message.body.takeWhile (· ≠ 0)) c).events ≠ [] := by
    rw [hsent]
    simp
  unfold boundBy
  rw [if_neg (by rw [htype]; decide), if_pos htype, if_neg hne]
  show (handleQuery b (message.body.takeWhile (· ≠ 0)) c).session.portal.used = false
  rw [(handleQuery_session _).2]

/-! ### Whole connections -/

/-- One message, by the kind that it is of. -/
theorem portal_step {s : Client E × Option Bound} {message : Message}
    (hagrees : s.1.session.portal.Agrees s.2) (hkeeps : KeepsBound s message) :
    RunsBound b s message ∧
      (serveBound b s message).1.session.portal.Agrees (serveBound b s message).2 := by
  obtain ⟨c, bound⟩ := s
  unfold RunsBound serveBound
  unfold KeepsBound at hkeeps
  dsimp only at hagrees hkeeps ⊢
  by_cases hserved : c.session.ignoringUntilSync = false ∨ message.isSync = true ∧ c.lost = false
  · rw [serveMessage_dispatched hserved]
    cases hportal : message.portal with
    | some name =>
      have hflag : c.session.ignoringUntilSync = false := by
        rcases hserved with hflag | ⟨hsync, -⟩
        · exact hflag
        · unfold Message.portal at hportal
          rw [show message.type = 83 by simpa [Message.isSync] using hsync] at hportal
          exact absurd hportal (by simp)
      obtain ⟨hruns, hafter⟩ := asked_step (b := b) (c := { c with events := [] }) rfl hagrees hportal
        ((hkeeps hflag).1 name hportal)
      rw [boundBy_portal hportal]
      refine ⟨fun _ n hn => ?_, hafter⟩
      obtain rfl : name = n := Option.some.inj hn
      exact hruns
    | none =>
      refine ⟨fun _ n hn => absurd hn (by simp), ?_⟩
      by_cases hbind : message.type = 66
      · have hflag : c.session.ignoringUntilSync = false := by
          rcases hserved with hflag | ⟨hsync, -⟩
          · exact hflag
          · exact absurd hbind (by
              rw [show message.type = 83 by simpa [Message.isSync] using hsync]
              decide)
        exact bind_step (c := { c with events := [] }) rfl hagrees hbind ((hkeeps hflag).2 hbind)
      · by_cases hquery : message.type = 81
        · exact query_step (c := { c with events := [] }) hquery
        · by_cases hclose : message.type = 67
          · exact close_step (c := { c with events := [] }) hagrees hclose
          · rw [dispatch_apart hquery hbind hclose hportal]
            unfold boundBy
            rw [if_neg hbind, if_neg hquery, if_neg hclose, if_pos hportal]
            exact hagrees
  · obtain ⟨hflag, hskipped⟩ := serveMessage_else (b := b) hserved
    rw [hskipped, boundBy_skipped]
    exact ⟨fun h => absurd (h.symm.trans hflag) (by simp), hagrees⟩

/-- If every message of a connection keeps to what is bound, its portals run what was bound. -/
theorem portal_runs_bound (b : Backend E) (messages : List Message) (engine : E)
    (h : StepsMeet (serveBound b) KeepsBound (newClient engine, none) (served messages)) :
    StepsMeet (serveBound b) (RunsBound b) (newClient engine, none) (served messages) :=
  h.mono (fun s => s.1.session.portal.Agrees s.2) (fun _ _ hs hm => (portal_step hs hm).2)
    (fun _ _ hs hm => (portal_step (b := b) hs hm).1) rfl

end

/-! ### Two connections -/

/-- An engine that answers every statement with no rows. -/
def silent : Backend Unit where
  process _ _ := { answer := .ok noResults, groupings := 0, engine := () }
  inTransaction _ := false

/-- A Parse. -/
def parseOf (name text : List UInt8) : Message := { type := 80, body := parseMessage name text }

/-- A Bind. -/
def bindOf (portal source : List UInt8) : Message :=
  { type := 66, body := bindMessage portal source }

/-- An Execute of all rows. -/
def executeOf (portal : List UInt8) : Message := { type := 69, body := portal ++ [0, 0, 0, 0, 0] }

/-- A Sync. -/
def syncOf : Message := { type := 83, body := [] }

/-- The portal `p` is bound, executed twice, and closed by another Bind. -/
theorem portal_runs_bound_twice :
    StepsMeet (serveBound silent) (RunsBound silent) (newClient (), none)
      (served [parseOf (ascii "s") (ascii "select a from t"), bindOf (ascii "p") (ascii "s"),
        executeOf (ascii "p"), executeOf (ascii "p"), syncOf, bindOf (ascii "q") (ascii "s"),
        executeOf (ascii "q")]) :=
  portal_runs_bound silent _ () (by decide +kernel)

/-- A query is bound; a Bind of another statement, which has a parameter and gets no value, fails
when it has written over the front of the text. -/
def mixedBinds : List Message :=
  [parseOf (ascii "s") (ascii "select a from t where a=1"),
    parseOf (ascii "u") (ascii "delete   from t $1"),
    bindOf (ascii "p") (ascii "s"), bindOf (ascii "q") (ascii "u"), syncOf]

/-- After that, Execute deletes. -/
theorem portal_runs_mixed :
    ¬ StepsMeet (serveBound silent) (RunsBound silent) (newClient (), none)
      (served (mixedBinds ++ [executeOf (ascii "p")])) := by
  intro h
  have hserved : served (mixedBinds ++ [executeOf (ascii "p")]) =
      mixedBinds ++ [executeOf (ascii "p")] := rfl
  rw [hserved] at h
  have hlast := (StepsMeet.append.mp h).2.1
  have hbound : (run (serveBound silent) (newClient (), none) mixedBinds).2 =
      some { name := ascii "p", text := ascii "select a from t where a=1", ran := false } := by
    decide +kernel
  have hruns : runsOf (serveMessage silent (executeOf (ascii "p"))
      (run (serveBound silent) (newClient (), none) mixedBinds).1).events =
        [ascii "delete   from t where a=1"] := by
    decide +kernel
  have hflag : (run (serveBound silent) (newClient (), none)
      mixedBinds).1.session.ignoringUntilSync = false := by
    decide +kernel
  have hname : ascii "p" ∈ (executeOf (ascii "p")).portal := by decide +kernel
  have hruns' := hlast hflag _ hname
  rw [hbound, hruns] at hruns'
  exact absurd (show [ascii "delete   from t where a=1"] = [ascii "select a from t where a=1"] from
    hruns') (by decide)

end DatabaseEngine
