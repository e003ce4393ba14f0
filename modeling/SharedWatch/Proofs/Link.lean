import SharedWatch.Connection.Basic

/-!
How a connection takes its tasks, one lemma for each way in which a task can go.

The lemmas on `State.step` give one edge of the state machine each. A connection that asks for a
watch asks from the resume point of its state; one that follows a watch or hands on what came from
it is running.
-/

namespace SharedWatch.Connection

/-! ## Edges of the state machine -/

namespace State
variable {resume : Option String} {attempt maxAttempts : Nat} {delay : Delay}

theorem step_opened : (connect resume attempt delay).step .opened maxAttempts =
    (.running resume, .announce resume.isSome) := rfl

theorem step_openFailed (reason : String) :
    (connect resume attempt delay).step (.openFailed reason) maxAttempts =
      if maxAttempts ≤ countAttempt attempt then (.failed, .terminate reason)
      else (.connect resume (countAttempt attempt) .backoff, .wait) := rfl

theorem step_event {e : Change} (he : e.kind ≠ .error) :
    (running resume).step (.event e) maxAttempts =
      (.running (advance resume e.version), .relay e) := if_neg he

theorem step_error {e : Change} (he : e.kind = .error) :
    (running resume).step (.event e) maxAttempts = (.connect none 0 .fixed, .wait) := if_pos he

theorem step_closed : (running resume).step .closed maxAttempts = (.closed resume, .wait) := rfl

theorem step_resume :
    (closed resume).step .resume maxAttempts = (.connect resume 0 .immediate, .wait) := rfl

theorem step_cancel (s : State) :
    ∃ state, s.step .cancel maxAttempts = (state, .stop) ∧
      (state = .failed ∨ state = .cancelled) := by
  cases s with
  | failed => exact ⟨_, rfl, Or.inl rfl⟩
  | _ => exact ⟨_, rfl, Or.inr rfl⟩

end State

variable {c : Connection} {resume : Option String} {attempt choice : Nat} {delay : Delay}

/-! ## Taking up the next task -/

/-- Whether the connection is about to open from a resume point. -/
structure Opens (c : Connection) (resume : Option String) : Prop where
  state : ∃ attempt delay, c.state = .connect resume attempt delay
  task : ∃ pause request, c.task = .opening pause request ∧ request.resume = resume

theorem proceed_connect_eq (h : c.state = .connect resume attempt delay) (choice : Nat) :
    c.proceed choice =
      { c with
        backoff := (c.pause delay choice).2
        task := .opening (c.pause delay choice).1 (c.request resume) } := by
  unfold proceed
  rw [h]

theorem proceed_running_eq (h : c.state = .running resume) (choice : Nat) :
    c.proceed choice = { c with task := .following } := by
  unfold proceed
  rw [h]

theorem proceed_connect (h : c.state = .connect resume attempt delay) (choice : Nat) :
    (c.proceed choice).Opens resume := by
  rw [proceed_connect_eq h]
  exact ⟨⟨attempt, delay, h⟩, _, _, rfl, rfl⟩

theorem proceed_running (h : c.state = .running resume) (choice : Nat) :
    (c.proceed choice).state = .running resume ∧ (c.proceed choice).task = .following := by
  rw [proceed_running_eq h]
  exact ⟨h, rfl⟩

theorem proceed_terminal (h : c.state.isTerminal = true) (choice : Nat) :
    (c.proceed choice).task = .done := by
  unfold proceed
  cases hs : c.state with
  | failed => rfl
  | cancelled => rfl
  | _ => cases hs ▸ h

theorem start_opens (settings : WatchSettings) (selector : Option String) :
    (start settings selector).Opens none := proceed_connect rfl 0

theorem signal_eq {s : Signal} {state : State} {action : Action}
    (h : c.state.step s c.settings.connectAttempts = (state, action)) (choice : Nat) :
    c.signal s choice = { c with state }.perform action choice := by
  unfold signal
  rw [h]

/-- A connection that is to wait in a connecting state opens again. -/
theorem wait_connect_eq (h : c.state = .connect resume attempt delay) (choice : Nat) :
    c.perform .wait choice = c.proceed choice := by
  show c.reopen.proceed choice = c.proceed choice
  unfold reopen
  rw [h]

/-- One that is to wait in the closed state first goes on to a connecting one. -/
theorem wait_closed_eq (h : c.state = .closed resume) (choice : Nat) :
    c.perform .wait choice =
      { c with
        state := .connect resume 0 .immediate
        task := .opening .zero (c.request resume) } := by
  show c.reopen.proceed choice = _
  unfold reopen
  rw [h]
  have hstate : { c with state := .connect resume 0 .immediate }.state =
      .connect resume 0 .immediate := rfl
  exact proceed_connect_eq hstate choice

/-! ## How tasks go -/

section Opening
variable {pause : Span} {request : OpenRequest}

theorem receive_opening (htask : c.task = .opening pause request) (choice : Nat) :
    c.receive .opened choice = c.signal .opened choice ∧
      ∀ reason, c.receive (.refused reason) choice = c.signal (.openFailed reason) choice := by
  unfold receive
  rw [htask]
  exact ⟨rfl, fun _ => rfl⟩

theorem receive_opened_eq (hstate : c.state = .connect resume attempt delay)
    (htask : c.task = .opening pause request) (choice : Nat) :
    c.receive .opened choice =
      { c with
        state := .running resume, backoff := c.backoff.reset
        task := .sending (.opened resume.isSome) } := by
  have hstep : c.state.step .opened c.settings.connectAttempts =
      (.running resume, .announce resume.isSome) := hstate ▸ State.step_opened
  rw [(receive_opening htask choice).1, signal_eq hstep]
  rfl

/-- A refusal that is one too many is the end. -/
theorem receive_last_refused_eq (hstate : c.state = .connect resume attempt delay)
    (htask : c.task = .opening pause request)
    (hmax : c.settings.connectAttempts ≤ State.countAttempt attempt) (reason : String)
    (choice : Nat) :
    c.receive (.refused reason) choice =
      { c with state := .failed, task := .sending (.event (.error reason)) } := by
  have hstep : c.state.step (.openFailed reason) c.settings.connectAttempts =
      (.failed, .terminate reason) := by
    rw [hstate, State.step_openFailed, if_pos hmax]
  rw [(receive_opening htask choice).2 reason, signal_eq hstep]
  rfl

/-- After any other refusal the connection opens again after a delay. -/
theorem receive_refused_eq (hstate : c.state = .connect resume attempt delay)
    (htask : c.task = .opening pause request)
    (hless : ¬ c.settings.connectAttempts ≤ State.countAttempt attempt) (reason : String)
    (choice : Nat) :
    c.receive (.refused reason) choice =
      { c with
        state := .connect resume (State.countAttempt attempt) .backoff
        backoff := (c.backoff.next choice).2
        task := .opening (c.backoff.next choice).1 (c.request resume) } := by
  have hstep : c.state.step (.openFailed reason) c.settings.connectAttempts =
      (.connect resume (State.countAttempt attempt) .backoff, .wait) := by
    rw [hstate, State.step_openFailed, if_neg hless]
  have hnext : { c with state := .connect resume (State.countAttempt attempt) .backoff }.state =
      .connect resume (State.countAttempt attempt) .backoff := rfl
  rw [(receive_opening htask choice).2 reason, signal_eq hstep, wait_connect_eq hnext]
  exact proceed_connect_eq hnext choice

end Opening

section Following
variable (hstate : c.state = .running resume) (htask : c.task = .following)
include hstate htask

omit hstate in
theorem receive_following (choice : Nat) :
    (∀ e, c.receive (.item (.event e)) choice = c.signal (.event e) choice) ∧
      ∀ i, (∀ e, i ≠ .event e) → c.receive (.item i) choice = c.signal .closed choice := by
  unfold receive
  rw [htask]
  refine ⟨fun _ => rfl, ?_⟩
  intro i hi
  cases i with
  | event e => exact absurd rfl (hi e)
  | broken reason => rfl
  | ended => rfl

/-- An event is handed on, and its version is the new resume point. -/
theorem receive_event_eq {e : Change} (he : e.kind ≠ .error) (choice : Nat) :
    c.receive (.item (.event e)) choice =
      { c with
        state := .running (State.advance resume e.version), task := .sending (.event e) } := by
  have hstep : c.state.step (.event e) c.settings.connectAttempts =
      (.running (State.advance resume e.version), .relay e) := hstate ▸ State.step_event he
  rw [(receive_following htask choice).1 e, signal_eq hstep]
  rfl

/-- An error on the stream makes the connection start over after a fixed pause. -/
theorem receive_error_eq {e : Change} (he : e.kind = .error) (choice : Nat) :
    c.receive (.item (.event e)) choice =
      { c with
        state := .connect none 0 .fixed
        task := .opening c.settings.errorPause (c.request none) } := by
  have hstep : c.state.step (.event e) c.settings.connectAttempts =
      (.connect none 0 .fixed, .wait) := hstate ▸ State.step_error he
  have hnext : { c with state := .connect none 0 .fixed }.state = .connect none 0 .fixed := rfl
  rw [(receive_following htask choice).1 e, signal_eq hstep, wait_connect_eq hnext]
  exact proceed_connect_eq hnext choice

/-- After the end of a stream the connection opens again from its resume point, at once. -/
theorem receive_closed_eq {i : StreamItem} (hi : ∀ e, i ≠ .event e) (choice : Nat) :
    c.receive (.item i) choice =
      { c with
        state := .connect resume 0 .immediate
        task := .opening .zero (c.request resume) } := by
  have hstep : c.state.step .closed c.settings.connectAttempts = (.closed resume, .wait) :=
    hstate ▸ State.step_closed
  rw [(receive_following htask choice).2 i hi, signal_eq hstep]
  exact wait_closed_eq rfl choice

theorem receive_event {e : Change} (he : e.kind ≠ .error) (choice : Nat) :
    (c.receive (.item (.event e)) choice).state = .running (State.advance resume e.version) ∧
      (c.receive (.item (.event e)) choice).task = .sending (.event e) := by
  rw [receive_event_eq hstate htask he]
  exact ⟨rfl, rfl⟩

theorem receive_error {e : Change} (he : e.kind = .error) (choice : Nat) :
    (c.receive (.item (.event e)) choice).Opens none := by
  rw [receive_error_eq hstate htask he]
  exact ⟨⟨_, _, rfl⟩, _, _, rfl, rfl⟩

theorem receive_closed {i : StreamItem} (hi : ∀ e, i ≠ .event e) (choice : Nat) :
    (c.receive (.item i) choice).Opens resume := by
  rw [receive_closed_eq hstate htask hi]
  exact ⟨⟨_, _, rfl⟩, _, _, rfl, rfl⟩

end Following

theorem receive_opened (h : c.Opens resume) (choice : Nat) :
    (c.receive .opened choice).state = .running resume ∧
      (c.receive .opened choice).task = .sending (.opened resume.isSome) := by
  obtain ⟨⟨attempt, delay, hstate⟩, pause, request, htask, -⟩ := h
  rw [receive_opened_eq hstate htask]
  exact ⟨rfl, rfl⟩

/-- After a refusal the connection opens again from the same point, or says that it has failed. -/
theorem receive_refused (h : c.Opens resume) (reason : String) (choice : Nat) :
    (c.receive (.refused reason) choice).Opens resume ∨
      (c.receive (.refused reason) choice).state = .failed ∧
        (c.receive (.refused reason) choice).task = .sending (.event (.error reason)) := by
  obtain ⟨⟨attempt, delay, hstate⟩, pause, request, htask, -⟩ := h
  by_cases hmax : c.settings.connectAttempts ≤ State.countAttempt attempt
  · right
    rw [receive_last_refused_eq hstate htask hmax]
    exact ⟨rfl, rfl⟩
  · left
    rw [receive_refused_eq hstate htask hmax]
    exact ⟨⟨_, _, rfl⟩, _, _, rfl, rfl⟩

theorem receive_sent {n : Notice} (htask : c.task = .sending n) (choice : Nat) :
    c.receive .sent choice = c.proceed choice := by
  unfold receive
  rw [htask]

/-- A connection that hands nothing over does not notice that its reader has gone. -/
theorem receive_abandoned_idle (h : ∀ n, c.task ≠ .sending n) (choice : Nat) :
    c.receive .abandoned choice = c := by
  unfold receive
  cases htask : c.task with
  | sending n => exact absurd htask (h n)
  | _ => rfl

theorem receive_cancelled (c : Connection) (choice : Nat) :
    (c.receive .cancelled choice).task = .done := by
  have hsignal : (c.signal .cancel choice).task = .done := by
    obtain ⟨state, hstep, hstate⟩ : ∃ state, c.state.step .cancel c.settings.connectAttempts =
      (state, .stop) ∧ (state = .failed ∨ state = .cancelled) := State.step_cancel c.state
    rw [signal_eq hstep]
    rcases hstate with rfl | rfl <;> rfl
  unfold receive
  cases htask : c.task with
  | done => exact htask
  | sending n => rfl
  | opening pause request => exact hsignal
  | following => exact hsignal

theorem receive_abandoned {n : Notice} (htask : c.task = .sending n) (choice : Nat) :
    (c.receive .abandoned choice).task = .done := by
  unfold receive
  rw [htask]
  rfl

end SharedWatch.Connection
