import SharedWatch.Proofs.Delays
import SharedWatch.Proofs.Output

/-!
How long a connection pauses before each attempt to open a watch.

The state machine counts the attempts that failed in a row, the backoff counts the delays that were
drawn; the two are set back in different places. `Pace` says that they agree whenever a watch is
about to be opened, and that both are at zero while one is open.

Main statement: `pauses_due`. The pause depends on what went before as it should: none, the fixed
one, or a delay from the window of the number of refusals in a row; and when the machine is about to
have a delay drawn, the backoff is one behind it.
-/

namespace SharedWatch.Connection

/-! ## The pause that is due -/

/-- How many requests in a row were refused, up to the last one that was answered. -/
def refusedInRow (source : Source) : Nat → Nat
  | 0 => 0
  | n + 1 =>
    match source n with
    | .ok _ => 0
    | .error _ => refusedInRow source n + 1

theorem refusedInRow_opened {source : Source} {n : Nat} {stream : Nat → StreamItem}
    (h : source n = .ok stream) : refusedInRow source (n + 1) = 0 := by
  unfold refusedInRow
  rw [h]

theorem refusedInRow_refused {source : Source} {n : Nat} {reason : String}
    (h : source n = .error reason) :
    refusedInRow source (n + 1) = refusedInRow source n + 1 := by
  rw [refusedInRow]
  simp only [h]

namespace Drive

/-- The backoff of a connection with these settings, after so many delays. -/
def backoffAt (settings : WatchSettings) (drawn : Nat) : Backoff :=
  { Backoff.new settings.backoffBase settings.backoffMax with drawn }

/-- The pause before the next attempt is the one that is due. -/
structure Due (source : Source) (settings : WatchSettings) (d : Drive) (pause : Span) : Prop where
  /-- Before the first attempt there is none. -/
  first : d.asked = [] → pause = .zero
  /-- After a stream there is the fixed one if the last item was an error, and none if the stream
  was closed or has failed. -/
  reopened : ∀ n stream, d.asked.length = n + 1 → source n = .ok stream → ∃ k, d.read = k + 1 ∧
    ((∃ e, stream k = .event e ∧ e.kind = .error) ∧ pause = settings.errorPause ∨
      (∀ e, stream k ≠ .event e) ∧ pause = .zero)
  /-- After a refusal it lies in the upper half of the window of the refusals before it. -/
  retried : ∀ n, refusedInRow source d.asked.length = n + 1 →
    let ceiling := (Backoff.new settings.backoffBase settings.backoffMax).ceiling n
    ceiling.total / 2 ≤ pause.total ∧ pause.total ≤ ceiling.total

/-- Where the counts of a drive stand. -/
inductive Pace (source : Source) (settings : WatchSettings) (d : Drive) : Prop where
  | opening {resume : Option String} {attempt : Nat} {delay : Delay} {pause : Span}
      {request : OpenRequest} (hstate : d.link.state = .connect resume attempt delay)
      (htask : d.link.task = .opening pause request) (hsettings : d.link.settings = settings)
      (hbackoff : d.link.backoff = backoffAt settings attempt)
      (hattempt : attempt = refusedInRow source d.asked.length)
      (hdue : Due source settings d pause)
  | running {resume : Option String} {n : Nat} (hstate : d.link.state = .running resume)
      (htask : d.link.task = .following ∨ ∃ x, d.link.task = .sending x)
      (hsettings : d.link.settings = settings) (hbackoff : d.link.backoff = backoffAt settings 0)
      (hasked : d.asked.length = n + 1) (hsource : source n = .ok d.stream)
  | failing {x : Notice} (hstate : d.link.state = .failed) (htask : d.link.task = .sending x)
  | done (htask : d.link.task = .done)

variable {source : Source} {settings : WatchSettings} {d : Drive} {resume : Option String}
  {attempt : Nat} {delay : Delay}

theorem start_pace (source : Source) (settings : WatchSettings) (selector : Option String) :
    Pace source settings (start settings selector) := by
  have hstate : (start settings selector).link.state = .connect none 0 .immediate := rfl
  have htask : (start settings selector).link.task =
      .opening .zero ((start settings selector).link.request none) := rfl
  refine .opening hstate htask rfl rfl rfl ⟨fun _ => rfl, ?_, ?_⟩
  · intro n stream hn
    cases hn
  · intro n hn
    cases hn

/-- Neither count leaves its word before the machine gives up. -/
theorem countAttempt_of_less (hmax : settings.connectAttempts ≤ 4294967295)
    (hless : ¬ settings.connectAttempts ≤ State.countAttempt attempt) :
    State.countAttempt attempt = attempt + 1 := by
  unfold State.countAttempt at hless ⊢
  omega

/-- A delay is drawn for the refusals that went before, and the backoff counts it as the machine
counts the refusal. -/
theorem next_backoffAt (settings : WatchSettings) (hlt : attempt < 4294967295) (choice : Nat) :
    (backoffAt settings attempt).next choice =
      (Backoff.draw ((Backoff.new settings.backoffBase settings.backoffMax).ceiling attempt) choice,
        backoffAt settings (attempt + 1)) := by
  have hcount : min (attempt + 1) 4294967295 = attempt + 1 := by omega
  show (_, backoffAt settings (min (attempt + 1) 4294967295)) = _
  rw [hcount]
  rfl

theorem Pace.refused (hmax : settings.connectAttempts ≤ 4294967295) {pause : Span}
    {request : OpenRequest} (hstate : d.link.state = .connect resume attempt delay)
    (htask : d.link.task = .opening pause request) (hsettings : d.link.settings = settings)
    (hbackoff : d.link.backoff = backoffAt settings attempt)
    (hattempt : attempt = refusedInRow source d.asked.length) {reason : String}
    (hsource : source d.asked.length = .error reason) (choice : Nat) :
    Pace source settings
      { d with
        link := d.link.receive (.refused reason) choice, asked := d.asked ++ [request] } := by
  by_cases hlast : d.link.settings.connectAttempts ≤ State.countAttempt attempt
  · rw [receive_last_refused_eq hstate htask hlast]
    exact .failing rfl rfl
  · have hcount : State.countAttempt attempt = attempt + 1 :=
      countAttempt_of_less hmax (hsettings ▸ hlast)
    have hlt : attempt < 4294967295 := by
      rw [hsettings, hcount] at hlast
      omega
    have hlength : (d.asked ++ [request]).length = d.asked.length + 1 := by simp
    have hrow : refusedInRow source (d.asked.length + 1) = attempt + 1 := by
      rw [refusedInRow_refused hsource, ← hattempt]
    rw [receive_refused_eq hstate htask hlast, hbackoff, next_backoffAt settings hlt, hcount]
    refine .opening rfl rfl hsettings rfl (by rw [hlength, hrow]) ⟨?_, ?_, ?_⟩
    · intro hnone
      simp at hnone
    · intro n stream hn hstream
      rw [hlength] at hn
      cases hn
      rw [hsource] at hstream
      cases hstream
    · intro n hn
      rw [hlength, hrow] at hn
      cases hn
      exact (Backoff.exists_draw_iff _ _).mp ⟨choice, rfl⟩

/-- A stream is over: the next attempt is the first since it was opened. -/
theorem Pace.over {n : Nat} {pause : Span} {request : OpenRequest} {link : Connection}
    {read : Nat} (hstate : link.state = .connect resume 0 delay)
    (htask : link.task = .opening pause request) (hsettings : link.settings = settings)
    (hbackoff : link.backoff = backoffAt settings 0) (hasked : d.asked.length = n + 1)
    (hsource : source n = .ok d.stream) (hread : read = d.read + 1)
    (hpause : (∃ e, d.stream d.read = .event e ∧ e.kind = .error) ∧ pause = settings.errorPause ∨
      (∀ e, d.stream d.read ≠ .event e) ∧ pause = .zero) :
    Pace source settings { d with link, read } := by
  have hrow : refusedInRow source d.asked.length = 0 := by
    rw [hasked, refusedInRow_opened hsource]
  refine .opening hstate htask hsettings hbackoff hrow.symm ⟨?_, ?_, ?_⟩
  · intro hnone
    replace hnone : d.asked = [] := hnone
    rw [hnone] at hasked
    cases hasked
  · intro m stream hm hstream
    replace hm : d.asked.length = m + 1 := hm
    rw [hasked] at hm
    cases hm
    rw [hsource] at hstream
    cases hstream
    exact ⟨d.read, hread, hpause⟩
  · intro m hm
    replace hm : refusedInRow source d.asked.length = m + 1 := hm
    rw [hrow] at hm
    cases hm

theorem Pace.read {n : Nat} (hstate : d.link.state = .running resume)
    (htask : d.link.task = .following) (hsettings : d.link.settings = settings)
    (hbackoff : d.link.backoff = backoffAt settings 0) (hasked : d.asked.length = n + 1)
    (hsource : source n = .ok d.stream) (choice : Nat) :
    Pace source settings
      { d with
        link := d.link.receive (.item (d.stream d.read)) choice, read := d.read + 1 } := by
  by_cases hevent : ∃ e, d.stream d.read = .event e
  · obtain ⟨e, he⟩ := hevent
    rw [he]
    by_cases hk : e.kind = .error
    · rw [receive_error_eq hstate htask hk]
      exact .over rfl rfl hsettings hbackoff hasked hsource rfl
        (Or.inl ⟨⟨e, he, hk⟩, by rw [hsettings]⟩)
    · rw [receive_event_eq hstate htask hk]
      exact .running rfl (Or.inr ⟨_, rfl⟩) hsettings hbackoff hasked hsource
  · have hne : ∀ e, d.stream d.read ≠ .event e := fun e he => hevent ⟨e, he⟩
    rw [receive_closed_eq hstate htask hne]
    exact .over rfl rfl hsettings hbackoff hasked hsource rfl (Or.inr ⟨hne, rfl⟩)

namespace Pace

theorem proceed (hmax : settings.connectAttempts ≤ 4294967295) (h : Pace source settings d)
    (choice : Nat) : Pace source settings (d.proceed source choice) := by
  unfold Drive.proceed
  cases h with
  | opening hstate htask hsettings hbackoff hattempt hdue =>
    rw [htask]
    cases hsource : source d.asked.length with
    | ok stream =>
      dsimp only
      rw [receive_opened_eq hstate htask, hbackoff]
      exact .running rfl (Or.inr ⟨_, rfl⟩) hsettings rfl (by simp) hsource
    | error reason => exact .refused hmax hstate htask hsettings hbackoff hattempt hsource choice
  | running hstate htask hsettings hbackoff hasked hsource =>
    rcases htask with htask | ⟨x, htask⟩
    · rw [htask]
      exact .read hstate htask hsettings hbackoff hasked hsource choice
    · rw [htask]
      dsimp only
      rw [receive_sent htask, proceed_running_eq hstate]
      exact .running hstate (Or.inl rfl) hsettings hbackoff hasked hsource
  | failing hstate htask =>
    rw [htask]
    dsimp only
    rw [receive_sent htask]
    exact .done (proceed_terminal (by rw [hstate]; rfl) choice)
  | done htask =>
    rw [htask]
    exact .done htask

theorem step (hmax : settings.connectAttempts ≤ 4294967295) (h : Pace source settings d)
    (m : Move) : Pace source settings (d.step source m) := by
  cases m with
  | go choice => exact h.proceed hmax choice
  | cancel choice => exact .done (receive_cancelled d.link choice)
  | abandon choice =>
    by_cases hsending : ∃ x, d.link.task = .sending x
    · obtain ⟨x, htask⟩ := hsending
      exact .done (receive_abandoned htask choice)
    · show Pace source settings { d with link := d.link.receive .abandoned choice }
      rw [receive_abandoned_idle fun x hx => hsending ⟨x, hx⟩]
      exact h

theorem run (hmax : settings.connectAttempts ≤ 4294967295) (h : Pace source settings d)
    (moves : List Move) : Pace source settings (d.run source moves) := by
  induction moves generalizing d with
  | nil => exact h
  | cons m moves ih => exact ih (h.step hmax m)

end Pace

/-- The pause before every attempt, for every source and after any moves; and how the counts stand
when a refusal has the machine wait for a delay, which is then drawn. -/
theorem pauses_due (source : Source) (settings : WatchSettings) (selector : Option String)
    (moves : List Move) (hmax : settings.connectAttempts ≤ 4294967295) {d : Drive}
    (hd : (start settings selector).run source moves = d) {pause : Span} {request : OpenRequest}
    (htask : d.link.task = .opening pause request) :
    Due source settings d pause ∧
      ∀ reason resume attempt,
        d.link.state.step (.openFailed reason) settings.connectAttempts =
          (.connect resume attempt .backoff, .wait) →
        d.link.backoff.drawn + 1 = attempt := by
  cases hd ▸ (start_pace source settings selector).run hmax moves with
  | opening hstate htask' hsettings hbackoff hattempt hdue =>
    rw [htask] at htask'
    cases htask'
    refine ⟨hdue, ?_⟩
    intro reason resume attempt hstep
    rw [hstate, State.step_openFailed] at hstep
    split at hstep
    · cases hstep
    · next hless =>
      cases hstep
      rw [hbackoff, countAttempt_of_less hmax hless]
      rfl
  | running _ htask' _ _ _ _ =>
    rcases htask' with htask' | ⟨x, htask'⟩ <;> simp [htask] at htask'
  | failing _ htask' => simp [htask] at htask'
  | done htask' => simp [htask] at htask'

/-- A stream that fails with an error at once, and refusals ever after. -/
def expired : Source
  | 0 => .ok fun _ => .event (.error "expired")
  | _ + 1 => .error "connection refused"

/-- The attempt after the error was refused after the fixed pause and the next one after a delay;
the third one waits for the next. -/
theorem pauses_due_expired :
    let d := (start .standard none).run expired [.go 0, .go 0, .go 0, .go 7, .go 9]
    let pause : Span := ⟨0, 200000009, by decide, by decide⟩
    let ceiling := (Backoff.new (.ofMillis 200) (.ofSecs 30)).ceiling 1
    WatchSettings.standard.connectAttempts ≤ 4294967295 ∧
      d.link.task = .opening pause (d.link.request none) ∧
      refusedInRow expired d.asked.length = 2 ∧
      (ceiling.total / 2 ≤ pause.total ∧ pause.total ≤ ceiling.total) ∧
      d.link.state.step (.openFailed "gone") WatchSettings.standard.connectAttempts =
        (.connect none 3 .backoff, .wait) ∧
      d.link.backoff.drawn + 1 = 3 := by
  intro d pause ceiling
  have hmax : WatchSettings.standard.connectAttempts ≤ 4294967295 := by decide
  have htask : d.link.task = .opening pause (d.link.request none) := by decide +kernel
  have hrow : refusedInRow expired d.asked.length = 2 := by decide +kernel
  have hstep : d.link.state.step (.openFailed "gone") WatchSettings.standard.connectAttempts =
      (.connect none 3 .backoff, .wait) := by decide +kernel
  obtain ⟨hdue, hdrawn⟩ := pauses_due expired .standard none _ hmax rfl htask
  exact ⟨hmax, htask, hrow, hdue.retried 1 hrow, hstep, hdrawn _ _ _ hstep⟩

end Drive

end SharedWatch.Connection
