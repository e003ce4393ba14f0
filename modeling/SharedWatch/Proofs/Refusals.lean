import Mathlib.Data.List.DropRight
import Mathlib.Data.List.Induction
import Mathlib.Data.List.Infix
import SharedWatch.Proofs.Link

/-!
When the state machine of a connection gives up.

Signals may come in any order, also such that do not fit the state. What counts are the refusals
that come while a watch is about to be opened, since the last one that was opened.

Main statement: `gives_up_exactly`. The machine gives up once at most, at the refusal that is one
too many, and nothing moves it after that or after a cancellation.
-/

namespace SharedWatch.Connection

def Signal.isOpened : Signal → Bool
  | .opened => true
  | _ => false

def Signal.isRefusal : Signal → Bool
  | .openFailed _ => true
  | _ => false

def Action.isTerminate : Action → Bool
  | .terminate _ => true
  | _ => false

namespace State

def isConnecting : State → Bool
  | .connect _ _ _ => true
  | _ => false

/-! ## Runs of the machine -/

/-- The state after some signals. -/
def after (maxAttempts : Nat) (signals : List Signal) : State :=
  signals.foldl (fun s x => (s.step x maxAttempts).1) .initial

/-- What is done about a signal that comes after others. -/
def answer (maxAttempts : Nat) (before : List Signal) (x : Signal) : Action :=
  ((after maxAttempts before).step x maxAttempts).2

/-- Signals, each with the state in which it comes. -/
def receivedFrom (maxAttempts : Nat) : State → List Signal → List (State × Signal)
  | _, [] => []
  | s, x :: rest => (s, x) :: receivedFrom maxAttempts (s.step x maxAttempts).1 rest

def received (maxAttempts : Nat) (signals : List Signal) : List (State × Signal) :=
  receivedFrom maxAttempts .initial signals

/-- All that is done about some signals. -/
def answers (maxAttempts : Nat) (signals : List Signal) : List Action :=
  (received maxAttempts signals).map fun p => (p.1.step p.2 maxAttempts).2

/-- Whether a signal tells a connection that is about to open that its watch is open. -/
def accepts (p : State × Signal) : Bool := p.1.isConnecting && p.2.isOpened

/-- Whether it tells such a connection that its attempt has failed. -/
def refuses (p : State × Signal) : Bool := p.1.isConnecting && p.2.isRefusal

/-- What came since the start or since a watch was opened last. -/
def sinceOpened (maxAttempts : Nat) (signals : List Signal) : List (State × Signal) :=
  (received maxAttempts signals).rtakeWhile (!accepts ·)

/-- How many attempts have failed since then. -/
def refusals (maxAttempts : Nat) (signals : List Signal) : Nat :=
  (sinceOpened maxAttempts signals).countP refuses

variable {maxAttempts n : Nat} {s : State} {x : Signal} {signals rest : List Signal}
  {reason : String}

theorem after_append (signals rest : List Signal) :
    after maxAttempts (signals ++ rest) =
      rest.foldl (fun s x => (s.step x maxAttempts).1) (after maxAttempts signals) :=
  List.foldl_append

theorem after_snoc (signals : List Signal) (x : Signal) :
    after maxAttempts (signals ++ [x]) = ((after maxAttempts signals).step x maxAttempts).1 :=
  after_append signals [x]

theorem receivedFrom_append (s : State) (signals rest : List Signal) :
    receivedFrom maxAttempts s (signals ++ rest) =
      receivedFrom maxAttempts s signals ++
        receivedFrom maxAttempts (signals.foldl (fun s x => (s.step x maxAttempts).1) s) rest := by
  induction signals generalizing s with
  | nil => rfl
  | cons x signals ih => exact congrArg ((s, x) :: ·) (ih _)

theorem received_snoc (signals : List Signal) (x : Signal) :
    received maxAttempts (signals ++ [x]) =
      received maxAttempts signals ++ [(after maxAttempts signals, x)] :=
  receivedFrom_append _ signals [x]

theorem answers_snoc (signals : List Signal) (x : Signal) :
    answers maxAttempts (signals ++ [x]) =
      answers maxAttempts signals ++ [answer maxAttempts signals x] := by
  unfold answers
  rw [received_snoc, List.map_append]
  rfl

theorem sinceOpened_accepted (h : accepts (after maxAttempts signals, x) = true) :
    sinceOpened maxAttempts (signals ++ [x]) = [] := by
  unfold sinceOpened
  rw [received_snoc, List.rtakeWhile_concat_neg _ _ _ (by simp [h])]

theorem sinceOpened_snoc (h : ¬ accepts (after maxAttempts signals, x) = true) :
    sinceOpened maxAttempts (signals ++ [x]) =
      sinceOpened maxAttempts signals ++ [(after maxAttempts signals, x)] := by
  unfold sinceOpened
  rw [received_snoc, List.rtakeWhile_concat_pos _ _ _ (by simp [h])]

/-- The count of failed attempts after one more signal. -/
def tallied (n : Nat) (p : State × Signal) : Nat :=
  if accepts p then 0 else if refuses p then n + 1 else n

theorem refusals_snoc (signals : List Signal) (x : Signal) :
    refusals maxAttempts (signals ++ [x]) =
      tallied (refusals maxAttempts signals) (after maxAttempts signals, x) := by
  unfold refusals tallied
  by_cases h : accepts (after maxAttempts signals, x) = true
  · rw [sinceOpened_accepted h, if_pos h, List.countP_nil]
  · rw [sinceOpened_snoc h, if_neg h, List.countP_append, List.countP_singleton]
    split <;> rfl

/-! ## What one signal does -/

theorem step_terminal (h : s.isTerminal = true) (x : Signal) :
    s.step x maxAttempts = (s, .stop) := if_pos h

theorem foldl_terminal (h : s.isTerminal = true) (rest : List Signal) :
    rest.foldl (fun s x => (s.step x maxAttempts).1) s = s := by
  induction rest with
  | nil => rfl
  | cons x rest ih => rw [List.foldl_cons, step_terminal h, ih]

theorem isTerminal_cancel (s : State) : (s.step .cancel maxAttempts).1.isTerminal = true := by
  obtain ⟨state, hstep, rfl | rfl⟩ : ∃ state, s.step .cancel maxAttempts = (state, .stop) ∧
      (state = .failed ∨ state = .cancelled) := step_cancel s
  · rw [hstep]
    rfl
  · rw [hstep]
    rfl

/-- A failed attempt that is one too many makes the machine give up. -/
def GivesUp (maxAttempts : Nat) (s : State) (x : Signal) : Prop :=
  ∃ resume attempt delay reason, s = .connect resume attempt delay ∧ x = .openFailed reason ∧
    maxAttempts ≤ countAttempt attempt

/-- Nothing else makes it terminate or fail. -/
theorem givesUp_or (s : State) (x : Signal) :
    GivesUp maxAttempts s x ∨
      (s.step x maxAttempts).2.isTerminate = false ∧
        ((s.step x maxAttempts).1 = .failed → s = .failed) := by
  cases s with
  | connect resume attempt delay =>
    cases x with
    | openFailed reason =>
      rw [step_openFailed]
      split
      · next hmax => exact Or.inl ⟨resume, attempt, delay, reason, rfl, rfl, hmax⟩
      · exact Or.inr ⟨rfl, nofun⟩
    | _ => exact Or.inr ⟨rfl, nofun⟩
  | running resume =>
    cases x with
    | event e =>
      right
      by_cases he : e.kind = .error
      · rw [step_error he]
        exact ⟨rfl, nofun⟩
      · rw [step_event he]
        exact ⟨rfl, nofun⟩
    | _ => exact Or.inr ⟨rfl, nofun⟩
  | closed resume => cases x <;> exact Or.inr ⟨rfl, nofun⟩
  | failed => exact Or.inr ⟨rfl, fun _ => rfl⟩
  | cancelled => exact Or.inr ⟨rfl, nofun⟩

theorem GivesUp.step (h : GivesUp maxAttempts s x) :
    s.isConnecting = true ∧ ∃ reason, x = .openFailed reason ∧
      s.step x maxAttempts = (.failed, .terminate reason) := by
  obtain ⟨resume, attempt, delay, reason, rfl, rfl, hmax⟩ := h
  exact ⟨rfl, reason, rfl, if_pos hmax⟩

theorem step_terminate (h : (s.step x maxAttempts).2 = .terminate reason) :
    s.isConnecting = true ∧ x = .openFailed reason ∧
      s.step x maxAttempts = (.failed, .terminate reason) := by
  have hcases : GivesUp maxAttempts s x ∨ _ := givesUp_or s x
  rcases hcases with hup | ⟨hquiet, -⟩
  · obtain ⟨hconnecting, reason', rfl, hstep⟩ := hup.step
    rw [hstep] at h
    cases h
    exact ⟨hconnecting, rfl, hstep⟩
  · rw [h] at hquiet
    cases hquiet

/-- The state of failure is entered by giving up only. -/
theorem isTerminate_step_iff (s : State) (x : Signal) :
    (s.step x maxAttempts).2.isTerminate = true ↔
      s ≠ .failed ∧ (s.step x maxAttempts).1 = .failed := by
  have hcases : GivesUp maxAttempts s x ∨ _ := givesUp_or s x
  rcases hcases with hup | ⟨hquiet, hfailed⟩
  · obtain ⟨hconnecting, reason, -, hstep⟩ := hup.step
    have hne : s ≠ .failed := by
      rintro rfl
      cases hconnecting
    rw [hstep]
    exact ⟨fun _ => ⟨hne, rfl⟩, fun _ => rfl⟩
  · rw [hquiet]
    exact ⟨nofun, fun h => absurd (hfailed h.2) h.1⟩

/-! ## The count of the machine -/

/-- Whether a state agrees with a count of failed attempts: the machine counts the same, and the
count is still below the limit. -/
def Tally (maxAttempts n : Nat) : State → Prop
  | .connect _ attempt _ => attempt = n ∧ n < max maxAttempts 1
  | .running _ => n = 0
  | .closed _ => n = 0
  | .failed => True
  | .cancelled => True

theorem Tally.step (hmax : maxAttempts ≤ 4294967295) (h : Tally maxAttempts n s) (x : Signal) :
    Tally maxAttempts (tallied n (s, x)) (s.step x maxAttempts).1 := by
  cases s with
  | connect resume attempt delay =>
    obtain ⟨rfl, hn⟩ := h
    cases x with
    | opened => exact (rfl : tallied attempt (connect resume attempt delay, .opened) = 0)
    | openFailed reason =>
      rw [step_openFailed]
      split
      · trivial
      · next hless =>
        unfold countAttempt at hless ⊢
        show min (attempt + 1) 4294967295 = attempt + 1 ∧ attempt + 1 < max maxAttempts 1
        omega
    | cancel => trivial
    | _ => exact ⟨rfl, hn⟩
  | running resume =>
    cases x with
    | event e =>
      by_cases he : e.kind = .error
      · rw [step_error he]
        cases (h : n = 0)
        exact ⟨rfl, show 0 < max maxAttempts 1 by omega⟩
      · rw [step_event he]
        exact h
    | cancel => trivial
    | _ => exact h
  | closed resume =>
    cases x with
    | resume =>
      cases (h : n = 0)
      exact ⟨rfl, show 0 < max maxAttempts 1 by omega⟩
    | cancel => trivial
    | _ => exact h
  | failed => trivial
  | cancelled => trivial

theorem tally_after (hmax : maxAttempts ≤ 4294967295) (signals : List Signal) :
    Tally maxAttempts (refusals maxAttempts signals) (after maxAttempts signals) := by
  induction signals using List.reverseRecOn with
  | nil => exact ⟨rfl, show 0 < max maxAttempts 1 by omega⟩
  | append_singleton signals x ih =>
    rw [refusals_snoc, after_snoc]
    exact ih.step hmax x

theorem Tally.terminate_iff (hmax : maxAttempts ≤ 4294967295) (h : Tally maxAttempts n s)
    (x : Signal) (reason : String) :
    (s.step x maxAttempts).2 = .terminate reason ↔
      s.isConnecting = true ∧ x = .openFailed reason ∧ n + 1 = max maxAttempts 1 := by
  -- in the connecting state the machine has come as far as the count, and not too far
  have hconnect : ∀ resume attempt delay, s = .connect resume attempt delay →
      (maxAttempts ≤ countAttempt attempt ↔ n + 1 = max maxAttempts 1) := by
    rintro resume attempt delay rfl
    obtain ⟨rfl, hn⟩ := h
    unfold countAttempt
    omega
  constructor
  · intro hstep
    obtain ⟨hconnecting, rfl, hfailed⟩ := step_terminate hstep
    refine ⟨hconnecting, rfl, ?_⟩
    cases s with
    | connect resume attempt delay =>
      refine (hconnect resume attempt delay rfl).mp (by_contra fun hless => ?_)
      rw [step_openFailed, if_neg hless] at hfailed
      cases hfailed
    | _ => cases hconnecting
  · rintro ⟨hconnecting, rfl, hn⟩
    cases s with
    | connect resume attempt delay =>
      rw [step_openFailed, if_pos ((hconnect resume attempt delay rfl).mpr hn)]
    | _ => cases hconnecting

/-! ## Whole runs -/

theorem isTerminal_of_cancel (h : .cancel ∈ signals) :
    (after maxAttempts signals).isTerminal = true := by
  obtain ⟨before, rest, rfl⟩ := List.append_of_mem h
  have hcancel : ((after maxAttempts before).step .cancel maxAttempts).1.isTerminal = true :=
    isTerminal_cancel _
  rw [after_append, List.foldl_cons, foldl_terminal hcancel]
  exact hcancel

theorem countP_answers (maxAttempts : Nat) (signals : List Signal) :
    (answers maxAttempts signals).countP Action.isTerminate =
      if after maxAttempts signals = .failed then 1 else 0 := by
  induction signals using List.reverseRecOn with
  | nil => rfl
  | append_singleton signals x ih =>
    rw [answers_snoc, after_snoc, List.countP_append, ih, List.countP_singleton]
    have hiff : (answer maxAttempts signals x).isTerminate = true ↔ _ :=
      isTerminate_step_iff (after maxAttempts signals) x
    by_cases hfailed : after maxAttempts signals = .failed
    · rw [hfailed] at hiff ⊢
      rw [if_pos rfl, if_neg fun h => (hiff.mp h).1 rfl, step_terminal rfl, if_pos rfl]
    · rw [if_neg hfailed]
      by_cases hnext : ((after maxAttempts signals).step x maxAttempts).1 = .failed
      · rw [if_pos hnext, if_pos (hiff.mpr ⟨hfailed, hnext⟩)]
      · rw [if_neg hnext, if_neg fun h => hnext (hiff.mp h).2]

theorem refusals_le (maxAttempts : Nat) (signals : List Signal) :
    refusals maxAttempts signals ≤
      (sinceOpened maxAttempts signals).countP fun p => p.2.isRefusal := by
  refine List.countP_mono_left fun p _ h => ?_
  exact (Bool.and_eq_true_iff.mp h).2

/-- A machine that has failed was refused as often as it may be. -/
theorem exists_refusals_of_failed (hmax : maxAttempts ≤ 4294967295)
    (h : after maxAttempts signals = .failed) :
    ∃ before, before <+: signals ∧ refusals maxAttempts before = max maxAttempts 1 := by
  induction signals using List.reverseRecOn with
  | nil => cases h
  | append_singleton signals x ih =>
    by_cases hfailed : after maxAttempts signals = .failed
    · obtain ⟨before, hbefore, hrefused⟩ := ih hfailed
      exact ⟨before, hbefore.trans (List.prefix_append _ _), hrefused⟩
    · rw [after_snoc] at h
      refine ⟨signals ++ [x], List.prefix_refl _, ?_⟩
      have hterminates := (isTerminate_step_iff (after maxAttempts signals) x).mpr ⟨hfailed, h⟩
      cases haction : ((after maxAttempts signals).step x maxAttempts).2 with
      | terminate reason =>
        obtain ⟨hconnecting, rfl, hn⟩ :=
          ((tally_after hmax signals).terminate_iff hmax x reason).mp haction
        rw [refusals_snoc, ← hn]
        cases hstate : after maxAttempts signals with
        | connect resume attempt delay => rfl
        | _ => rw [hstate] at hconnecting; cases hconnecting
      | _ => rw [haction] at hterminates; cases hterminates

/-- When the machine gives up, for every number of attempts that fits its word and after any
signals. -/
theorem gives_up_exactly (maxAttempts : Nat) (hmax : maxAttempts ≤ 4294967295)
    (signals : List Signal) :
    (answers maxAttempts signals).countP Action.isTerminate ≤ 1 ∧
    (∀ x reason, answer maxAttempts signals x = .terminate reason ↔
      (after maxAttempts signals).isConnecting = true ∧ .cancel ∉ signals ∧
        x = .openFailed reason ∧ refusals maxAttempts signals + 1 = max maxAttempts 1) ∧
    (∀ x rest y,
      (x = .cancel ∨ ∃ reason, answer maxAttempts signals x = .terminate reason) →
      after maxAttempts (signals ++ x :: rest) = after maxAttempts (signals ++ [x]) ∧
        answer maxAttempts (signals ++ x :: rest) y = .stop) ∧
    ((∀ before, before <+: signals →
        ((sinceOpened maxAttempts before).countP fun p => p.2.isRefusal) < max maxAttempts 1) →
      after maxAttempts signals ≠ .failed) := by
  refine ⟨?_, ?_, ?_, ?_⟩
  · rw [countP_answers]
    split <;> omega
  · intro x reason
    refine ((tally_after hmax signals).terminate_iff hmax x reason).trans ?_
    have hcancel : (after maxAttempts signals).isConnecting = true → .cancel ∉ signals := by
      intro hconnecting hmem
      have hterminal : (after maxAttempts signals).isTerminal = true := isTerminal_of_cancel hmem
      cases hstate : after maxAttempts signals with
      | connect resume attempt delay => rw [hstate] at hterminal; cases hterminal
      | _ => rw [hstate] at hconnecting; cases hconnecting
    exact ⟨fun h => ⟨h.1, hcancel h.1, h.2⟩, fun h => ⟨h.1, h.2.2⟩⟩
  · intro x rest y hx
    have hterminal : (after maxAttempts (signals ++ [x])).isTerminal = true := by
      rw [after_snoc]
      rcases hx with rfl | ⟨reason, hanswer⟩
      · exact isTerminal_cancel _
      · rw [(step_terminate hanswer).2.2]
        rfl
    have hafter : after maxAttempts (signals ++ x :: rest) =
        after maxAttempts (signals ++ [x]) := by
      rw [List.append_cons, after_append, foldl_terminal hterminal]
    refine ⟨hafter, ?_⟩
    unfold answer
    rw [hafter, step_terminal hterminal]
  · intro hfew hfailed
    obtain ⟨before, hbefore, hrefused⟩ := exists_refusals_of_failed hmax hfailed
    have hlt := hfew before hbefore
    have hle := refusals_le maxAttempts before
    omega

/-- A refusal before a watch was opened, one in a state that it does not fit, and one after the
watch was closed. -/
def scatteredRefusals : List Signal :=
  [.openFailed "early", .opened, .openFailed "stray", .closed, .resume, .openFailed "late"]

/-- The stray refusal does not count: of two failed attempts that are allowed, the next is the
second. -/
theorem gives_up_exactly_scattered :
    2 ≤ 4294967295 ∧
      answer 2 scatteredRefusals (.openFailed "last") = .terminate "last" ∧
      after 2 (scatteredRefusals ++ [.openFailed "last", .opened]) =
        after 2 (scatteredRefusals ++ [.openFailed "last"]) ∧
      after 3 scatteredRefusals ≠ .failed := by
  obtain ⟨-, hterminates, hstays, -⟩ := gives_up_exactly 2 (by decide) scatteredRefusals
  obtain ⟨-, -, -, hfew⟩ := gives_up_exactly 3 (by decide) scatteredRefusals
  have hanswer := (hterminates (.openFailed "last") "last").mpr
    ⟨by decide, by simp [scatteredRefusals], rfl, by decide⟩
  have hprefixes : ∀ before ∈ scatteredRefusals.inits,
      ((sinceOpened 3 before).countP fun p => p.2.isRefusal) < max 3 1 := by decide
  refine ⟨by decide, hanswer, (hstays _ [.opened] .cancel (Or.inr ⟨_, hanswer⟩)).1, hfew ?_⟩
  intro before hbefore
  exact hprefixes before ((List.mem_inits _ _).mpr hbefore)

end State

end SharedWatch.Connection
