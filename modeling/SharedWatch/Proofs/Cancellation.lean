import SharedWatch.Hub.Queue
import SharedWatch.Proofs.Output

/-!
What becomes of a connection whose token is cancelled.

Whenever a connection waits, it waits for its token too, and when both are ready it may go on with
either. So a cancellation is final only when the connection goes on with it: an item that is waiting
to be handed over may overtake it as long as the queue has room.

Main statement: `cancellation_final_iff`. After the moment of the cancellation nothing is handed
over, and the connection ends as cancelled, exactly if it never goes on with an item that waits
while the queue has room; once the connection has gone on with its token nothing is, in any case;
and no more items overtake the cancellation than there is room in the queue or the reader makes.
That one can is `cancellation_overtaken`.
-/

namespace SharedWatch

/-! ## Room in a queue -/

namespace Queue
variable {α : Type} {q : Queue α}

/-- How many items a queue still takes. -/
def room (q : Queue α) : Nat := if q.abandoned then 0 else q.capacity - q.items.length

theorem room_eq_zero_iff : q.room = 0 ↔ q.abandoned = true ∨ q.hasRoom = false := by
  unfold room hasRoom
  split
  · next h => simp [h]
  · next h => simp [h, Nat.sub_eq_zero_iff_le]

end Queue

namespace Connection

/-- A connection at work, the queue to its reader, and whether its token was cancelled. -/
structure Guarded where
  drive : Drive
  outbox : Queue Notice
  cancelled : Bool

namespace Guarded

inductive Event where
  /-- The connection goes on with what it waits for besides its token: an answer, an item of the
  stream, or room in the queue. -/
  | work (choice : Nat)
  /-- It goes on with its token, which was cancelled. -/
  | yield (choice : Nat)
  /-- The token is cancelled. -/
  | cancel
  /-- The reader takes the next item. -/
  | read
  /-- The reader goes. -/
  | leave
  deriving DecidableEq

def start (settings : WatchSettings) (selector : Option String) : Guarded :=
  ⟨.start settings selector, .primed settings.capacity [], false⟩

/-- The item that an event hands over: the one that waits, if the queue takes it. -/
def handed? (g : Guarded) (e : Event) : Option Notice :=
  match e, g.drive.link.task with
  | .work _, .sending n => if g.outbox.abandoned || !g.outbox.hasRoom then none else some n
  | _, _ => none

/-- The move that the connection makes, if it makes one: it does not while what it goes on with is
not there. -/
def move? (g : Guarded) (e : Event) : Option Drive.Move :=
  match e, g.drive.link.task with
  | .work choice, .sending _ =>
    if g.outbox.abandoned then some (.abandon choice)
    else if g.outbox.hasRoom then some (.go choice)
    else none
  | .work choice, _ => some (.go choice)
  | .yield choice, _ => if g.cancelled then some (.cancel choice) else none
  | _, _ => none

/-- The queue after an event. -/
def outboxAfter (g : Guarded) (e : Event) : Queue Notice :=
  match g.handed? e, e with
  | some n, _ => g.outbox.push n
  | none, .read => (g.outbox.pop?.map (·.2)).getD g.outbox
  | none, .leave => g.outbox.abandon
  | none, _ => g.outbox

def step (source : Source) (g : Guarded) (e : Event) : Guarded :=
  { drive := (g.move? e).elim g.drive (g.drive.step source)
    outbox := g.outboxAfter e
    cancelled := g.cancelled || e = .cancel }

def run (source : Source) (g : Guarded) (events : List Event) : Guarded :=
  events.foldl (step source) g

/-- What was put into the queue so far. -/
def items (g : Guarded) : List Notice := g.drive.items

/-- Whether the connection has ended. -/
def IsOver (g : Guarded) : Prop := g.drive.link.task = .done

variable {source : Source} {g : Guarded} {e : Event} {events : List Event} {n : Notice}

/-! ## One event -/

theorem handed?_eq_some (h : g.handed? e = some n) :
    (∃ choice, e = .work choice) ∧ g.drive.link.task = .sending n ∧
      g.outbox.abandoned = false ∧ g.outbox.hasRoom = true := by
  unfold handed? at h
  split at h
  · next choice n' htask =>
    split at h
    · cases h
    · next hroom =>
      cases h
      simp only [Bool.or_eq_true, Bool.not_eq_true', not_or, Bool.not_eq_true,
        Bool.not_eq_false] at hroom
      exact ⟨⟨choice, rfl⟩, htask, hroom⟩
  · cases h

/-- Nothing is handed over exactly if the connection does not go on with an item that waits, or the
queue has no room. -/
theorem handed?_eq_none_iff : g.handed? e = none ↔ ∀ choice n, e = .work choice →
    g.drive.link.task = .sending n → g.outbox.room = 0 := by
  constructor
  · rintro h choice n rfl htask
    unfold handed? at h
    rw [htask] at h
    dsimp only at h
    split at h
    · next hroom => simpa [Queue.room_eq_zero_iff] using hroom
    · cases h
  · intro h
    by_contra hsome
    obtain ⟨n, hn⟩ := Option.ne_none_iff_exists'.mp hsome
    obtain ⟨⟨choice, he⟩, htask, habandoned, hroom⟩ := handed?_eq_some hn
    rcases Queue.room_eq_zero_iff.mp (h choice n he htask) with hgone | hfull
    · simp [hgone] at habandoned
    · simp [hfull] at hroom

/-- What is handed over is what was waiting, and the connection goes on. -/
theorem move?_of_handed (h : g.handed? e = some n) : ∃ choice, g.move? e = some (.go choice) := by
  obtain ⟨⟨choice, rfl⟩, htask, habandoned, hroom⟩ := handed?_eq_some h
  unfold move?
  rw [htask]
  simp only [habandoned, hroom, Bool.false_eq_true, if_false, if_true]
  exact ⟨choice, rfl⟩

/-- A connection that goes on with nothing handed over was not about to hand anything over. -/
theorem task_of_move? (h : g.handed? e = none) {choice : Nat} (hm : g.move? e = some (.go choice)) :
    ∀ n, g.drive.link.task ≠ .sending n := by
  intro n htask
  unfold move? at hm
  unfold handed? at h
  rw [htask] at h hm
  cases e with
  | work choice' =>
    dsimp only at h hm
    split at hm
    · cases hm
    · next habandoned =>
      split at hm
      · next hroom => simp [habandoned, hroom] at h
      · cases hm
  | yield choice' =>
    dsimp only at hm
    split at hm <;> cases hm
  | _ => cases hm

theorem items_proceed_sending {d : Drive} (h : d.link.task = .sending n) (choice : Nat) :
    (d.proceed source choice).items = d.items ++ [n] := by
  unfold Drive.proceed
  rw [h]

theorem items_proceed {d : Drive} (h : ∀ n, d.link.task ≠ .sending n) (choice : Nat) :
    (d.proceed source choice).items = d.items := by
  unfold Drive.proceed
  cases htask : d.link.task with
  | opening pause request =>
    dsimp only
    split <;> rfl
  | following => rfl
  | sending n => exact absurd htask (h n)
  | done => rfl

theorem items_step (source : Source) (g : Guarded) (e : Event) :
    (g.step source e).items = g.items ++ (g.handed? e).toList := by
  show ((g.move? e).elim g.drive (g.drive.step source)).items = _
  cases hn : g.handed? e with
  | some n =>
    obtain ⟨choice, hm⟩ := move?_of_handed hn
    rw [hm]
    exact items_proceed_sending (handed?_eq_some hn).2.1 choice
  | none =>
    rw [Option.toList_none, List.append_nil]
    cases hm : g.move? e with
    | none => rfl
    | some m =>
      cases m with
      | go choice => exact items_proceed (task_of_move? hn hm) choice
      | cancel choice => rfl
      | abandon choice => rfl

theorem kept_step (h : Drive.Kept source g.drive) (e : Event) :
    Drive.Kept source (g.step source e).drive := by
  show Drive.Kept source ((g.move? e).elim g.drive (g.drive.step source))
  cases g.move? e with
  | none => exact h
  | some m => exact h.step m

/-- A connection that goes on with its token ends as cancelled. -/
theorem cancelled_of_receive {d : Drive} (h : Drive.Kept source d) (hrunning : d.link.task ≠ .done)
    (choice : Nat) : (d.link.receive .cancelled choice).state = .cancelled := by
  obtain ⟨attempts, ending, -, hstage⟩ := h
  -- the machine is told to cancel while the connection opens or follows
  have hsignal : d.link.state.isTerminal = false →
      (d.link.signal .cancel choice).state = .cancelled := by
    intro hstate
    have hstep : d.link.state.step .cancel d.link.settings.connectAttempts =
        (.cancelled, .stop) := by
      unfold State.step
      rw [hstate]
      rfl
    rw [signal_eq hstep]
    rfl
  cases hstage with
  | opening ho hover hitems hending =>
    obtain ⟨⟨attempt, delay, hstate⟩, pause, request, htask, -⟩ := ho
    unfold receive
    rw [htask]
    exact hsignal (by rw [hstate]; rfl)
  | running hattempts ha hread hover hstate htask hending =>
    unfold receive
    rcases htask with ⟨htask, -⟩ | ⟨n, htask, -⟩
    · rw [htask]
      exact hsignal (by rw [hstate]; rfl)
    · rw [htask]
      rfl
  | failing hstate htask hitems hending =>
    unfold receive
    rw [htask]
    rfl
  | done htask => exact absurd htask hrunning

/-- A connection that does not hand anything over does not end by going on. -/
theorem running_of_proceed {d : Drive} (h : Drive.Kept source d)
    (hidle : ∀ n, d.link.task ≠ .sending n) (hrunning : d.link.task ≠ .done) (choice : Nat) :
    (d.proceed source choice).link.task ≠ .done := by
  obtain ⟨attempts, ending, -, hstage⟩ := h
  unfold Drive.proceed
  cases hstage with
  | opening ho hover hitems hending =>
    obtain ⟨-, pause, request, htask, -⟩ := id ho
    rw [htask]
    dsimp only
    split
    · rw [(receive_opened ho choice).2]
      exact nofun
    · rcases receive_refused ho _ choice with hagain | ⟨-, hfailed⟩
      · obtain ⟨-, pause', request', htask', -⟩ := hagain
        rw [htask']
        exact nofun
      · rw [hfailed]
        exact nofun
  | running hattempts ha hread hover hstate htask hending =>
    rcases htask with ⟨htask, -⟩ | ⟨n, htask, -⟩
    · rw [htask]
      dsimp only
      by_cases hevent : ∃ e, d.stream d.read = .event e
      · obtain ⟨e, he⟩ := hevent
        rw [he]
        by_cases hk : e.kind = .error
        · obtain ⟨-, pause, request, htask', -⟩ := receive_error hstate htask hk choice
          rw [htask']
          exact nofun
        · rw [(receive_event hstate htask hk choice).2]
          exact nofun
      · obtain ⟨-, pause, request, htask', -⟩ :=
          receive_closed hstate htask (fun e he => hevent ⟨e, he⟩) choice
        rw [htask']
        exact nofun
    · exact absurd htask (hidle n)
  | failing hstate htask hitems hending => exact absurd htask (hidle _)
  | done htask => exact absurd htask hrunning

theorem over_step (h : Drive.Kept source g.drive) (hn : g.handed? e = none)
    (hover : (g.step source e).IsOver) :
    g.IsOver ∨ (g.step source e).drive.link.state = .cancelled := by
  by_cases hrunning : g.IsOver
  · exact Or.inl hrunning
  · replace hover : ((g.move? e).elim g.drive (g.drive.step source)).link.task = .done := hover
    show _ ∨ ((g.move? e).elim g.drive (g.drive.step source)).link.state = .cancelled
    cases hm : g.move? e with
    | none =>
      rw [hm] at hover
      exact Or.inl hover
    | some m =>
      rw [hm] at hover
      cases m with
      | go choice =>
        exact absurd hover (running_of_proceed h (task_of_move? hn hm) hrunning choice)
      | cancel choice => exact Or.inr (cancelled_of_receive h hrunning choice)
      | abandon choice =>
        by_cases hsending : ∃ n, g.drive.link.task = .sending n
        · obtain ⟨n, htask⟩ := hsending
          right
          show (g.drive.link.receive .abandoned choice).state = .cancelled
          unfold receive
          rw [htask]
          rfl
        · left
          replace hover : (g.drive.link.receive .abandoned choice).task = .done := hover
          rw [receive_abandoned_idle fun n htask => hsending ⟨n, htask⟩] at hover
          exact hover

/-- A connection that has ended stays as it is. -/
theorem drive_step_of_over (h : g.IsOver) (e : Event) : (g.step source e).drive = g.drive := by
  replace h : g.drive.link.task = .done := h
  have hdone : ∀ o choice, g.drive.link.receive o choice = g.drive.link := by
    intro o choice
    unfold receive
    rw [h]
  show (g.move? e).elim g.drive (g.drive.step source) = g.drive
  cases g.move? e with
  | none => rfl
  | some m =>
    cases m with
    | go choice =>
      show g.drive.proceed source choice = g.drive
      unfold Drive.proceed
      rw [h]
    | cancel choice =>
      show { g.drive with link := g.drive.link.receive .cancelled choice } = g.drive
      rw [hdone]
    | abandon choice =>
      show { g.drive with link := g.drive.link.receive .abandoned choice } = g.drive
      rw [hdone]

/-! ## Whole runs -/

theorem drive_run_of_over (h : g.IsOver) (events : List Event) :
    (g.run source events).drive = g.drive := by
  induction events generalizing g with
  | nil => rfl
  | cons e events ih =>
    have hstep : (g.step source e).drive = g.drive := drive_step_of_over h e
    have hover : (g.step source e).IsOver := by
      unfold IsOver
      rw [hstep]
      exact h
    exact (ih hover).trans hstep

/-- Whether the connection never goes on with an item that waits while the queue has room. -/
def Yields (source : Source) (g : Guarded) (events : List Event) : Prop :=
  ∀ before choice rest n, events = before ++ .work choice :: rest →
    (g.run source before).drive.link.task = .sending n → (g.run source before).outbox.room = 0

theorem Yields.run (hyields : Yields source g events) (h : Drive.Kept source g.drive) :
    (g.run source events).items = g.items ∧
      ((g.run source events).IsOver →
        g.IsOver ∨ (g.run source events).drive.link.state = .cancelled) := by
  induction events generalizing g with
  | nil => exact ⟨rfl, Or.inl⟩
  | cons e events ih =>
    have hn : g.handed? e = none := by
      refine handed?_eq_none_iff.mpr fun choice n he htask => ?_
      exact hyields [] choice events n (by rw [he]; rfl) htask
    have hrest : Yields source (g.step source e) events := by
      intro before choice rest n hevents
      exact hyields (e :: before) choice rest n (by rw [hevents]; rfl)
    obtain ⟨hitems, hover⟩ := ih hrest (kept_step h e)
    refine ⟨?_, ?_⟩
    · rw [items_step, hn, Option.toList_none, List.append_nil] at hitems
      exact hitems
    · intro hend
      rcases hover hend with hstep | hcancelled
      · rcases over_step h hn hstep with hbefore | hcancelled
        · exact Or.inl hbefore
        · right
          show ((g.step source e).run source events).drive.link.state = .cancelled
          rw [drive_run_of_over hstep]
          exact hcancelled
      · exact Or.inr hcancelled

end Guarded

end Connection

end SharedWatch
