import SharedWatch.Proofs.Lineage
import SharedWatch.Proofs.Stream

/-!
Nobody's stream depends on what the others do.

A handler at work owes a subscriber what a handler that only takes up the same notices would owe it
(`Handler.owed`), since those who come, go, stall or fail change nothing that its generations know.
`Standing` is that for a whole run.

Main statement: `subscribers_isolated`, about any two runs of a handler from the moment in which a
subscriber joins. `told` is what a run takes up until the subscriber leaves, `Obeys` says how its
own queue behaves; everything else may differ.
-/

namespace SharedWatch

/-! ## What two runs have in common -/

/-- Whether a move takes a subscriber out on its own account. -/
def DeskMove.leaves (id : Nat) : DeskMove → Bool
  | .unsubscribe i => i == id
  | _ => false

namespace Desk

instance (d : Desk) (id : Nat) : Decidable (d.Serves id) :=
  inferInstanceAs (Decidable (∃ x ∈ d.relay.planned.head?, x.subscriber = id))

/-- What the relay takes up in a move. -/
def takes (d : Desk) : DeskMove → List Notice
  | .hear n => if d.relay = .listening then [n] else []
  | _ => []

/-- What the relay takes up during some moves, until a subscriber leaves. -/
def told (id : Nat) : Desk → List DeskMove → List Notice
  | _, [] => []
  | d, m :: rest => if m.leaves id then [] else d.takes m ++ told id (d.step m) rest

/-- Whether a move is as a subscriber's queue has it: `q n` is how the delivery goes that finds the
queue after `n` events were put into it. -/
def Heeds (q : Nat → Receipt) (id : Nat) (d : Desk) : DeskMove → Prop
  | .deliver receipt => d.Serves id → receipt = q (eventsFor id d.sent).length
  | _ => True

/-- Whether some moves are as a subscriber's queue has it. -/
def Obeys (q : Nat → Receipt) (id : Nat) : Desk → List DeskMove → Prop
  | _, [] => True
  | d, m :: rest => d.Heeds q id m ∧ Obeys q id (d.step m) rest

/-- Whether a delivery to a subscriber fails during some moves. -/
def Fails (id : Nat) (d : Desk) (moves : List DeskMove) : Prop :=
  ∃ before receipt after, moves = before ++ .deliver receipt :: after ∧ (d.run before).Serves id ∧
    receipt ≠ .accepted

/-- Whether all that was planned for a subscriber was put into its queue, or it has missed some. -/
def Settled (d : Desk) (id : Nat) : Prop := d.due id = eventsFor id d.sent

/-- Whether a run takes up all of some notices while a subscriber is there, or loses it on the way
by a delivery that fails. -/
def Exhausts (d : Desk) (id : Nat) (moves : List DeskMove) (items : List Notice) : Prop :=
  d.told id moves = items ∨ d.told id moves <+: items ∧ d.Fails id moves

instance (q : Nat → Receipt) (id : Nat) (d : Desk) (m : DeskMove) : Decidable (d.Heeds q id m) := by
  cases m <;> unfold Heeds <;> infer_instance

instance decidableObeys (q : Nat → Receipt) (id : Nat) (d : Desk) :
    (moves : List DeskMove) → Decidable (d.Obeys q id moves)
  | [] => .isTrue trivial
  | m :: rest =>
    have := decidableObeys q id (d.step m) rest
    inferInstanceAs (Decidable (d.Heeds q id m ∧ (d.step m).Obeys q id rest))

variable {d : Desk} {s : Subscriber} {id : Nat} {q : Nat → Receipt} {m : DeskMove}
  {moves : List DeskMove}

theorem Obeys.of_append {before after : List DeskMove} (h : d.Obeys q id (before ++ after)) :
    (d.run before).Obeys q id after := by
  induction before generalizing d with
  | nil => exact h
  | cons m before ih => exact ih h.2

theorem Exhausts.told_prefix {items : List Notice} (h : d.Exhausts id moves items) :
    d.told id moves <+: items := by
  rcases h with heq | ⟨hp, -⟩
  · exact heq ▸ List.prefix_refl _
  · exact hp

theorem takes_quiet (hm : ∀ n, m ≠ .hear n) : d.takes m = [] := by
  cases m with
  | hear n => exact absurd rfl (hm n)
  | _ => rfl

theorem takes_of_busy (h : d.relay ≠ .listening) : d.takes m = [] := by
  cases m with
  | hear n => exact if_neg h
  | _ => rfl

/-! ## Streams that have ended -/

/-- Whether nothing more will be put into a subscriber's queue. -/
structure Ended (d : Desk) (id : Nat) : Prop where
  out : id ∈ d.relay.failed ∨ d.handler.Lacks id
  settled : d.Settled id

theorem Ended.step (h : d.Ended id) (ha : d.Attended) (hid : id ∈ d.joined) (m : DeskMove) :
    (d.step m).Ended id ∧ eventsFor id (d.step m).sent = eventsFor id d.sent := by
  cases stream_step ha hid m with
  | planned n hidle =>
    have hlacks : d.handler.Lacks id := h.out.resolve_left (by simp [hidle])
    have hdue : (d.step (.hear n)).due id = eventsFor id (d.step (.hear n)).sent := by
      rw [due_hear hidle, ha.sound.eventsFor_take_of_lacks hlacks, List.append_nil, sent_hear]
      exact h.settled
    exact ⟨⟨.inr (lacks_step ha.sound hid hlacks), hdue⟩, by rw [sent_hear]⟩
  | sent e _ _ hsent hdue _ =>
    -- there would have to be more in the queue than is meant for it
    have hprefix := (d.step (.deliver .accepted)).sent_prefix_due id
    rw [hdue, h.settled, hsent] at hprefix
    have hlength := hprefix.length_le
    rw [List.length_append, List.length_singleton] at hlength
    omega
  | lost receipt _ _ _ hsent hfailed => exact ⟨⟨.inl hfailed, due_of_mem hfailed⟩, hsent⟩
  | other _ hsent hdue _ hout =>
    refine ⟨⟨?_, hdue.trans (h.settled.trans hsent.symm)⟩, hsent⟩
    rcases h.out with hfailed | hlacks
    · exact hout hfailed
    · exact .inr (lacks_step ha.sound hid hlacks)

theorem Ended.run (h : d.Ended id) (ha : d.Attended) (hid : id ∈ d.joined)
    (moves : List DeskMove) : eventsFor id (d.run moves).sent = eventsFor id d.sent := by
  induction moves generalizing d with
  | nil => rfl
  | cons m rest ih =>
    obtain ⟨hended, hsent⟩ := h.step ha hid m
    exact (ih hended (ha.step m) (d.joined_step hid m)).trans hsent

theorem Serves.relay_eq (h : d.Serves id) : ∃ x rest failed terminal,
    d.relay = .delivering (x :: rest) failed terminal ∧ x.subscriber = id := by
  obtain ⟨x, hx, hid⟩ := h
  cases hrelay : d.relay with
  | listening => simp [hrelay] at hx
  | done => simp [hrelay] at hx
  | delivering plan failed terminal =>
    cases plan with
    | nil => simp [hrelay] at hx
    | cons y rest =>
      simp only [hrelay, Relay.planned_delivering, List.head?_cons, Option.mem_some_iff] at hx
      exact ⟨y, rest, failed, terminal, rfl, hx ▸ hid⟩

/-- A delivery that fails is the end of a stream. -/
theorem Attended.ended_deliver (ha : d.Attended) (hserves : d.Serves id) {receipt : Receipt}
    (hr : receipt ≠ .accepted) :
    (d.step (.deliver receipt)).Ended id ∧ id ∈ (d.step (.deliver receipt)).joined ∧
      eventsFor id (d.step (.deliver receipt)).sent = eventsFor id d.sent := by
  obtain ⟨x, rest, failed, terminal, hrelay, rfl⟩ := hserves.relay_eq
  have hstep : d.step (.deliver receipt) = { d with
      relay := .delivering (Relay.passOver (failed ++ [x.subscriber]) rest)
        (failed ++ [x.subscriber]) terminal } := by
    simp only [Desk.step, hrelay, Relay.note_missed hr, if_neg hr]
  have hfailed : x.subscriber ∈ (d.step (.deliver receipt)).relay.failed := by
    rw [hstep, Relay.failed_delivering]
    exact List.mem_append_right _ List.mem_cons_self
  exact ⟨⟨.inl hfailed, due_of_mem hfailed⟩, (ha.step _).missed _ hfailed, by rw [hstep]⟩

/-- Nothing is put into a queue after a delivery to it that failed. -/
theorem sent_run_of_failed (ha : d.Attended) {before after : List DeskMove} {receipt : Receipt}
    (hserves : (d.run before).Serves id) (hr : receipt ≠ .accepted) :
    eventsFor id (d.run (before ++ .deliver receipt :: after)).sent =
      eventsFor id (d.run before).sent := by
  have ha' := ha.run before
  obtain ⟨hended, hid, hsent⟩ := ha'.ended_deliver hserves hr
  have hrun : d.run (before ++ .deliver receipt :: after) =
      ((d.run before).step (.deliver receipt)).run after := by
    simp [run]
  rw [hrun, hended.run (ha'.step _) hid, hsent]

theorem Fails.refused (hf : d.Fails id moves) (ha : d.Attended) (hobeys : d.Obeys q id moves) :
    q (eventsFor id (d.run moves).sent).length ≠ .accepted := by
  obtain ⟨before, receipt, after, rfl, hserves, hr⟩ := hf
  have hheeds : receipt = q (eventsFor id (d.run before).sent).length := hobeys.of_append.1 hserves
  rw [sent_run_of_failed ha hserves hr, ← hheeds]
  exact hr

/-! ## What a run gives a subscriber -/

/-- Whether a queue has taken all that was put into it since it held `first` events. -/
structure Took (q : Nat → Receipt) (first : Nat) (id : Nat) (d : Desk) : Prop where
  start : first ≤ (eventsFor id d.sent).length
  accepted : ∀ n, first ≤ n → n < (eventsFor id d.sent).length → q n = .accepted

/-- Whether a subscriber gets all of some events, or a part of them up to a delivery that failed. -/
inductive Gets (q : Nat → Receipt) (id : Nat) (events : List Change) (d : Desk) : Prop where
  | whole (hkept : id ∉ d.relay.failed) (hdue : d.due id = events)
  | cut (hended : d.Ended id) (hpart : eventsFor id d.sent <+: events)
      (hrefused : q (eventsFor id d.sent).length ≠ .accepted)

theorem Took.step {first : Nat} (h : Took q first id d) (ha : d.Attended) (hid : id ∈ d.joined)
    (hheeds : d.Heeds q id m) : Took q first id (d.step m) := by
  have hself : ∀ {d' : Desk}, eventsFor id d'.sent = eventsFor id d.sent → Took q first id d' := by
    intro d' hsent
    exact ⟨hsent ▸ h.start, hsent ▸ h.accepted⟩
  cases stream_step ha hid m with
  | planned n hidle => exact hself (by rw [sent_hear])
  | lost receipt _ _ _ hsent _ => exact hself hsent
  | other _ hsent _ _ _ => exact hself hsent
  | sent e hserves _ hsent _ _ =>
    have haccepted : q (eventsFor id d.sent).length = .accepted := (hheeds hserves).symm
    refine ⟨?_, ?_⟩ <;> rw [hsent, List.length_append, List.length_singleton]
    · exact Nat.le_succ_of_le h.start
    · intro n hfirst hn
      rcases Nat.lt_succ_iff_lt_or_eq.mp hn with hn | rfl
      · exact h.accepted n hfirst hn
      · exact haccepted

namespace Gets
variable {events : List Change}

/-- A move in which nothing is taken up leaves a subscriber with the same events to get. -/
theorem quiet (h : Gets q id events d) (ha : d.Attended) (hid : id ∈ d.joined)
    (hheeds : d.Heeds q id m) (hm : ∀ n, m ≠ .hear n) : Gets q id events (d.step m) := by
  cases h with
  | cut hended hpart hrefused =>
    obtain ⟨hended', hsent⟩ := hended.step ha hid m
    exact .cut hended' (hsent ▸ hpart) (hsent ▸ hrefused)
  | whole hkept hdue =>
    cases stream_step ha hid m with
    | planned n _ => exact absurd rfl (hm n)
    | sent e _ _ _ hdue' hkept' => exact .whole hkept' (hdue'.trans hdue)
    | lost receipt hr hserves _ hsent hfailed =>
      refine .cut ⟨.inl hfailed, due_of_mem hfailed⟩ ?_ ?_
      · rw [hsent, ← hdue]
        exact d.sent_prefix_due id
      · rw [hsent, ← hheeds hserves]
        exact hr
    | other _ _ hdue' hfailed _ => exact .whole (fun h => hkept (hfailed h)) (hdue'.trans hdue)

/-- Whoever has left gets what was planned before. -/
theorem step_of_lacks (h : Gets q id events d) (hlacks : d.handler.Lacks id) (ha : d.Attended)
    (hid : id ∈ d.joined) (hheeds : d.Heeds q id m) : Gets q id events (d.step m) := by
  rcases d.hear_cases m with ⟨n, rfl, hidle⟩ | ⟨n, rfl, hbusy⟩ | hm
  case inr.inr => exact h.quiet ha hid hheeds hm
  case inr.inl => rwa [step_hear_of_busy hbusy]
  cases h with
  | cut hended hpart hrefused =>
    obtain ⟨hended', hsent⟩ := hended.step ha hid (.hear n)
    exact .cut hended' (hsent ▸ hpart) (hsent ▸ hrefused)
  | whole hkept hdue =>
    refine .whole ?_ ?_
    · rw [step_hear hidle, Relay.failed_take]
      exact List.not_mem_nil
    · rw [due_hear hidle, ha.sound.eventsFor_take_of_lacks hlacks, List.append_nil, hdue]

theorem run_of_lacks (h : Gets q id events d) (hlacks : d.handler.Lacks id) (ha : d.Attended)
    (hid : id ∈ d.joined) (hobeys : d.Obeys q id moves) : Gets q id events (d.run moves) := by
  induction moves generalizing d with
  | nil => exact h
  | cons m rest ih =>
    exact ih (h.step_of_lacks hlacks ha hid hobeys.1) (lacks_step ha.sound hid hlacks) (ha.step m)
      (d.joined_step hid m) hobeys.2

theorem sent_prefix (h : Gets q id events d) : eventsFor id d.sent <+: events := by
  cases h with
  | whole _ hdue =>
    rw [← hdue]
    exact d.sent_prefix_due id
  | cut _ hpart _ => exact hpart

theorem sent_of_settled (h : Gets q id events d) (hsettled : d.Settled id) :
    eventsFor id d.sent = events ∨ q (eventsFor id d.sent).length ≠ .accepted := by
  cases h with
  | whole _ hdue => exact .inl (hsettled.symm.trans hdue)
  | cut _ _ hrefused => exact .inr hrefused

end Gets

/-- How a subscriber stands to a handler that it joined when that was `first`, and that has taken up
some notices since: it is still there, or the relay is done, or it has lost a delivery. -/
inductive Standing (first : Handler) (s : Subscriber) (q : Nat → Receipt) (start : List Change)
    (told : List Notice) (d : Desk) : Prop where
  | present (hk : d.handler.Keeps s) (halike : (first.after told).Alike d.handler)
      (hkept : s.id ∉ d.relay.failed) (hdue : d.due s.id = start ++ first.owed s.id told)
  | finished (hdone : d.relay = .done) (hgets : Gets q s.id (start ++ first.owed s.id told) d)
  | lost (hended : d.Ended s.id) (hpart : eventsFor s.id d.sent <+: start ++ first.owed s.id told)
      (hrefused : q (eventsFor s.id d.sent).length ≠ .accepted)

/-- A handler goes on for those who stay, unless its relay is done. -/
theorem keeps_step (hk : d.handler.Keeps s) (hkept : s.id ∉ d.relay.failed)
    (hid : s.id ∈ d.joined) (hm : ∀ n, m ≠ .hear n) (hstays : m.leaves s.id = false) :
    (d.step m).relay = .done ∨
      (d.step m).handler.Keeps s ∧ d.handler.Alike (d.step m).handler := by
  have hself : d.handler.Keeps s ∧ d.handler.Alike d.handler := ⟨hk, .refl _⟩
  cases m with
  | hear n => exact absurd rfl (hm n)
  | deliver receipt =>
    simp only [step]
    split <;> exact .inr hself
  | conclude =>
    simp only [step]
    split
    · next failed terminal hrelay =>
      rw [hrelay] at hkept
      cases terminal
      · exact .inr (hk.remove hkept)
      · exact .inl rfl
    · exact .inr hself
  | hangUp =>
    simp only [step]
    split
    · exact .inl rfl
    · exact .inr hself
  | halt =>
    simp only [step]
    split <;> exact .inr hself
  | subscribe t =>
    by_cases hjoins : d.TakesIn t
    · rw [step_subscribe hjoins]
      refine .inr (hk.attach ?_)
      intro heq
      exact hjoins.2 (heq ▸ hid)
    · rw [step_subscribe_of_not hjoins]
      exact .inr hself
  | unsubscribe i =>
    refine .inr (hk.remove ?_)
    intro hmem
    rw [List.mem_singleton.mp hmem] at hstays
    simp [DeskMove.leaves] at hstays

theorem relay_step_of_done (hdone : d.relay = .done) (m : DeskMove) : (d.step m).relay = .done := by
  cases m with
  | subscribe s =>
    simp only [step]
    split <;> exact hdone
  | unsubscribe id => exact hdone
  | _ => simp only [step, hdone]

namespace Standing
variable {first : Handler} {start : List Change} {told : List Notice}

theorem gets (h : Standing first s q start told d) :
    Gets q s.id (start ++ first.owed s.id told) d := by
  cases h with
  | present _ _ hkept hdue => exact .whole hkept hdue
  | finished _ hgets => exact hgets
  | lost hended hpart hrefused => exact .cut hended hpart hrefused

/-- What the relay takes up is owed to those who are there as it would be without the others. -/
theorem hear (h : Standing first s q start told d) (hfirst : first.Keeps s) (ha : d.Attended)
    (hid : s.id ∈ d.joined) (hidle : d.relay = .listening) (n : Notice) :
    Standing first s q start (told ++ [n]) (d.step (.hear n)) := by
  cases h with
  | present hk halike hkept hdue =>
    have hbefore := hfirst.after told
    have hhandler := handler_hear hidle n
    refine .present (hhandler ▸ hk.take n) ?_ ?_ ?_
    · rw [hhandler, Handler.after_snoc]
      exact halike.take hbefore.live hk.live n
    · rw [step_hear hidle, Relay.failed_take]
      exact List.not_mem_nil
    · rw [due_hear hidle, hdue, hbefore.eventsFor_take hk halike, Handler.owed_append,
        List.append_assoc]
      simp [Handler.owed]
  | finished hdone _ =>
    rw [hidle] at hdone
    cases hdone
  | lost hended hpart hrefused =>
    obtain ⟨hended', hsent⟩ := hended.step ha hid (.hear n)
    have hmore : start ++ first.owed s.id told <+: start ++ first.owed s.id (told ++ [n]) :=
      (List.prefix_append_right_inj start).mpr
        (Handler.owed_prefix s.id first (List.prefix_append told [n]))
    exact .lost hended' (hsent ▸ hpart.trans hmore) (hsent ▸ hrefused)

/-- Nothing else changes what a subscriber is owed while it stays. -/
theorem quiet (h : Standing first s q start told d) (ha : d.Attended) (hid : s.id ∈ d.joined)
    (hheeds : d.Heeds q s.id m) (hm : ∀ n, m ≠ .hear n) (hstays : m.leaves s.id = false) :
    Standing first s q start told (d.step m) := by
  have hgets := h.gets.quiet ha hid hheeds hm
  cases h with
  | present hk halike hkept hdue =>
    rcases keeps_step hk hkept hid hm hstays with hdone | ⟨hk', halike'⟩
    · exact .finished hdone hgets
    · cases hgets with
      | whole hkept' hdue' => exact .present hk' (halike.trans halike') hkept' hdue'
      | cut hended hpart hrefused => exact .lost hended hpart hrefused
  | finished hdone _ => exact .finished (relay_step_of_done hdone m) hgets
  | lost hended hpart hrefused =>
    obtain ⟨hended', hsent⟩ := hended.step ha hid m
    exact .lost hended' (hsent ▸ hpart) (hsent ▸ hrefused)

theorem step (h : Standing first s q start told d) (hfirst : first.Keeps s) (ha : d.Attended)
    (hid : s.id ∈ d.joined) (hheeds : d.Heeds q s.id m) (hstays : m.leaves s.id = false) :
    Standing first s q start (told ++ d.takes m) (d.step m) := by
  rcases d.hear_cases m with ⟨n, rfl, hidle⟩ | ⟨n, rfl, hbusy⟩ | hm
  · simpa only [takes, if_pos hidle] using h.hear hfirst ha hid hidle n
  · rw [takes_of_busy hbusy, List.append_nil, step_hear_of_busy hbusy]
    exact h
  · rw [takes_quiet hm, List.append_nil]
    exact h.quiet ha hid hheeds hm hstays

/-- Whatever happens in a run, the subscriber gets what the notices are worth that were taken up
while it was there. -/
theorem gets_run (h : Standing first s q start told d) (hfirst : first.Keeps s) (ha : d.Attended)
    (hid : s.id ∈ d.joined) (hobeys : d.Obeys q s.id moves) :
    Gets q s.id (start ++ first.owed s.id (told ++ d.told s.id moves)) (d.run moves) := by
  induction moves generalizing d told with
  | nil =>
    show Gets q s.id (start ++ first.owed s.id (told ++ [])) d
    rw [List.append_nil]
    exact h.gets
  | cons m rest ih =>
    unfold Desk.told
    cases hleaves : m.leaves s.id
    · rw [if_neg Bool.false_ne_true, ← List.append_assoc]
      exact ih (h.step hfirst ha hid hobeys.1 hleaves) (ha.step m) (d.joined_step hid m) hobeys.2
    · -- from here on the subscriber is out, and gets what was planned before
      rw [if_pos rfl, List.append_nil]
      have hm : m = .unsubscribe s.id := by
        cases m with
        | unsubscribe i => rw [eq_of_beq hleaves]
        | _ => cases hleaves
      subst hm
      have hlacks : (d.step (.unsubscribe s.id)).handler.Lacks s.id := by
        rintro t ht heq
        exact ((ha.sound.gathered.mem_foldl_detach [s.id] t).mp ht).2 (by simp [heq])
      exact (h.gets.quiet ha hid hobeys.1 (by simp)).run_of_lacks hlacks (ha.step _)
        (d.joined_step hid _) hobeys.2

end Standing

theorem Took.run {first : Nat} (h : Took q first id d) (ha : d.Attended) (hid : id ∈ d.joined)
    (hobeys : d.Obeys q id moves) : Took q first id (d.run moves) := by
  induction moves generalizing d with
  | nil => exact h
  | cons m rest ih => exact ih (h.step ha hid hobeys.1) (ha.step m) (d.joined_step hid m) hobeys.2

/-! ## Two runs -/

theorem standing_subscribe (ha : d.Attended) (hjoins : d.TakesIn s) (q : Nat → Receipt) :
    (d.step (.subscribe s)).handler.Keeps s ∧
      Standing (d.step (.subscribe s)).handler s q ((d.step (.subscribe s)).due s.id) []
        (d.step (.subscribe s)) := by
  have hkeeps : (d.step (.subscribe s)).handler.Keeps s := by
    rw [step_subscribe hjoins]
    exact ⟨(ha.sound.attach hjoins.1 s).1, hjoins.1, d.handler.mem_attach s⟩
  refine ⟨hkeeps, .present hkeeps (.refl _) ?_ (List.append_nil _).symm⟩
  rw [step_subscribe hjoins]
  exact fun hmissed => hjoins.2 (ha.missed s.id hmissed)

/-- What a run puts into the queue of somebody who has just joined is a beginning of what the
notices are worth, and all of it unless a delivery fails. -/
theorem gets_run (ha : d.Attended) (hjoins : d.TakesIn s)
    (hobeys : (d.step (.subscribe s)).Obeys q s.id moves) :
    Gets q s.id ((d.step (.subscribe s)).due s.id ++ (d.step (.subscribe s)).handler.owed s.id
        ((d.step (.subscribe s)).told s.id moves)) ((d.step (.subscribe s)).run moves) ∧
      Took q (eventsFor s.id (d.step (.subscribe s)).sent).length s.id
        ((d.step (.subscribe s)).run moves) := by
  obtain ⟨hkeeps, hstanding⟩ := standing_subscribe ha hjoins q
  have ha' := ha.step (.subscribe s)
  have hid := ha'.numbered s hkeeps.there
  refine ⟨hstanding.gets_run hkeeps ha' hid hobeys, ?_⟩
  have htook : Took q (eventsFor s.id (d.step (.subscribe s)).sent).length s.id
      (d.step (.subscribe s)) := ⟨Nat.le_refl _, fun n hn hlt => by omega⟩
  exact htook.run ha' hid hobeys

/-- Of two beginnings of the same events, the one that stopped where a queue refuses is not
shorter than one whose queue has refused less. -/
theorem prefix_of_refused {events sent₁ sent₂ : List Change} {q₁ q₂ : Nat → Receipt} {first : Nat}
    (h₁ : sent₁ <+: events) (h₂ : sent₂ <+: events)
    (hq : ∀ n, q₁ n = .accepted → q₂ n = .accepted) (hfirst : first ≤ sent₂.length)
    (htook : ∀ n, first ≤ n → n < sent₁.length → q₁ n = .accepted)
    (hend : sent₂ = events ∨ q₂ sent₂.length ≠ .accepted) : sent₁ <+: sent₂ := by
  rcases hend with rfl | hrefused
  · exact h₁
  · refine List.prefix_of_prefix_length_le h₁ h₂ ?_
    by_contra hlonger
    exact hrefused (hq _ (htook _ hfirst (by omega)))

theorem sent_prefix_of_exhausts (ha : d.Attended) (hjoins : d.TakesIn s) {q₁ q₂ : Nat → Receipt}
    {moves₁ moves₂ : List DeskMove} (hobeys₁ : (d.step (.subscribe s)).Obeys q₁ s.id moves₁)
    (hobeys₂ : (d.step (.subscribe s)).Obeys q₂ s.id moves₂)
    (hq : ∀ n, q₁ n = .accepted → q₂ n = .accepted) {items : List Notice}
    (htold : (d.step (.subscribe s)).told s.id moves₁ <+: items)
    (hall : (d.step (.subscribe s)).Exhausts s.id moves₂ items)
    (hsettled : ((d.step (.subscribe s)).run moves₂).Settled s.id) :
    eventsFor s.id ((d.step (.subscribe s)).run moves₁).sent <+:
      eventsFor s.id ((d.step (.subscribe s)).run moves₂).sent := by
  obtain ⟨hgets₁, htook₁⟩ := gets_run ha hjoins hobeys₁
  obtain ⟨hgets₂, htook₂⟩ := gets_run ha hjoins hobeys₂
  have hsub : ∀ {told : List Notice}, told <+: items →
      (d.step (.subscribe s)).due s.id ++ (d.step (.subscribe s)).handler.owed s.id told <+:
        (d.step (.subscribe s)).due s.id ++ (d.step (.subscribe s)).handler.owed s.id items :=
    fun hp => (List.prefix_append_right_inj _).mpr (Handler.owed_prefix s.id _ hp)
  refine prefix_of_refused (hgets₁.sent_prefix.trans (hsub htold))
    (hgets₂.sent_prefix.trans (hsub hall.told_prefix)) hq htook₂.start htook₁.accepted ?_
  rcases hall with heq | ⟨-, hfails⟩
  · rw [← heq]
    exact hgets₂.sent_of_settled hsettled
  · exact .inr (hfails.refused (ha.step _) hobeys₂)

/-- Two runs of a handler from the moment in which a subscriber joins. If both take up the same
notices while it is there, and its queue behaves the same, then it is sent the same, whatever the
others do. If its queue is only less willing, it is sent a beginning of what it would be sent, and
after the first delivery that fails nothing more. -/
theorem subscribers_isolated (target : Target) {before : List DeskMove} {s : Subscriber}
    (hjoins : ((start target).run before).TakesIn s) {d : Desk}
    (hd : (start target).run (before ++ [.subscribe s]) = d) {q₁ q₂ : Nat → Receipt}
    {moves₁ moves₂ : List DeskMove} (hobeys₁ : d.Obeys q₁ s.id moves₁)
    (hobeys₂ : d.Obeys q₂ s.id moves₂) (items : List Notice) :
    (q₁ = q₂ → d.Exhausts s.id moves₁ items → d.Exhausts s.id moves₂ items →
      (d.run moves₁).Settled s.id → (d.run moves₂).Settled s.id →
        eventsFor s.id (d.run moves₁).sent = eventsFor s.id (d.run moves₂).sent) ∧
    ((∀ n, q₁ n = .accepted → q₂ n = .accepted) → d.told s.id moves₁ <+: items →
      d.Exhausts s.id moves₂ items → (d.run moves₂).Settled s.id →
        eventsFor s.id (d.run moves₁).sent <+: eventsFor s.id (d.run moves₂).sent) ∧
    ∀ earlier receipt later, moves₁ = earlier ++ .deliver receipt :: later →
      (d.run earlier).Serves s.id → receipt ≠ .accepted →
        eventsFor s.id (d.run moves₁).sent = eventsFor s.id (d.run earlier).sent := by
  rw [run_snoc] at hd
  have ha : ((start target).run before).Attended := (Attended.start target).run before
  generalize (start target).run before = d₀ at *
  subst hd
  refine ⟨?_, ?_, ?_⟩
  · rintro rfl hall₁ hall₂ hsettled₁ hsettled₂
    have hle := sent_prefix_of_exhausts ha hjoins hobeys₁ hobeys₂ (fun _ => id) hall₁.told_prefix
      hall₂ hsettled₂
    have hge := sent_prefix_of_exhausts ha hjoins hobeys₂ hobeys₁ (fun _ => id) hall₂.told_prefix
      hall₁ hsettled₁
    exact hle.sublist.antisymm hge.sublist
  · intro hq hp hall₂ hsettled₂
    exact sent_prefix_of_exhausts ha hjoins hobeys₁ hobeys₂ hq hp hall₂ hsettled₂
  · rintro earlier receipt later rfl hserves hr
    exact sent_run_of_failed (ha.step _) hserves hr

/-- Two changes of a resource, as a connection tells them. -/
def twoChanges : List Notice :=
  let a (version : String) : Record := { Record.empty with name := "a", version }
  [.event (.ofRecord .added (a "1")), .event (.ofRecord .modified (a "2"))]

/-- Somebody else reads too slowly and is taken out. -/
def stalledRun : List DeskMove :=
  (twoChanges.take 1).map .hear ++ [.deliver .late, .deliver .accepted, .conclude] ++
    (twoChanges.drop 1).map .hear ++ [.deliver .accepted, .conclude]

/-- Somebody else leaves, and another one comes who goes away without reading. -/
def departedRun : List DeskMove :=
  [.unsubscribe 1, .subscribe ⟨9, .everything⟩] ++ (twoChanges.take 1).map .hear ++
    [.deliver .accepted, .deliver .gone, .conclude] ++ (twoChanges.drop 1).map .hear ++
    [.deliver .accepted, .conclude]

/-- The subscriber itself reads too slowly for the second change. -/
def refusedRun : List DeskMove :=
  (twoChanges.take 1).map .hear ++ [.deliver .accepted, .deliver .accepted, .conclude] ++
    (twoChanges.drop 1).map .hear ++ [.deliver .accepted, .deliver .late, .conclude]

theorem subscribers_isolated_stalledRun :
    let before : List DeskMove := [.subscribe ⟨1, .everything⟩, .hear (.opened false)]
    let d := (start ⟨"v1/Pod", none⟩).run (before ++ [.subscribe ⟨7, .everything⟩])
    eventsFor 7 (d.run stalledRun).sent = eventsFor 7 (d.run departedRun).sent ∧
    (eventsFor 7 (d.run stalledRun).sent).map (·.kind) = [.added, .modified] ∧
    eventsFor 7 (d.run refusedRun).sent <+: eventsFor 7 (d.run departedRun).sent ∧
    (eventsFor 7 (d.run refusedRun).sent).map (·.kind) = [.added] := by
  intro before d
  have hjoins : ((start ⟨"v1/Pod", none⟩).run before).TakesIn ⟨7, .everything⟩ := by
    unfold TakesIn
    decide
  have hobeys₁ : d.Obeys (fun _ => .accepted) 7 stalledRun := by decide
  have hobeys₂ : d.Obeys (fun _ => .accepted) 7 departedRun := by decide
  have hobeys₃ : d.Obeys (fun n => if n = 0 then .accepted else .late) 7 refusedRun := by decide
  have hsame := (subscribers_isolated ⟨"v1/Pod", none⟩ hjoins rfl hobeys₁ hobeys₂ twoChanges).1
  have hpart := (subscribers_isolated ⟨"v1/Pod", none⟩ hjoins rfl hobeys₃ hobeys₂ twoChanges).2.1
  have hstalled : (d.run stalledRun).Settled 7 := by
    unfold Settled
    decide
  have hdeparted : (d.run departedRun).Settled 7 := by
    unfold Settled
    decide
  have hitems : d.told 7 stalledRun = twoChanges ∧ d.told 7 departedRun = twoChanges ∧
      d.told 7 refusedRun = twoChanges := by decide
  refine ⟨?_, by decide, ?_, by decide⟩
  · exact hsame rfl (.inl hitems.1) (.inl hitems.2.1) hstalled hdeparted
  · exact hpart (fun _ _ => rfl) (hitems.2.2 ▸ List.prefix_refl _) (.inl hitems.2.1) hdeparted

end Desk

end SharedWatch
