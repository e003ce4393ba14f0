import SharedWatch.Proofs.Office

/-!
The stream of one subscriber, move by move.

`Desk.due` is what a subscriber was sent and what is still planned for it. `stream_step` says once
what a move can do to it: more is planned when the relay takes something up, a delivery turns what
is planned into what was sent, and a delivery that fails ends the stream where it is. Nothing here
is asked of the server, so what the relay takes up may be anything.
-/

namespace SharedWatch

theorem eventsFor_cons_self (d : Delivery) (plan : List Delivery) :
    eventsFor d.subscriber (d :: plan) = d.event :: eventsFor d.subscriber plan := by
  simp [eventsFor]

namespace Handler

/-- Whether nobody in the handler has a number. -/
def Lacks (h : Handler) (id : Nat) : Prop := ∀ s ∈ h.chain.oldest.subscribers, s.id ≠ id

variable {h h' h'' : Handler} {id : Nat}

theorem Shrinks.refl (h : Handler) : h.Shrinks h := ⟨rfl, id, fun _ => id, fun _ => id⟩

theorem Shrinks.trans (hs : h.Shrinks h') (hs' : h'.Shrinks h'') : h.Shrinks h'' where
  target := hs'.target.trans hs.target
  stopped := fun hstopped => hs'.stopped (hs.stopped hstopped)
  subset := fun s hmem => hs.subset s (hs'.subset s hmem)
  occupied := by
    intro hlive hoccupied
    have hlive' : h'.stopped = false := by
      cases hstopped : h'.stopped
      · rfl
      · rw [hs'.stopped hstopped] at hlive
        cases hlive
    exact hs'.occupied hlive (hs.occupied hlive' hoccupied)

theorem Shrinks.lacks (hs : h.Shrinks h') (hlacks : h.Lacks id) : h'.Lacks id :=
  fun s hmem => hlacks s (hs.subset s hmem)

theorem Sound.conclude (hs : h.Sound) (failed : List Nat) (terminal : Bool) :
    (Relay.conclude h failed terminal).1.Sound ∧
      h.Shrinks (Relay.conclude h failed terminal).1 := by
  obtain ⟨hsound, hshrinks⟩ := hs.remove failed
  unfold Relay.conclude
  cases terminal
  · exact ⟨hsound, hshrinks⟩
  · obtain ⟨hsound', hshrinks'⟩ := (h.remove failed).shutdown_sound
    exact ⟨hsound', hshrinks.trans hshrinks'⟩

/-- Those who have failed are out once a plan is ended. -/
theorem Sound.lacks_conclude (hs : h.Sound) {failed : List Nat} (hid : id ∈ failed)
    (terminal : Bool) : (Relay.conclude h failed terminal).1.Lacks id := by
  have hremoved : (h.remove failed).Lacks id := by
    rintro s hmem rfl
    exact ((hs.gathered.mem_foldl_detach failed s).mp hmem).2 hid
  unfold Relay.conclude
  cases terminal
  · exact hremoved
  · exact (h.remove failed).shutdown_sound.2.lacks hremoved

/-- Nothing is planned for a number that nobody has. -/
theorem Sound.eventsFor_take_of_lacks (hs : h.Sound) (hlacks : h.Lacks id) (n : Notice) :
    eventsFor id (Relay.take h n).2.planned = [] := by
  cases n with
  | opened resumed => rfl
  | event e =>
    show eventsFor id (h.plan e).2 = []
    cases hlive : h.stopped with
    | false =>
      rw [Serving.plan_of_live hlive]
      exact hs.gathered.eventsFor_dispatch_of_absent hlacks e
    | true =>
      rw [Serving.plan_of_stopped hlive]
      rfl

end Handler

namespace Relay

@[simp] theorem planned_listening : planned .listening = [] := rfl

@[simp] theorem planned_done : planned .done = [] := rfl

@[simp] theorem planned_delivering (plan : List Delivery) (failed : List Nat) (terminal : Bool) :
    planned (.delivering plan failed terminal) = plan := rfl

@[simp] theorem failed_listening : failed .listening = [] := rfl

@[simp] theorem failed_done : failed .done = [] := rfl

@[simp] theorem failed_delivering (plan : List Delivery) (missed : List Nat) (terminal : Bool) :
    failed (.delivering plan missed terminal) = missed := rfl

@[simp] theorem failed_take (h : Handler) (n : Notice) : (take h n).2.failed = [] := by
  cases n <;> rfl

@[simp] theorem planned_conclude (h : Handler) (failed : List Nat) (terminal : Bool) :
    (conclude h failed terminal).2.planned = [] := by
  cases terminal <;> rfl

@[simp] theorem failed_conclude (h : Handler) (missed : List Nat) (terminal : Bool) :
    (conclude h missed terminal).2.failed = [] := by
  cases terminal <;> rfl

/-- What comes next after passing over is for somebody who has missed nothing. -/
theorem next_passOver (failed : List Nat) (plan : List Delivery) :
    ∀ x ∈ (passOver failed plan).head?, x.subscriber ∉ failed := by
  intro x hx
  have hnot := List.head?_dropWhile_not (fun y : Delivery => failed.contains y.subscriber) plan
  rw [Option.mem_def] at hx
  unfold passOver at hx
  rw [hx] at hnot
  simpa using hnot

end Relay

namespace Desk

/-- Whether a subscriber would be taken in. -/
def TakesIn (d : Desk) (s : Subscriber) : Prop := d.handler.stopped = false ∧ s.id ∉ d.joined

/-- What a subscriber was sent, and what is planned for it unless it has missed a delivery. -/
def due (d : Desk) (id : Nat) : List Change :=
  if id ∈ d.relay.failed then eventsFor id d.sent else eventsFor id d.given

/-- Whether the next delivery is for a subscriber. -/
def Serves (d : Desk) (id : Nat) : Prop := ∃ x ∈ d.relay.planned.head?, x.subscriber = id

/-- What every move keeps, whatever is taken up: everybody in the handler has joined, nothing is for
anybody who has not, and the next delivery is for somebody who has missed none. -/
structure Attended (d : Desk) : Prop where
  sound : d.handler.Sound
  numbered : ∀ s ∈ d.handler.chain.oldest.subscribers, s.id ∈ d.joined
  unknown : ∀ id, id ∉ d.joined → eventsFor id d.given = []
  missed : ∀ id ∈ d.relay.failed, id ∈ d.joined
  next : ∀ x ∈ d.relay.planned.head?, x.subscriber ∉ d.relay.failed

variable {d : Desk} {id : Nat} {m : DeskMove}

/-! ## Who is there -/

theorem step_subscribe {s : Subscriber} (hs : d.TakesIn s) :
    d.step (.subscribe s) =
      { d with
        handler := d.handler.attach s
        joined := d.joined ++ [s.id]
        sent := d.sent ++ (d.handler.primed s.filter).map fun e => ⟨s.id, e⟩ } := by
  simp only [step]
  rw [if_neg]
  rintro (hstopped | hjoined)
  · rw [hs.1] at hstopped
    cases hstopped
  · exact hs.2 hjoined

theorem step_subscribe_of_not {s : Subscriber} (hs : ¬ d.TakesIn s) :
    d.step (.subscribe s) = d := by
  simp only [step]
  rw [if_pos]
  by_contra hfree
  rw [not_or, Bool.not_eq_true] at hfree
  exact hs hfree

/-- A move lets nobody into the handler, or takes in one who has not joined before. -/
theorem handler_step (hs : d.handler.Sound) (m : DeskMove) :
    (d.step m).handler.Sound ∧
      (d.handler.Shrinks (d.step m).handler ∨
        ∃ s, m = .subscribe s ∧ d.TakesIn s ∧ (d.step m).handler = d.handler.attach s) := by
  have hself : d.handler.Sound ∧ (d.handler.Shrinks d.handler ∨
      ∃ s, m = .subscribe s ∧ d.TakesIn s ∧ d.handler = d.handler.attach s) :=
    ⟨hs, .inl (.refl _)⟩
  cases m with
  | hear n =>
    by_cases hidle : d.relay = .listening
    · rw [step_hear hidle]
      exact (hs.take n).imp_right .inl
    · rw [step_hear_of_busy hidle]
      exact hself
  | deliver receipt =>
    simp only [step]
    split <;> exact hself
  | conclude =>
    simp only [step]
    split
    · next failed terminal _ => exact (hs.conclude failed terminal).imp_right .inl
    · exact hself
  | hangUp =>
    simp only [step]
    split
    · exact d.handler.shutdown_sound.imp_right .inl
    · exact hself
  | halt =>
    simp only [step]
    split <;> exact hself
  | subscribe s =>
    by_cases hjoins : d.TakesIn s
    · rw [step_subscribe hjoins]
      exact ⟨(hs.attach hjoins.1 s).1, .inr ⟨s, rfl, hjoins, rfl⟩⟩
    · rw [step_subscribe_of_not hjoins]
      exact ⟨hs, .inl (.refl _)⟩
  | unsubscribe i => exact (hs.remove [i]).imp_right .inl

theorem joined_step (d : Desk) (hid : id ∈ d.joined) (m : DeskMove) : id ∈ (d.step m).joined := by
  cases m with
  | subscribe s =>
    by_cases hjoins : d.TakesIn s
    · rw [step_subscribe hjoins]
      exact List.mem_append_left _ hid
    · rwa [step_subscribe_of_not hjoins]
  | unsubscribe i => exact hid
  | _ =>
    simp only [step]
    split <;> exact hid

/-- Whoever is in the handler after a move was there before it, or has just joined. -/
theorem mem_step (hs : d.handler.Sound) {t : Subscriber}
    (ht : t ∈ (d.step m).handler.chain.oldest.subscribers) :
    t ∈ d.handler.chain.oldest.subscribers ∨ m = .subscribe t ∧ d.TakesIn t := by
  rcases (handler_step hs m).2 with hshrinks | ⟨s, rfl, hjoins, hattach⟩
  · exact Or.inl (hshrinks.subset t ht)
  · rw [hattach] at ht
    rcases (hs.attach hjoins.1 s).2 t ht with rfl | hold
    · exact Or.inr ⟨rfl, hjoins⟩
    · exact Or.inl hold

/-- Whoever has left does not come back. -/
theorem lacks_step (hs : d.handler.Sound) (hid : id ∈ d.joined) (hlacks : d.handler.Lacks id) :
    (d.step m).handler.Lacks id := by
  rintro t ht rfl
  rcases mem_step hs ht with hold | ⟨-, hjoins⟩
  · exact hlacks t hold rfl
  · exact hjoins.2 hid

/-! ## What every move keeps -/

/-- Apart from what is taken up and who joins, a move only drops deliveries. -/
theorem given_step_sublist (hhear : ∀ n, m ≠ .hear n) (hjoin : ∀ s, m ≠ .subscribe s) :
    (d.step m).given.Sublist d.given := by
  have hself : d.given.Sublist d.given := List.Sublist.refl _
  cases m with
  | hear n => exact absurd rfl (hhear n)
  | subscribe s => exact absurd rfl (hjoin s)
  | deliver receipt =>
    simp only [step]
    split
    · next x rest failed terminal hrelay =>
      simp only [given, hrelay, Relay.planned_delivering]
      by_cases hr : receipt = .accepted
      · subst hr
        simp only [if_true, Relay.note, Relay.planned_delivering, List.append_assoc,
          List.singleton_append]
        exact ((Relay.passOver_sublist failed rest).cons_cons x).append_left _
      · rw [if_neg hr, Relay.note_missed hr]
        exact ((Relay.passOver_sublist _ rest).trans (List.sublist_cons_self x rest)).append_left _
    · exact hself
  | conclude =>
    simp only [step]
    split
    · next hrelay => simp [given, hrelay]
    · exact hself
  | hangUp =>
    simp only [step]
    split
    · next hrelay => simp [given, hrelay]
    · exact hself
  | halt =>
    simp only [step]
    split
    · next hrelay _ => simp [given, hrelay]
    · exact hself
  | unsubscribe i => exact hself

theorem given_hear (hidle : d.relay = .listening) (n : Notice) :
    (d.step (.hear n)).given = d.given ++ (Relay.take d.handler n).2.planned := by
  rw [step_hear hidle]
  simp [given, hidle]

theorem eventsFor_given_subscribe (ha : d.Attended) {s : Subscriber} (hs : d.TakesIn s) :
    eventsFor id (d.step (.subscribe s)).given =
      if s.id = id then d.handler.primed s.filter else eventsFor id d.given := by
  rw [step_subscribe hs]
  simp only [given, eventsFor_append, eventsFor_address]
  split
  · next heq =>
    -- the number is new, so nothing was sent to it and nothing is planned for it
    subst heq
    have hnothing := ha.unknown s.id hs.2
    rw [given, eventsFor_append, List.append_eq_nil_iff] at hnothing
    rw [hnothing.1, hnothing.2]
    simp
  · simp

namespace Attended

theorem start (target : Target) : Attended (.start target) where
  sound := Handler.new_sound target
  numbered := by simp [Desk.start, Handler.new, Chain.first, Chain.oldest, Generation.new]
  unknown := by simp [Desk.start, given]
  missed := by simp [Desk.start]
  next := by simp [Desk.start]

theorem unknown_step (ha : d.Attended) (m : DeskMove) (hid : id ∉ (d.step m).joined) :
    eventsFor id (d.step m).given = [] := by
  have hbefore : id ∉ d.joined := fun hold => hid (d.joined_step hold m)
  have hlacks : d.handler.Lacks id := by
    rintro s hmem rfl
    exact hbefore (ha.numbered s hmem)
  rcases d.hear_cases m with ⟨n, rfl, hidle⟩ | ⟨n, rfl, hbusy⟩ | hhear
  · rw [given_hear hidle, eventsFor_append, ha.unknown id hbefore,
      ha.sound.eventsFor_take_of_lacks hlacks, List.append_nil]
  · rw [step_hear_of_busy hbusy]
    exact ha.unknown id hbefore
  · by_cases hjoin : ∃ s, m = .subscribe s
    · obtain ⟨s, rfl⟩ := hjoin
      by_cases hs : d.TakesIn s
      · rw [eventsFor_given_subscribe ha hs, if_neg, ha.unknown id hbefore]
        rintro rfl
        rw [step_subscribe hs] at hid
        exact hid (by simp)
      · rw [step_subscribe_of_not hs]
        exact ha.unknown id hbefore
    · have hsub := given_step_sublist (d := d) hhear fun s hs => hjoin ⟨s, hs⟩
      have hle := eventsFor_sublist hsub id
      rw [ha.unknown id hbefore] at hle
      exact List.sublist_nil.mp hle

/-- Only the failure of a delivery makes somebody miss one, and the next delivery is then for
another. -/
theorem relay_step (ha : d.Attended) (m : DeskMove) :
    (∀ id ∈ (d.step m).relay.failed, id ∈ d.joined) ∧
      ∀ x ∈ (d.step m).relay.planned.head?, x.subscriber ∉ (d.step m).relay.failed := by
  have hself : (∀ id ∈ d.relay.failed, id ∈ d.joined) ∧
      ∀ x ∈ d.relay.planned.head?, x.subscriber ∉ d.relay.failed := ⟨ha.missed, ha.next⟩
  cases m with
  | hear n =>
    by_cases hidle : d.relay = .listening
    · rw [step_hear hidle]
      simp
    · rw [step_hear_of_busy hidle]
      exact hself
  | deliver receipt =>
    simp only [step]
    split
    · next x rest failed terminal hrelay =>
      have hmissed := ha.missed
      rw [hrelay, Relay.failed_delivering] at hmissed
      by_cases hr : receipt = .accepted
      · subst hr
        rw [hrelay]
        exact ⟨hmissed, Relay.next_passOver failed rest⟩
      · rw [hrelay, Relay.note_missed hr]
        refine ⟨?_, Relay.next_passOver _ rest⟩
        intro i hi
        rcases List.mem_append.mp hi with hi | hi
        · exact hmissed i hi
        · -- a delivery is only planned for somebody who has joined
          rw [List.mem_singleton.mp hi]
          by_contra hnew
          have hnothing := ha.unknown x.subscriber hnew
          have hmem : x.event ∈ eventsFor x.subscriber d.given :=
            mem_eventsFor.mpr (by simp [given, hrelay])
          rw [hnothing] at hmem
          cases hmem
    · exact hself
  | conclude =>
    simp only [step]
    split
    · simp
    · exact hself
  | hangUp =>
    simp only [step]
    split
    · simp
    · exact hself
  | halt =>
    simp only [step]
    split
    · simp
    · exact hself
  | subscribe s =>
    simp only [step]
    split <;> exact hself
  | unsubscribe i => exact hself

theorem step (ha : d.Attended) (m : DeskMove) : (d.step m).Attended := by
  refine ⟨(handler_step ha.sound m).1, ?_, fun id => ha.unknown_step m, ?_, (ha.relay_step m).2⟩
  · intro s hmem
    rcases mem_step ha.sound hmem with hold | ⟨rfl, hjoins⟩
    · exact d.joined_step (ha.numbered s hold) m
    · rw [step_subscribe hjoins]
      simp
  · intro id hid
    exact d.joined_step ((ha.relay_step m).1 id hid) m

theorem run (ha : d.Attended) (moves : List DeskMove) : (d.run moves).Attended := by
  induction moves generalizing d with
  | nil => exact ha
  | cons m moves ih => exact ih (ha.step m)

end Attended

/-! ## The stream of one subscriber -/

theorem due_of_mem (hid : id ∈ d.relay.failed) : d.due id = eventsFor id d.sent := if_pos hid

theorem due_of_not_mem (hid : id ∉ d.relay.failed) : d.due id = eventsFor id d.given := if_neg hid

theorem due_of_rest (h : d.relay.planned = []) : d.due id = eventsFor id d.sent := by
  unfold due
  rw [given_of_idle h, ite_self]

theorem sent_prefix_due (d : Desk) (id : Nat) : eventsFor id d.sent <+: d.due id := by
  unfold due
  split
  · exact List.prefix_refl _
  · rw [given, eventsFor_append]
    exact List.prefix_append _ _

theorem sent_hear (d : Desk) (n : Notice) : (d.step (.hear n)).sent = d.sent := by
  simp only [step]
  split <;> rfl

theorem due_hear (hidle : d.relay = .listening) (n : Notice) :
    (d.step (.hear n)).due id =
      d.due id ++ eventsFor id (Relay.take d.handler n).2.planned := by
  have hfailed : (d.step (.hear n)).relay.failed = [] := by
    rw [step_hear hidle]
    exact Relay.failed_take d.handler n
  rw [due_of_not_mem (by simp [hfailed]), due_of_not_mem (by simp [hidle]), given_hear hidle,
    eventsFor_append]

/-- What one move does to the stream of somebody who has joined. -/
inductive StreamStep (d : Desk) (id : Nat) : DeskMove → Prop where
  /-- More is planned: see `due_hear`. -/
  | planned (n : Notice) (hidle : d.relay = .listening) : StreamStep d id (.hear n)
  | sent (e : Change) (hserves : d.Serves id) (hkept : id ∉ d.relay.failed)
      (hsent : eventsFor id (d.step (.deliver .accepted)).sent = eventsFor id d.sent ++ [e])
      (hdue : (d.step (.deliver .accepted)).due id = d.due id)
      (hkept' : id ∉ (d.step (.deliver .accepted)).relay.failed) :
      StreamStep d id (.deliver .accepted)
  /-- A delivery fails, and nothing more is sent. -/
  | lost (receipt : Receipt) (hr : receipt ≠ .accepted) (hserves : d.Serves id)
      (hkept : id ∉ d.relay.failed)
      (hsent : eventsFor id (d.step (.deliver receipt)).sent = eventsFor id d.sent)
      (hfailed : id ∈ (d.step (.deliver receipt)).relay.failed) : StreamStep d id (.deliver receipt)
  /-- The move is about others. Whoever has missed a delivery still counts as failed, or is out. -/
  | other (m : DeskMove) (hsent : eventsFor id (d.step m).sent = eventsFor id d.sent)
      (hdue : (d.step m).due id = d.due id)
      (hfailed : id ∈ (d.step m).relay.failed → id ∈ d.relay.failed)
      (hout : id ∈ d.relay.failed →
        id ∈ (d.step m).relay.failed ∨ (d.step m).handler.Lacks id) : StreamStep d id m

theorem StreamStep.still (h : d.step m = d) : StreamStep d id m :=
  .other m (by rw [h]) (by rw [h]) (by rw [h]; exact fun hid => hid) (by rw [h]; exact .inl)

theorem streamStep_deliver (ha : d.Attended) (receipt : Receipt) :
    StreamStep d id (.deliver receipt) := by
  cases hrelay : d.relay with
  | listening => exact .still (by simp only [step, hrelay])
  | done => exact .still (by simp only [step, hrelay])
  | delivering plan failed terminal =>
    cases plan with
    | nil => exact .still (by simp only [step, hrelay])
    | cons x rest =>
      have hnext : x.subscriber ∉ failed := by
        have := ha.next
        rw [hrelay] at this
        exact this x rfl
      have hstep : d.step (.deliver receipt) = { d with
          relay := d.relay.note receipt
          sent := if receipt = .accepted then d.sent ++ [x] else d.sent } := by
        simp only [step, hrelay]
      by_cases hx : x.subscriber = id
      · subst hx
        have hserves : d.Serves x.subscriber := ⟨x, by simp [hrelay], rfl⟩
        have hkept : x.subscriber ∉ d.relay.failed := by rwa [hrelay]
        by_cases hr : receipt = .accepted
        · subst hr
          rw [if_pos rfl, hrelay] at hstep
          have hkept' : x.subscriber ∉ (d.step (.deliver .accepted)).relay.failed := by
            rw [hstep]
            exact hnext
          refine .sent x.event hserves hkept ?_ ?_ hkept'
          · rw [hstep, eventsFor_append, eventsFor_cons_self, eventsFor_nil]
          · rw [due_of_not_mem hkept, due_of_not_mem hkept', hstep]
            simp only [given, Relay.note, Relay.planned_delivering, hrelay, eventsFor_append,
              Relay.eventsFor_passOver hnext, eventsFor_cons_self, List.append_assoc,
              List.singleton_append]
        · rw [if_neg hr, hrelay, Relay.note_missed hr] at hstep
          exact .lost receipt hr hserves hkept (by rw [hstep]) (by rw [hstep]; simp)
      · -- the delivery is for somebody else
        have hsent : eventsFor id (d.step (.deliver receipt)).sent = eventsFor id d.sent := by
          rw [hstep]
          split
          · rw [eventsFor_append, eventsFor_cons_of_ne hx, eventsFor_nil, List.append_nil]
          · rfl
        have hfailed : id ∈ (d.step (.deliver receipt)).relay.failed ↔ id ∈ d.relay.failed := by
          rw [hstep, hrelay]
          by_cases hr : receipt = .accepted
          · subst hr
            rfl
          · rw [Relay.note_missed hr]
            simp [Ne.symm hx]
        refine .other _ hsent ?_ hfailed.mp fun hid => .inl (hfailed.mpr hid)
        by_cases hid : id ∈ d.relay.failed
        · rw [due_of_mem hid, due_of_mem (hfailed.mpr hid), hsent]
        · have hid' : id ∉ (d.step (.deliver receipt)).relay.failed := fun h => hid (hfailed.mp h)
          have hplanned : eventsFor id (d.step (.deliver receipt)).relay.planned =
              eventsFor id d.relay.planned := by
            rw [hstep, hrelay] at hid' ⊢
            rw [Relay.planned_delivering, eventsFor_cons_of_ne hx]
            by_cases hr : receipt = .accepted
            · subst hr
              exact Relay.eventsFor_passOver hid' rest
            · rw [Relay.note_missed hr] at hid' ⊢
              exact Relay.eventsFor_passOver hid' rest
          rw [due_of_not_mem hid, due_of_not_mem hid', given, given, eventsFor_append,
            eventsFor_append, hsent, hplanned]

/-- What a move can do to the stream of somebody who has joined. -/
theorem stream_step (ha : d.Attended) (hid : id ∈ d.joined) (m : DeskMove) :
    StreamStep d id m := by
  cases m with
  | hear n =>
    by_cases hidle : d.relay = .listening
    · exact .planned n hidle
    · exact .still (step_hear_of_busy hidle n)
  | deliver receipt => exact streamStep_deliver ha receipt
  | conclude =>
    cases hrelay : d.relay with
    | listening => exact .still (by simp only [step, hrelay])
    | done => exact .still (by simp only [step, hrelay])
    | delivering plan failed terminal =>
      cases plan with
      | cons x rest => exact .still (by simp only [step, hrelay])
      | nil =>
        have hstep : d.step .conclude = { d with
            handler := (Relay.conclude d.handler failed terminal).1
            relay := (Relay.conclude d.handler failed terminal).2 } := by
          simp only [step, hrelay]
        refine .other _ (by rw [hstep]) ?_ (by rw [hstep]; simp) ?_
        · rw [due_of_rest (by rw [hstep]; simp), due_of_rest (by simp [hrelay]), hstep]
        · intro hmissed
          rw [hstep]
          exact .inr (ha.sound.lacks_conclude (by simpa [hrelay] using hmissed) terminal)
  | hangUp =>
    cases hrelay : d.relay with
    | listening =>
      refine .other _ ?_ ?_ ?_ ?_ <;> simp [step, due, given, hrelay]
    | delivering _ _ _ => exact .still (by simp only [step, hrelay])
    | done => exact .still (by simp only [step, hrelay])
  | halt =>
    cases hrelay : d.relay with
    | listening =>
      cases hstopped : d.handler.stopped
      · exact .still (by simp only [step, hrelay, hstopped])
      · refine .other _ ?_ ?_ ?_ ?_ <;> simp [step, due, given, hrelay, hstopped]
    | delivering _ _ _ => exact .still (by simp only [step, hrelay])
    | done => exact .still (by simp only [step, hrelay])
  | subscribe s =>
    by_cases hs : d.TakesIn s
    swap
    · exact .still (step_subscribe_of_not hs)
    have hne : s.id ≠ id := by
      rintro rfl
      exact hs.2 hid
    have hsent : eventsFor id (d.step (.subscribe s)).sent = eventsFor id d.sent := by
      rw [step_subscribe hs, eventsFor_append, eventsFor_address, if_neg hne, List.append_nil]
    have hrelay : (d.step (.subscribe s)).relay = d.relay := by rw [step_subscribe hs]
    refine .other _ hsent ?_ (by rw [hrelay]; exact fun h => h) (by rw [hrelay]; exact .inl)
    unfold due
    rw [hrelay, hsent, eventsFor_given_subscribe ha hs, if_neg hne]
  | unsubscribe i => exact .other _ rfl rfl (fun h => h) .inl

/-- Nothing but what is taken up adds to a stream. -/
theorem due_quiet (ha : d.Attended) (hid : id ∈ d.joined) (hm : ∀ n, m ≠ .hear n) :
    (d.step m).due id <+: d.due id := by
  cases stream_step ha hid m with
  | planned n _ => exact absurd rfl (hm n)
  | sent _ _ _ _ hdue _ => exact hdue ▸ List.prefix_refl _
  | lost receipt _ _ _ hsent hfailed =>
    rw [due_of_mem hfailed, hsent]
    exact d.sent_prefix_due id
  | other _ _ hdue _ _ => exact hdue ▸ List.prefix_refl _

/-- A subscriber starts with what the snapshot holds for it. -/
theorem due_subscribe (ha : d.Attended) {s : Subscriber} (hs : d.TakesIn s) :
    (d.step (.subscribe s)).due s.id = d.handler.primed s.filter := by
  have hrelay : (d.step (.subscribe s)).relay = d.relay := by rw [step_subscribe hs]
  rw [due_of_not_mem, eventsFor_given_subscribe ha hs, if_pos rfl]
  rw [hrelay]
  exact fun hmissed => hs.2 (ha.missed s.id hmissed)

end Desk

end SharedWatch
