import SharedWatch.Proofs.Stream

/-!
The end of a shared watch whose connection failed.

The relay plans the error for everybody who is there, makes the deliveries, takes out those who have
missed one, and then closes every queue. The handler takes subscribers in until that last step.

Main statement: `failure_told`. Whoever had joined when the error was planned, and is still there
when the queues are closed, reads the error last, whatever its filter. Whoever joined in between is
closed without a word (`late_joiner_untold`).
-/

namespace SharedWatch

/-- Whether a relay hands out an event after which the handler ends. -/
def Relay.Ending (r : Relay) : Prop := ∃ plan failed, r = .delivering plan failed true

namespace Desk

/-- Whether a failure is being handed out: those of `early` who have missed nothing have it last in
their streams, and no other stream has an error. -/
structure Announces (d : Desk) (early : List Nat) (e : Change) : Prop where
  ending : d.relay.Ending
  joined : ∀ id ∈ early, id ∈ d.joined
  told : ∀ s ∈ d.handler.chain.oldest.subscribers, s.id ∉ d.relay.failed → s.id ∈ early →
    (d.due s.id).getLast? = some e
  untold : ∀ s ∈ d.handler.chain.oldest.subscribers, s.id ∉ d.relay.failed → s.id ∉ early →
    ∀ f ∈ d.due s.id, f.kind ≠ .error

variable {d : Desk} {e : Change} {early : List Nat} {m : DeskMove}

/-- A failure is planned for everybody who is there. -/
theorem announces_hear (ha : d.Attended) (hidle : d.relay = .listening) (he : e.kind = .error) :
    (d.step (.hear (.event e))).Announces d.joined e := by
  have hthere : ∀ s ∈ (d.step (.hear (.event e))).handler.chain.oldest.subscribers,
      s ∈ d.handler.chain.oldest.subscribers := by
    intro s hs
    exact (mem_step ha.sound hs).resolve_right fun h => by cases h.1
  refine ⟨?_, fun id hid => d.joined_step hid _, ?_, ?_⟩
  · refine ⟨(d.handler.plan e).2, [], ?_⟩
    rw [step_hear hidle]
    simp only [Relay.take, he, decide_true]
  · intro s hs _ _
    have hmem := hthere s hs
    have hlive := ha.sound.live_of_mem hmem
    have hplan : eventsFor s.id (Relay.take d.handler (.event e)).2.planned = [e] := by
      show eventsFor s.id (d.handler.plan e).2 = [e]
      rw [Serving.plan_of_live hlive]
      exact ha.sound.gathered.eventsFor_error hmem he
    rw [due_hear hidle, hplan, List.getLast?_concat]
  · intro s hs _ hlate
    exact absurd (ha.numbered s (hthere s hs)) hlate

/-- While a plan is handed out, the stream of somebody who stays and has missed nothing is settled.
-/
theorem due_step_of_busy (ha : d.Attended) (hbusy : d.relay ≠ .listening) {s : Subscriber}
    (hs : s ∈ d.handler.chain.oldest.subscribers)
    (hs' : s ∈ (d.step m).handler.chain.oldest.subscribers)
    (hkept : s.id ∉ (d.step m).relay.failed) :
    s.id ∉ d.relay.failed ∧ (d.step m).due s.id = d.due s.id := by
  cases stream_step ha (ha.numbered s hs) m with
  | planned n hidle => exact absurd hidle hbusy
  | sent _ _ hbefore _ hdue _ => exact ⟨hbefore, hdue⟩
  | lost _ _ _ _ _ hfailed => exact absurd hfailed hkept
  | other _ _ hdue _ hout =>
    refine ⟨fun hmissed => ?_, hdue⟩
    rcases hout hmissed with hfailed | hlacks
    · exact hkept hfailed
    · exact hlacks s hs' rfl

/-- A failure is handed out from the move on in which the relay takes it up. -/
theorem ending_of_step (h : (d.step m).relay.Ending) :
    d.relay.Ending ∨ ∃ e, m = .hear (.event e) ∧ d.relay = .listening ∧ e.kind = .error := by
  obtain ⟨plan, failed, hrelay⟩ := h
  cases m with
  | hear n =>
    by_cases hidle : d.relay = .listening
    · rw [step_hear hidle] at hrelay
      cases n with
      | opened resumed => cases hrelay
      | event e =>
        simp only [Relay.take, Relay.delivering.injEq, decide_eq_true_eq] at hrelay
        exact .inr ⟨e, rfl, hidle, hrelay.2.2⟩
    · rw [step_hear_of_busy hidle] at hrelay
      exact .inl ⟨plan, failed, hrelay⟩
  | deliver receipt =>
    simp only [step] at hrelay
    split at hrelay
    · next x rest missed terminal hbefore =>
      rw [hbefore] at hrelay
      refine .inl ⟨x :: rest, missed, ?_⟩
      cases receipt <;> cases hrelay <;> exact hbefore
    · exact .inl ⟨plan, failed, hrelay⟩
  | conclude =>
    simp only [step] at hrelay
    split at hrelay
    · next missed terminal _ => cases terminal <;> cases hrelay
    · exact .inl ⟨plan, failed, hrelay⟩
  | hangUp =>
    simp only [step] at hrelay
    split at hrelay
    · cases hrelay
    · exact .inl ⟨plan, failed, hrelay⟩
  | halt =>
    simp only [step] at hrelay
    split at hrelay
    · cases hrelay
    · exact .inl ⟨plan, failed, hrelay⟩
  | subscribe s =>
    simp only [step] at hrelay
    split at hrelay <;> exact .inl ⟨plan, failed, hrelay⟩
  | unsubscribe id => exact .inl ⟨plan, failed, hrelay⟩

theorem Announces.step (h : d.Announces early e) (ha : d.Attended)
    (hending : (d.step m).relay.Ending) : (d.step m).Announces early e := by
  have hbusy : d.relay ≠ .listening := by
    obtain ⟨plan, failed, hrelay⟩ := h.ending
    simp [hrelay]
  refine ⟨hending, fun id hid => d.joined_step (h.joined id hid) m, ?_, ?_⟩
  · intro s hs hkept hearly
    rcases mem_step ha.sound hs with hold | ⟨-, hjoins⟩
    · obtain ⟨hbefore, hdue⟩ := due_step_of_busy ha hbusy hold hs hkept
      rw [hdue]
      exact h.told s hold hbefore hearly
    · exact absurd (h.joined s.id hearly) hjoins.2
  · intro s hs hkept hlate
    rcases mem_step ha.sound hs with hold | ⟨rfl, hjoins⟩
    · obtain ⟨hbefore, hdue⟩ := due_step_of_busy ha hbusy hold hs hkept
      rw [hdue]
      exact h.untold s hold hbefore hlate
    · -- whoever joins now starts with what is live, and no error is
      rw [due_subscribe ha hjoins]
      intro f hf
      obtain ⟨r, -, rfl⟩ := List.mem_map.mp hf
      simp [Change.ofRecord]

/-- A failure that is being handed out was planned in one move, for all who had joined by then. -/
theorem exists_announces (target : Target) {moves : List DeskMove}
    (hending : ((start target).run moves).relay.Ending) :
    ∃ before e after, moves = before ++ .hear (.event e) :: after ∧
      ((start target).run before).relay = .listening ∧ e.kind = .error ∧
      ((start target).run moves).Announces ((start target).run before).joined e := by
  induction moves using List.reverseRecOn with
  | nil =>
    obtain ⟨_, _, hrelay⟩ := hending
    cases hrelay
  | append_singleton moves m ih =>
    have ha : ((start target).run moves).Attended := (Attended.start target).run moves
    rw [run_snoc] at hending ⊢
    rcases ending_of_step hending with hbefore | ⟨e, rfl, hidle, he⟩
    · obtain ⟨before, e, after, rfl, hidle, he, hannounces⟩ := ih hbefore
      exact ⟨before, e, after ++ [m], by simp, hidle, he, hannounces.step ha hending⟩
    · exact ⟨moves, e, [], rfl, hidle, he, announces_hear ha hidle he⟩

/-- Once the queues are closed nothing more is sent. -/
theorem sent_run_of_closed (hdone : d.relay = .done) (hstopped : d.handler.stopped = true)
    (moves : List DeskMove) : (d.run moves).sent = d.sent := by
  induction moves generalizing d with
  | nil => rfl
  | cons m moves ih =>
    have hstep : (d.step m).relay = .done ∧ (d.step m).handler.stopped = true ∧
        (d.step m).sent = d.sent := by
      cases m with
      | unsubscribe id => exact ⟨hdone, by simp [step, Handler.remove, hstopped], rfl⟩
      | _ => simp [step, hdone, hstopped]
    obtain ⟨hdone', hstopped', hsent⟩ := hstep
    exact (ih hdone' hstopped').trans hsent

/-- A handler whose connection failed hands the error out and then closes every queue. Of those
whose queues it closes, whoever had joined when the error was planned has it last in its stream, and
whoever joined after that has no error in it. -/
theorem failure_told (target : Target) {moves : List DeskMove} {d : Desk}
    (hd : (start target).run moves = d) {failed : List Nat}
    (hrelay : d.relay = .delivering [] failed true) :
    ∃ before e after, moves = before ++ .hear (.event e) :: after ∧
      ((start target).run before).relay = .listening ∧ e.kind = .error ∧
      ∀ g ∈ (d.handler.remove failed).chain.generations, ∀ s ∈ g.subscribers, ∀ more,
        (s.id ∈ ((start target).run before).joined →
          (eventsFor s.id (d.run (.conclude :: more)).sent).getLast? = some e) ∧
        (s.id ∉ ((start target).run before).joined →
          ∀ f ∈ eventsFor s.id (d.run (.conclude :: more)).sent, f.kind ≠ .error) := by
  subst hd
  have ha : ((start target).run moves).Attended := (Attended.start target).run moves
  obtain ⟨before, e, after, hmoves, hidle, he, hannounces⟩ :=
    exists_announces target ⟨[], failed, hrelay⟩
  refine ⟨before, e, after, hmoves, hidle, he, ?_⟩
  generalize (start target).run moves = d at *
  intro g hg s hs more
  -- who is left has missed nothing, and all that was planned was sent
  have hleft := ((ha.sound.remove failed).1.gathered.mem_oldest hg hs)
  obtain ⟨hmem, hkept⟩ := (ha.sound.gathered.mem_foldl_detach failed s).mp hleft
  replace hkept : s.id ∉ d.relay.failed := by rwa [hrelay]
  have hstep : d.step .conclude =
      { d with handler := (d.handler.remove failed).shutdown, relay := .done } := by
    simp only [step, hrelay]
    rfl
  have hsent : eventsFor s.id (d.run (.conclude :: more)).sent = d.due s.id := by
    rw [due_of_rest (by simp [hrelay])]
    show eventsFor s.id ((d.step .conclude).run more).sent = _
    rw [sent_run_of_closed (by rw [hstep]) (by rw [hstep]; rfl), hstep]
  rw [hsent]
  exact ⟨hannounces.told s hmem hkept, hannounces.untold s hmem hkept⟩

/-- Somebody who wants other objects follows a resource; the connection fails, and somebody else
joins before the error has been handed out. -/
def lateJoin : List DeskMove :=
  let a : Record := { Record.empty with name := "a", version := "1" }
  [.subscribe ⟨7, ⟨[("app", "web")], [], false⟩⟩, .hear (.opened false),
    .hear (.event (.ofRecord .added a)), .conclude, .hear (.event (.error "refused")),
    .subscribe ⟨8, .everything⟩, .deliver .accepted]

theorem failure_told_lateJoin :
    ((start ⟨"v1/Pod", none⟩).run lateJoin).relay = .delivering [] [] true ∧
    (eventsFor 7 ((start ⟨"v1/Pod", none⟩).run (lateJoin ++ [.conclude])).sent).getLast? =
      some (.error "refused") := by
  have hrelay : ((start ⟨"v1/Pod", none⟩).run lateJoin).relay = .delivering [] [] true := by decide
  refine ⟨hrelay, ?_⟩
  obtain ⟨before, e, after, hmoves, -, he, htold⟩ := failure_told ⟨"v1/Pod", none⟩ rfl hrelay
  -- the error is the last thing that was taken up, and 7 had joined by then
  have hsplit : before = lateJoin.take 4 ∧ e = .error "refused" := by
    simp only [lateJoin, List.cons_eq_append_iff, reduceCtorEq, false_and, false_or, and_false,
      exists_false, or_false, List.cons.injEq, DeskMove.hear.injEq, Notice.event.injEq,
      List.nil_eq_append_iff] at hmoves
    rcases hmoves with ⟨_, rfl, _, rfl, ⟨-, rfl, -⟩ | ⟨_, rfl, _, rfl, rfl, rfl, -⟩⟩
    · cases he
    · exact ⟨rfl, rfl⟩
  obtain ⟨rfl, rfl⟩ := hsplit
  have hthere : ⟨7, ⟨[("app", "web")], [], false⟩⟩ ∈
      (((start ⟨"v1/Pod", none⟩).run lateJoin).handler.remove []).chain.oldest.subscribers := by
    decide
  exact (htold _ (Chain.oldest_mem _) _ hthere []).1 (by decide)

/-- Whoever joins between the planning of an error and the end is closed without having read it. -/
theorem late_joiner_untold :
    let d := (start ⟨"v1/Pod", none⟩).run lateJoin
    ⟨8, .everything⟩ ∈ d.handler.chain.oldest.subscribers ∧ d.relay = .delivering [] [] true ∧
    (d.step .conclude).handler.stopped = true ∧
    (d.step .conclude).handler.chain.oldest.subscribers = [] ∧
    (eventsFor 8 (d.step .conclude).sent).map (·.kind) = [.added] := by decide

end Desk

end SharedWatch
