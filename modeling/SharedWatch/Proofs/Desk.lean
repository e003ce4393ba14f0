import SharedWatch.Proofs.Mirror
import SharedWatch.Proofs.Server
import SharedWatch.Sharing.Relay

/-!
A handler at work.

A `Desk` is a handler with its relay, everything that the relay took up from the connection and
everything that went into the queues of subscribers. It moves one step at a time, in any order: the
relay takes up a notice, makes a delivery or ends a plan, and callers subscribe and leave in
between. A subscriber joins in one section with the reading of the snapshot; a plan is made in one
section and its deliveries follow.

`Serving` is what every move keeps. Main statement: `views_mirror_snapshot`.
-/

namespace SharedWatch

namespace Relay

/-- The deliveries that are still to be made. -/
def planned : Relay → List Delivery
  | .delivering plan _ _ => plan
  | _ => []

/-- The subscribers that have missed a delivery and are still to be taken out. -/
def failed : Relay → List Nat
  | .delivering _ failed _ => failed
  | _ => []

end Relay

/-- A handler and its relay, with what was heard and sent so far. -/
structure Desk where
  handler : Handler
  relay : Relay
  /-- The numbers of all who ever joined. -/
  joined : List Nat
  /-- What the relay took up, in order. -/
  heard : List Notice
  /-- What went into the subscribers' queues, in order. -/
  sent : List Delivery

/-- One step of the relay or of a caller. -/
inductive DeskMove where
  /-- The relay takes up what the connection says. -/
  | hear (n : Notice)
  /-- The next delivery is made or fails. -/
  | deliver (receipt : Receipt)
  /-- The relay ends a plan without deliveries left. -/
  | conclude
  /-- The connection has ended. -/
  | hangUp
  /-- The relay finds that its handler has stopped. -/
  | halt
  | subscribe (s : Subscriber)
  /-- A caller takes a subscriber out, or the relay does so for a cancelled one. -/
  | unsubscribe (id : Nat)

namespace Desk

/-- The desk of a handler that was just started. -/
def start (target : Target) : Desk := ⟨.new target, .listening, [], [], []⟩

/-- The events that were taken up, in order. -/
def events (d : Desk) : List Change := noticed d.heard

/-- The desk after a move; one that is not possible now changes nothing. A stopped handler takes
nobody in, and every subscriber has a number of its own. -/
def step (d : Desk) : DeskMove → Desk
  | .hear n =>
    match d.relay with
    | .listening =>
      let (handler, relay) := Relay.take d.handler n
      { d with handler, relay, heard := d.heard ++ [n] }
    | _ => d
  | .deliver receipt =>
    match d.relay with
    | .delivering (x :: _) _ _ =>
      { d with
        relay := d.relay.note receipt
        sent := if receipt = .accepted then d.sent ++ [x] else d.sent }
    | _ => d
  | .conclude =>
    match d.relay with
    | .delivering [] failed terminal =>
      let (handler, relay) := Relay.conclude d.handler failed terminal
      { d with handler, relay }
    | _ => d
  | .hangUp =>
    match d.relay with
    | .listening => { d with handler := d.handler.shutdown, relay := .done }
    | _ => d
  | .halt =>
    match d.relay, d.handler.stopped with
    | .listening, true => { d with relay := .done }
    | _, _ => d
  | .subscribe s =>
    if d.handler.stopped = true ∨ s.id ∈ d.joined then d
    else
      { d with
        handler := d.handler.attach s
        joined := d.joined ++ [s.id]
        sent := d.sent ++ (d.handler.primed s.filter).map fun e => ⟨s.id, e⟩ }
  | .unsubscribe id => { d with handler := d.handler.remove [id] }

/-- The desk after some moves, in order. -/
def run (d : Desk) (moves : List DeskMove) : Desk := moves.foldl step d

/-- What a subscriber was sent and what is planned for it. -/
def given (d : Desk) : List Delivery := d.sent ++ d.relay.planned

end Desk

/-! ## Taking subscribers out -/

namespace Chain

theorem generations_dismiss (c : Chain) :
    c.dismiss.generations = c.generations.map fun g => { g with subscribers := [] } := rfl

theorem dismiss_gathered (c : Chain) : c.dismiss.Gathered := by
  have hgen : c.dismiss.generations =
      (c.newer.map fun g => { g with subscribers := [] }) ++
        [{ c.oldest with subscribers := [] }] := by
    rw [generations_dismiss, generations_eq, List.map_append, List.map_singleton]
  obtain ⟨hn, ho⟩ := eq_oldest hgen
  refine ⟨?_, by rw [ho]; exact List.nodup_nil⟩
  rw [hn]
  intro g hg
  obtain ⟨g', -, rfl⟩ := List.mem_map.mp hg
  rfl

theorem oldest_dismiss (c : Chain) : c.dismiss.oldest.subscribers = [] := by
  have hmem := c.dismiss.oldest_mem
  rw [generations_dismiss] at hmem
  obtain ⟨g, -, hg⟩ := List.mem_map.mp hmem
  rw [← hg]

theorem Gathered.subscriberCount {c : Chain} (h : c.Gathered) :
    c.subscriberCount = c.oldest.subscribers.length := by
  have hempty : c.newer.flatMap (·.subscribers) = [] := by
    rw [List.flatMap_eq_nil_iff]
    exact h.newer_empty
  unfold Chain.subscriberCount
  rw [generations_eq, List.flatMap_append, hempty, List.nil_append, List.flatMap_singleton]

namespace Gathered
variable {c : Chain}

theorem foldl_detach (h : c.Gathered) (ids : List Nat) : (ids.foldl Chain.detach c).Gathered := by
  induction ids generalizing c with
  | nil => exact h
  | cons id rest ih => exact ih (h.detach id)

theorem lineage_foldl_detach (h : c.Gathered) (ids : List Nat) :
    (ids.foldl Chain.detach c).lineage = c.lineage := by
  induction ids generalizing c with
  | nil => rfl
  | cons id rest ih => exact (ih (h.detach id)).trans (c.lineage_detach id)

theorem mem_foldl_detach (h : c.Gathered) (ids : List Nat) (s : Subscriber) :
    s ∈ (ids.foldl Chain.detach c).oldest.subscribers ↔
      s ∈ c.oldest.subscribers ∧ s.id ∉ ids := by
  induction ids generalizing c with
  | nil => simp
  | cons id rest ih =>
    rw [List.foldl_cons, ih (h.detach id), h.oldest_detach, List.mem_cons, not_or]
    simp only [Generation.detach, List.mem_filter, bne_iff_ne, ne_eq, and_assoc]

end Gathered

end Chain

/-! ## What every move keeps -/

/-- A handler serves its subscribers after some events, with some deliveries given to them and some
of them failed: unless it has stopped, everybody with an open filter who has missed nothing reads
what the chain shows. -/
structure Serving (past : List Change) (h : Handler) (joined : List Nat) (given : List Delivery)
    (failed : List Nat) : Prop where
  gathered : h.chain.Gathered
  numbered : ∀ s ∈ h.chain.oldest.subscribers, s.id ∈ joined
  unknown : ∀ id, id ∉ joined → eventsFor id given = []
  empty : h.stopped = true → h.chain.oldest.subscribers = []
  coherent : h.stopped = false → Coherent past h.chain
  mirrored : ∀ s ∈ h.chain.oldest.subscribers, s.filter.IsOpen → s.id ∉ failed →
    ∀ x, view (eventsFor s.id given) x = h.chain.oldest.ledger.shows x

namespace Serving
variable {past : List Change} {h : Handler} {joined failed : List Nat} {given : List Delivery}

theorem start (target : Target) : Serving [] (.new target) [] [] [] where
  gathered := .first 1
  numbered := by simp [Handler.new, Chain.first, Chain.oldest, Generation.new]
  unknown := by simp
  empty := by simp [Handler.new]
  coherent := fun _ => .first 1
  mirrored := by simp [Handler.new, Chain.first, Chain.oldest, Generation.new]

theorem beginSession (hs : Serving past h joined given failed) (resumed : Bool) :
    Serving past (h.beginSession resumed) joined given failed := by
  unfold Handler.beginSession
  by_cases hfirst : h.sessions = 0
  · simp only [hfirst, if_true]
    exact ⟨hs.gathered, hs.numbered, hs.unknown, hs.empty, hs.coherent, hs.mirrored⟩
  · simp only [hfirst, if_false]
    have ho := (h.chain.oldest_advance (h.chain.head.id + 1) resumed).2
    refine ⟨hs.gathered.advance _ _, ?_, hs.unknown, ?_,
      fun hlive => (hs.coherent hlive).advance _ _, ?_⟩ <;> simp only [ho]
    · exact hs.numbered
    · exact hs.empty
    · exact hs.mirrored

theorem plan_of_live (hlive : h.stopped = false) (e : Change) :
    h.plan e = ({ h with chain := h.chain.apply (.dispatch e) }, h.chain.sends (.dispatch e)) := by
  simp [Handler.plan, hlive, Chain.apply, Chain.sends]

theorem plan_of_stopped (hstopped : h.stopped = true) (e : Change) : h.plan e = (h, []) := by
  simp [Handler.plan, hstopped]

/-- No plan starts a session or stops the handler. -/
theorem plan_keeps (h : Handler) (e : Change) :
    (h.plan e).1.sessions = h.sessions ∧ (h.plan e).1.stopped = h.stopped := by
  cases hstopped : h.stopped
  · rw [plan_of_live hstopped]
    exact ⟨rfl, hstopped⟩
  · rw [plan_of_stopped hstopped]
    exact ⟨rfl, hstopped⟩

/-- A plan gives every subscriber what the event changes. -/
theorem plan (hs : Serving past h joined given failed) {e : Change}
    (ha : e.isReport = true → Admits past e) :
    Serving (past ++ [e]) (h.plan e).1 joined (given ++ (h.plan e).2) failed := by
  cases hlive : h.stopped
  · rw [plan_of_live hlive]
    have hc := hs.coherent hlive
    have hsubs : (h.chain.apply (.dispatch e)).oldest.subscribers = h.chain.oldest.subscribers :=
      hs.gathered.subscribers_apply _
    refine ⟨hs.gathered.apply (.dispatch e), ?_, ?_, ?_, fun _ => hc.dispatch ha, ?_⟩
    · intro s hmem
      exact hs.numbered s (hsubs ▸ hmem)
    · intro id hid
      rw [eventsFor_append, hs.unknown id hid, List.nil_append]
      apply hs.gathered.eventsFor_dispatch_of_absent
      rintro s hmem rfl
      exact hid (hs.numbered s hmem)
    · intro hstopped
      rw [hlive] at hstopped
      cases hstopped
    · intro s hmem hopen hfailed x
      replace hmem : s ∈ h.chain.oldest.subscribers := hsubs ▸ hmem
      rw [eventsFor_append]
      exact hc.view_dispatch hs.gathered hmem hopen ha (hs.mirrored s hmem hopen hfailed) x
  · rw [plan_of_stopped hlive, List.append_nil]
    refine ⟨hs.gathered, hs.numbered, hs.unknown, hs.empty, ?_, hs.mirrored⟩
    intro hfalse
    rw [hlive] at hfalse
    cases hfalse

/-- Deliveries may be dropped for those who have failed. -/
theorem deliver (hs : Serving past h joined given failed) {given' : List Delivery}
    {failed' : List Nat} (hsub : given'.Sublist given)
    (hsame : ∀ id, id ∉ failed' → id ∉ failed ∧ eventsFor id given' = eventsFor id given) :
    Serving past h joined given' failed' := by
  refine ⟨hs.gathered, hs.numbered, ?_, hs.empty, hs.coherent, ?_⟩
  · intro id hid
    have hle := eventsFor_sublist hsub id
    rw [hs.unknown id hid] at hle
    exact List.sublist_nil.mp hle
  · intro s hmem hopen hfailed x
    obtain ⟨hbefore, heq⟩ := hsame s.id hfailed
    rw [heq]
    exact hs.mirrored s hmem hopen hbefore x

/-- A new subscriber starts from what the chain shows. -/
theorem attach (hs : Serving past h joined given failed) (hlive : h.stopped = false)
    {s : Subscriber} (hfresh : s.id ∉ joined) {given' : List Delivery}
    (hself : eventsFor s.id given' = h.primed s.filter)
    (hother : ∀ id, id ≠ s.id → eventsFor id given' = eventsFor id given) :
    Serving past (h.attach s) (joined ++ [s.id]) given' failed := by
  have hc := hs.coherent hlive
  refine ⟨hs.gathered.attachOldest s, ?_, ?_, ?_, fun _ => hc.attachOldest s, ?_⟩
  · intro t ht
    rcases Chain.mem_attachOldest ht with rfl | ⟨-, ht⟩
    · simp
    · exact List.mem_append_left _ (hs.numbered t ht)
  · intro id hid
    rw [List.mem_append, List.mem_singleton, not_or] at hid
    rw [hother id hid.2, hs.unknown id hid.1]
  · intro hstopped
    have hstopped : h.stopped = true := hstopped
    rw [hlive] at hstopped
    cases hstopped
  · intro t ht hopen hfailed x
    have hledger : (h.attach s).chain.oldest.ledger = h.chain.oldest.ledger := by
      simp only [Handler.attach, Chain.oldest_attachOldest]
      rfl
    rw [hledger]
    rcases Chain.mem_attachOldest ht with rfl | ⟨hne, ht⟩
    · rw [hself]
      exact hc.view_primed hopen x
    · rw [hother t.id hne]
      exact hs.mirrored t ht hopen hfailed x

/-- Those who are taken out leave the others as they are; the last one stops the handler. -/
theorem remove (hs : Serving past h joined given failed) (ids : List Nat) {failed' : List Nat}
    (hsub : ∀ id ∈ failed, id ∈ failed' ∨ id ∈ ids) :
    Serving past (h.remove ids) joined given failed' := by
  have hgathered := hs.gathered.foldl_detach ids
  have hlineage := hs.gathered.lineage_foldl_detach ids
  have hledger := Chain.oldest_of_lineage hlineage
  have hmem := hs.gathered.mem_foldl_detach ids
  refine ⟨hgathered, ?_, hs.unknown, ?_, ?_, ?_⟩
  · intro s ht
    exact hs.numbered s ((hmem s).mp ht).1
  · intro hstopped
    simp only [Handler.remove, Bool.or_eq_true, Bool.and_eq_true, beq_iff_eq] at hstopped ⊢
    rcases hstopped with hstopped | ⟨-, hzero⟩
    · rw [List.eq_nil_iff_forall_not_mem]
      intro s ht
      have hbefore := ((hmem s).mp ht).1
      rw [hs.empty hstopped] at hbefore
      simp at hbefore
    · rw [hgathered.subscriberCount] at hzero
      exact List.length_eq_zero_iff.mp hzero
  · intro hlive
    simp only [Handler.remove, Bool.or_eq_false_iff] at hlive
    exact (hs.coherent hlive.1).of_lineage hlineage
  · intro s ht hopen hfailed x
    obtain ⟨hbefore, hid⟩ := (hmem s).mp ht
    simp only [Handler.remove, Ledger.shows, hledger]
    apply hs.mirrored s hbefore hopen
    intro hf
    exact (hsub s.id hf).elim hfailed hid

theorem shutdown (hs : Serving past h joined given failed) (failed' : List Nat) :
    Serving past h.shutdown joined given failed' := by
  have hnobody : h.shutdown.chain.oldest.subscribers = [] := h.chain.oldest_dismiss
  refine ⟨h.chain.dismiss_gathered, ?_, hs.unknown, fun _ => hnobody, ?_, ?_⟩
  · rw [hnobody]
    simp
  · intro hlive
    cases hlive
  · rw [hnobody]
    simp

end Serving

namespace Relay

theorem passOver_sublist (failed : List Nat) (plan : List Delivery) :
    (passOver failed plan).Sublist plan := List.dropWhile_sublist _

/-- Nobody who has missed nothing is passed over. -/
theorem eventsFor_passOver {failed : List Nat} {id : Nat} (hid : id ∉ failed)
    (plan : List Delivery) : eventsFor id (passOver failed plan) = eventsFor id plan := by
  induction plan with
  | nil => rfl
  | cons x rest ih =>
    unfold passOver
    rw [List.dropWhile_cons]
    split
    · next hx =>
      have hne : x.subscriber ≠ id := by
        rintro rfl
        exact hid (by simpa using hx)
      rw [eventsFor_cons_of_ne hne]
      exact ih
    · rfl

/-- Whoever misses a delivery is passed over from then on. -/
theorem note_missed {receipt : Receipt} (h : receipt ≠ .accepted) (x : Delivery)
    (rest : List Delivery) (failed : List Nat) (terminal : Bool) :
    note (.delivering (x :: rest) failed terminal) receipt =
      .delivering (passOver (failed ++ [x.subscriber]) rest) (failed ++ [x.subscriber])
        terminal := by
  cases receipt with
  | accepted => exact absurd rfl h
  | late => rfl
  | gone => rfl

end Relay

namespace Desk

/-- What every move of a desk keeps. -/
def Sound (d : Desk) : Prop := Serving d.events d.handler d.joined d.given d.relay.failed

theorem given_of_idle {d : Desk} (h : d.relay.planned = []) : d.given = d.sent := by
  simp [given, h]

theorem step_hear {d : Desk} (hidle : d.relay = .listening) (n : Notice) :
    d.step (.hear n) =
      { d with
        handler := (Relay.take d.handler n).1
        relay := (Relay.take d.handler n).2
        heard := d.heard ++ [n] } := by
  simp only [step, hidle]

theorem heard_hear {d : Desk} (hidle : d.relay = .listening) (n : Notice) :
    (d.step (.hear n)).heard = d.heard ++ [n] := by
  rw [step_hear hidle]

theorem events_hear {d : Desk} (hidle : d.relay = .listening) (n : Notice) :
    (d.step (.hear n)).events = d.events ++ noticed [n] := by
  rw [events, heard_hear hidle, noticed_append, events]

theorem handler_hear {d : Desk} (hidle : d.relay = .listening) (n : Notice) :
    (d.step (.hear n)).handler = (Relay.take d.handler n).1 := by
  rw [step_hear hidle]

/-- A handler at work takes a bookmark at once, and nobody has missed a delivery of its plan. -/
theorem hear_bookmark {d : Desk} (hidle : d.relay = .listening) (hlive : d.handler.stopped = false)
    {b : Change} (hb : b.kind = .bookmark) :
    (d.step (.hear (.event b))).handler.chain = (d.handler.chain.checkpoint b).1 ∧
      (d.step (.hear (.event b))).handler.stopped = false ∧
      (d.step (.hear (.event b))).relay.failed = [] := by
  rw [step_hear hidle]
  refine ⟨?_, ?_, rfl⟩
  · show (d.handler.plan b).1.chain = _
    rw [Serving.plan_of_live hlive]
    exact (d.handler.chain.dispatch_bookmark hb).1
  · show (d.handler.plan b).1.stopped = _
    rw [(Serving.plan_keeps d.handler b).2, hlive]

theorem step_hear_of_busy {d : Desk} (hbusy : d.relay ≠ .listening) (n : Notice) :
    d.step (.hear n) = d := by
  simp only [step]

theorem heard_quiet (d : Desk) {m : DeskMove} (hm : ∀ n, m ≠ .hear n) :
    (d.step m).heard = d.heard := by
  unfold step
  cases m with
  | hear n => exact absurd rfl (hm n)
  | unsubscribe _ => rfl
  | _ =>
    dsimp only
    split <;> rfl

theorem events_quiet (d : Desk) {m : DeskMove} (hm : ∀ n, m ≠ .hear n) :
    (d.step m).events = d.events := congrArg noticed (d.heard_quiet hm)

/-- The relay takes a notice up, or is busy and lets it wait, or the move is another one. -/
theorem hear_cases (d : Desk) (m : DeskMove) :
    (∃ n, m = .hear n ∧ d.relay = .listening) ∨ (∃ n, m = .hear n ∧ d.relay ≠ .listening) ∨
      ∀ n, m ≠ .hear n := by
  by_cases hm : ∃ n, m = .hear n
  · obtain ⟨n, rfl⟩ := hm
    by_cases hidle : d.relay = .listening
    · exact .inl ⟨n, rfl, hidle⟩
    · exact .inr (.inl ⟨n, rfl, hidle⟩)
  · exact .inr (.inr fun n hn => hm ⟨n, hn⟩)

theorem exists_heard_step (d : Desk) (m : DeskMove) :
    ∃ more, (d.step m).heard = d.heard ++ more := by
  rcases d.hear_cases m with ⟨n, rfl, hidle⟩ | ⟨n, rfl, hbusy⟩ | hm
  · exact ⟨[n], heard_hear hidle n⟩
  · exact ⟨[], by rw [step_hear_of_busy hbusy, List.append_nil]⟩
  · exact ⟨[], by rw [d.heard_quiet hm, List.append_nil]⟩

theorem exists_events_step (d : Desk) (m : DeskMove) :
    ∃ more, (d.step m).events = d.events ++ more := by
  obtain ⟨more, hmore⟩ := d.exists_heard_step m
  exact ⟨noticed more, by rw [events, hmore, noticed_append, events]⟩

theorem Sound.hear {d : Desk} (hs : d.Sound) (hidle : d.relay = .listening) {n : Notice}
    (ha : ∀ e, n = .event e → e.isReport = true → Admits d.events e) :
    (d.step (.hear n)).Sound := by
  unfold Sound at hs ⊢
  have hgiven : d.given = d.sent := given_of_idle (by rw [hidle]; rfl)
  rw [hgiven, hidle] at hs
  rw [events_hear hidle, step_hear hidle]
  cases n with
  | opened resumed =>
    simp only [noticed_opened, Relay.take, given, Relay.planned, List.append_nil]
    exact hs.beginSession resumed
  | event e =>
    simp only [noticed_event, Relay.take, given, Relay.planned]
    exact hs.plan (ha e rfl)

theorem Sound.deliver {d : Desk} (hs : d.Sound) (receipt : Receipt) :
    (d.step (.deliver receipt)).Sound := by
  cases hrelay : d.relay with
  | listening => simpa only [step, hrelay] using hs
  | done => simpa only [step, hrelay] using hs
  | delivering plan failed terminal =>
    cases plan with
    | nil => simpa only [step, hrelay] using hs
    | cons x rest =>
      unfold Sound at hs ⊢
      have hgiven : d.given = d.sent ++ x :: rest := by simp [given, hrelay, Relay.planned]
      rw [hgiven, hrelay] at hs
      rw [d.events_quiet (by simp)]
      simp only [step, hrelay, given]
      by_cases hr : receipt = .accepted
      · -- the delivery moves from the plan into the queue
        subst hr
        simp only [if_true, Relay.note, Relay.planned, Relay.failed, List.append_assoc,
          List.singleton_append]
        apply hs.deliver
        · exact ((Relay.passOver_sublist failed rest).cons_cons x).append_left _
        · intro id hid
          refine ⟨hid, ?_⟩
          rw [eventsFor_append, eventsFor_append, ← List.singleton_append, eventsFor_append,
            Relay.eventsFor_passOver hid, ← eventsFor_append, List.singleton_append]
      · -- it is lost, to somebody who counts as failed from now on
        rw [if_neg hr, Relay.note_missed hr]
        simp only [Relay.planned, Relay.failed]
        apply hs.deliver
        · have hrest := (Relay.passOver_sublist (failed ++ [x.subscriber]) rest).trans
            (List.sublist_cons_self x rest)
          exact hrest.append_left _
        · intro id hid
          rw [List.mem_append, List.mem_singleton, not_or] at hid
          refine ⟨hid.1, ?_⟩
          rw [eventsFor_append, eventsFor_append, eventsFor_cons_of_ne (Ne.symm hid.2),
            Relay.eventsFor_passOver]
          simp [hid]

theorem Sound.conclude {d : Desk} (hs : d.Sound) : (d.step .conclude).Sound := by
  cases hrelay : d.relay with
  | listening => simpa only [step, hrelay] using hs
  | done => simpa only [step, hrelay] using hs
  | delivering plan failed terminal =>
    cases plan with
    | cons x rest => simpa only [step, hrelay] using hs
    | nil =>
      unfold Sound at hs ⊢
      have hgiven : d.given = d.sent := given_of_idle (by rw [hrelay]; rfl)
      rw [hgiven, hrelay] at hs
      rw [d.events_quiet (by simp)]
      have hremoved : Serving d.events (d.handler.remove failed) d.joined d.sent [] :=
        hs.remove failed fun id hid => Or.inr hid
      simp only [step, hrelay, Relay.conclude, given]
      cases terminal
      · simpa [Relay.planned, Relay.failed] using hremoved
      · simpa [Relay.planned, Relay.failed] using hremoved.shutdown []

theorem Sound.subscribe {d : Desk} (hs : d.Sound) (s : Subscriber) :
    (d.step (.subscribe s)).Sound := by
  simp only [step]
  split
  · exact hs
  · next hfree =>
    rw [not_or, Bool.not_eq_true] at hfree
    unfold Sound at hs ⊢
    -- the number is new, so nothing was sent to it and nothing is planned for it
    have hnothing : eventsFor s.id d.given = [] := hs.unknown s.id hfree.2
    have hparts : eventsFor s.id d.sent = [] ∧ eventsFor s.id d.relay.planned = [] := by
      rw [given, eventsFor_append] at hnothing
      exact List.append_eq_nil_iff.mp hnothing
    apply hs.attach hfree.1 hfree.2
    · simp only [given, eventsFor_append, hparts.1, hparts.2, eventsFor_address]
      simp
    · intro id hid
      simp only [given, eventsFor_append, eventsFor_address]
      simp [Ne.symm hid]

theorem Sound.hangUp {d : Desk} (hs : d.Sound) : (d.step .hangUp).Sound := by
  cases hrelay : d.relay with
  | listening =>
    simp only [Desk.step, hrelay]
    have hgiven : d.given = d.sent := given_of_idle (by rw [hrelay]; rfl)
    unfold Sound at hs ⊢
    rw [hgiven] at hs
    simpa [given, events, Relay.planned, Relay.failed] using hs.shutdown []
  | delivering _ _ _ => simpa only [Desk.step, hrelay] using hs
  | done => simpa only [Desk.step, hrelay] using hs

theorem Sound.halt {d : Desk} (hs : d.Sound) : (d.step .halt).Sound := by
  cases hrelay : d.relay with
  | listening =>
    cases hstopped : d.handler.stopped
    · simpa only [Desk.step, hrelay, hstopped] using hs
    · simp only [Desk.step, hrelay, hstopped]
      unfold Sound given at hs ⊢
      rw [hrelay] at hs
      exact hs
  | delivering _ _ _ => simpa only [Desk.step, hrelay] using hs
  | done => simpa only [Desk.step, hrelay] using hs

theorem Sound.step {d : Desk} (hs : d.Sound) (m : DeskMove) (h : Orderly (d.step m).events) :
    (d.step m).Sound := by
  cases m with
  | hear n =>
    by_cases hidle : d.relay = .listening
    · refine hs.hear hidle ?_
      rintro e rfl he
      rw [events_hear hidle, noticed_event] at h
      exact h.admits he
    · rw [step_hear_of_busy hidle]
      exact hs
  | deliver receipt => exact hs.deliver receipt
  | conclude => exact hs.conclude
  | hangUp => exact hs.hangUp
  | halt => exact hs.halt
  | subscribe s => exact hs.subscribe s
  | unsubscribe id => exact Serving.remove hs [id] fun i hi => Or.inl hi

theorem run_snoc (d : Desk) (moves : List DeskMove) (m : DeskMove) :
    d.run (moves ++ [m]) = (d.run moves).step m := by
  simp [run]

theorem run_sound (target : Target) {moves : List DeskMove}
    (h : Orderly ((start target).run moves).events) : ((start target).run moves).Sound := by
  induction moves using List.reverseRecOn with
  | nil => exact Serving.start target
  | append_singleton moves m ih =>
    rw [run_snoc] at h ⊢
    obtain ⟨more, hmore⟩ := ((start target).run moves).exists_events_step m
    have hbefore : Orderly ((start target).run moves).events := (hmore ▸ h).of_append
    exact (ih hbefore).step m h

theorem lineage_remove {h : Handler} (hg : h.chain.Gathered) (ids : List Nat) :
    (h.remove ids).stopped = false →
      h.stopped = false ∧ (h.remove ids).chain.lineage = h.chain.lineage := by
  intro hlive
  simp only [Handler.remove, Bool.or_eq_false_iff] at hlive
  exact ⟨hlive.1, hg.lineage_foldl_detach ids⟩

/-- Only what the relay takes up changes the lineage of a chain that still serves. -/
theorem step_quiet {d : Desk} (hg : d.handler.chain.Gathered) {m : DeskMove}
    (hm : ∀ n, m ≠ .hear n) :
    (d.step m).handler.sessions = d.handler.sessions ∧
      ((d.step m).handler.stopped = false → d.handler.stopped = false ∧
        (d.step m).handler.chain.lineage = d.handler.chain.lineage) := by
  have hself : d.handler.sessions = d.handler.sessions ∧ (d.handler.stopped = false →
      d.handler.stopped = false ∧ d.handler.chain.lineage = d.handler.chain.lineage) :=
    ⟨rfl, fun hlive => ⟨hlive, rfl⟩⟩
  cases m with
  | hear n => exact absurd rfl (hm n)
  | deliver receipt =>
    simp only [step]
    split <;> exact hself
  | conclude =>
    simp only [step]
    split
    · next failed terminal _ =>
      cases terminal
      · exact ⟨rfl, lineage_remove hg failed⟩
      · exact ⟨rfl, fun hlive => by cases hlive⟩
    · exact hself
  | hangUp =>
    simp only [step]
    split
    · exact ⟨rfl, fun hlive => by cases hlive⟩
    · exact hself
  | halt =>
    simp only [step]
    split <;> exact hself
  | subscribe s =>
    simp only [step]
    split
    · exact hself
    · exact ⟨rfl, fun hlive => ⟨hlive, d.handler.chain.lineage_attachOldest s⟩⟩
  | unsubscribe id => exact ⟨rfl, lineage_remove hg [id]⟩

/-- Whatever the order of moves, everybody with an open filter who has missed nothing holds the
snapshot once it has read what it was sent and what is planned for it; so any two hold the same. -/
theorem views_mirror_snapshot (target : Target) {moves : List DeskMove} {d : Desk}
    (hd : (start target).run moves = d) (h : Orderly d.events) {g : Generation}
    (hg : g ∈ d.handler.chain.generations) {s : Subscriber} (hs : s ∈ g.subscribers)
    (hopen : s.filter.IsOpen) (hkept : s.id ∉ d.relay.failed) :
    (∀ x r, view (eventsFor s.id d.given) x = some r ↔
      r ∈ d.handler.chain.snapshot ∧ r.resource = x) ∧
    ∀ g' ∈ d.handler.chain.generations, ∀ t ∈ g'.subscribers, t.filter.IsOpen →
      t.id ∉ d.relay.failed → view (eventsFor t.id d.given) = view (eventsFor s.id d.given) := by
  subst hd
  have hsound := run_sound target h
  generalize (start target).run moves = d at *
  have hmem := hsound.gathered.mem_oldest hg hs
  -- a handler that has stopped has no subscribers
  have hlive : d.handler.stopped = false := by
    cases hstopped : d.handler.stopped
    · rfl
    · rw [hsound.empty hstopped] at hmem
      simp at hmem
  refine ⟨?_, ?_⟩
  · intro x r
    rw [hsound.mirrored s hmem hopen hkept, (hsound.coherent hlive).mem_snapshot]
    constructor
    · intro hx
      obtain ⟨en, hget, -, rfl⟩ := Ledger.shows_eq_some.mp hx
      have hname := (hsound.coherent hlive).keyed (Chain.oldest_mem _) x en hget
      rw [hname]
      exact ⟨hx, rfl⟩
    · rintro ⟨hr, rfl⟩
      exact hr
  · intro g' hg' t ht htopen htkept
    funext x
    rw [hsound.mirrored s hmem hopen hkept,
      hsound.mirrored t (hsound.gathered.mem_oldest hg' ht) htopen htkept]

/-- Somebody joins after a new session has begun, while an event is planned that an earlier
subscriber has not been sent yet. -/
def joinRun : List DeskMove :=
  let a : Record := { Record.empty with name := "a", version := "1" }
  let b (version : String) : Record := { Record.empty with name := "b", version }
  [.subscribe ⟨7, .everything⟩, .hear (.opened false), .hear (.event (.ofRecord .added a)),
    .deliver .accepted, .conclude, .hear (.event (.ofRecord .added (b "2"))), .deliver .accepted,
    .conclude, .hear (.opened true), .hear (.event (.ofRecord .deleted (b "3"))),
    .subscribe ⟨8, .everything⟩]

theorem views_mirror_snapshot_joinRun :
    Orderly ((start ⟨"v1/Pod", none⟩).run joinRun).events ∧
    (((start ⟨"v1/Pod", none⟩).run joinRun).relay.planned.map (·.subscriber)) = [7] ∧
    view (eventsFor 8 ((start ⟨"v1/Pod", none⟩).run joinRun).given) =
      view (eventsFor 7 ((start ⟨"v1/Pod", none⟩).run joinRun).given) := by
  have horderly : Orderly ((start ⟨"v1/Pod", none⟩).run joinRun).events := by decide
  refine ⟨horderly, by decide, ?_⟩
  have hattached : ((start ⟨"v1/Pod", none⟩).run joinRun).handler.chain.oldest.subscribers =
      [⟨7, .everything⟩, ⟨8, .everything⟩] := by decide
  have hboth := (views_mirror_snapshot ⟨"v1/Pod", none⟩ rfl horderly (Chain.oldest_mem _)
    (s := ⟨7, .everything⟩) (by simp [hattached]) ⟨rfl, rfl⟩ (by decide)).2
  exact hboth _ (Chain.oldest_mem _) ⟨8, .everything⟩ (by simp [hattached]) ⟨rfl, rfl⟩ (by decide)

end Desk

end SharedWatch
