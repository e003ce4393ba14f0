import SharedWatch.Proofs.Bookmark

/-!
Runs of a chain: any sequence of new sessions, subscribers who come and go, and dispatched events.

`Chain.apply` makes one operation and `Chain.sends` is what it puts on the way. `run_coherent` and
`run_gathered` say what every run keeps, whatever its length and its order.
-/

namespace SharedWatch

/-- One operation on a chain. -/
inductive ChainOp where
  /-- A new session of the connection. -/
  | advance (id : Nat) (resumed : Bool)
  /-- A subscriber is sent the snapshot and joins the oldest generation. -/
  | attach (s : Subscriber)
  | detach (id : Nat)
  | dispatch (e : Change)

namespace ChainOp

/-- The event that the operation dispatches. -/
def event? : ChainOp → Option Change
  | .dispatch e => some e
  | _ => none

/-- The subscriber that the operation takes in. -/
def joined? : ChainOp → Option Nat
  | .attach s => some s.id
  | _ => none

/-- Whether the operation dispatches a bookmark. -/
def isBookmark : ChainOp → Bool
  | .dispatch e => decide (e.kind = .bookmark)
  | _ => false

end ChainOp

/-- The events that some operations dispatch, in order. -/
def dispatched (ops : List ChainOp) : List Change := ops.filterMap ChainOp.event?

@[simp] theorem dispatched_append (p q : List ChainOp) :
    dispatched (p ++ q) = dispatched p ++ dispatched q := List.filterMap_append

theorem dispatched_singleton (op : ChainOp) : dispatched [op] = op.event?.toList := by
  cases op <;> rfl

namespace Chain

/-- What a new subscriber is sent first. -/
def primed (c : Chain) (filter : Filter) : List Change :=
  (c.snapshot.filter filter.accepts).map (.ofRecord .added)

/-- The chain after an operation. -/
def apply (c : Chain) : ChainOp → Chain
  | .advance id resumed => c.advance id resumed
  | .attach s => c.attachOldest s
  | .detach id => c.detach id
  | .dispatch e => (c.dispatch e).1

/-- What an operation sends. -/
def sends (c : Chain) : ChainOp → List Delivery
  | .advance _ _ => []
  | .attach s => (c.primed s.filter).map fun e => ⟨s.id, e⟩
  | .detach _ => []
  | .dispatch e => (c.dispatch e).2.1

/-- The chain after some operations, in order. -/
def run (c : Chain) (ops : List ChainOp) : Chain := ops.foldl apply c

theorem run_snoc (c : Chain) (ops : List ChainOp) (op : ChainOp) :
    c.run (ops ++ [op]) = (c.run ops).apply op := by
  simp [run]

theorem eventsFor_attach (c : Chain) (s : Subscriber) (id : Nat) :
    eventsFor id (c.sends (.attach s)) = if s.id = id then c.primed s.filter else [] :=
  eventsFor_address id s.id _

/-! ## Dispatch by kind -/

theorem dispatch_report (c : Chain) {e : Change} (he : e.isReport = true) :
    (c.dispatch e).1 = (c.relay e).1 ∧ (c.dispatch e).2.1 = (c.relay e).2 := by
  unfold dispatch
  cases hk : e.kind <;> simp [Change.isReport, hk] at he ⊢

theorem dispatch_bookmark (c : Chain) {e : Change} (he : e.kind = .bookmark) :
    (c.dispatch e).1 = (c.checkpoint e).1 ∧ (c.dispatch e).2.1 = (c.checkpoint e).2.1 := by
  simp [dispatch, he]

theorem dispatch_error (c : Chain) {e : Change} (he : e.kind = .error) :
    (c.dispatch e).1 = c ∧ (c.dispatch e).2.1 = c.broadcast e := by
  simp [dispatch, he]

theorem isReport_cases (e : Change) : e.isReport = true ∨ e.kind = .bookmark ∨ e.kind = .error := by
  cases hk : e.kind <;> simp [Change.isReport, hk]

theorem isReport_of_bookmark {e : Change} (h : e.kind = .bookmark) : e.isReport = false := by
  simp [Change.isReport, h]

theorem isReport_of_error {e : Change} (h : e.kind = .error) : e.isReport = false := by
  simp [Change.isReport, h]

/-! ## What every operation keeps -/

theorem Gathered.apply {c : Chain} (h : c.Gathered) (op : ChainOp) : (c.apply op).Gathered := by
  cases op with
  | advance id resumed => exact h.advance id resumed
  | attach s => exact h.attachOldest s
  | detach id => exact h.detach id
  | dispatch e =>
    rcases isReport_cases e with he | he | he <;> simp only [Chain.apply]
    · rw [(c.dispatch_report he).1]
      exact h.relay e
    · rw [(c.dispatch_bookmark he).1]
      exact h.checkpoint e
    · rw [(c.dispatch_error he).1]
      exact h

/-- Where the subscribers are after an operation: sessions and events move nobody out of the oldest
generation. -/
theorem Gathered.subscribers_apply {c : Chain} (h : c.Gathered) (op : ChainOp) :
    (c.apply op).oldest.subscribers =
      match op with
      | .attach s => Generation.join s c.oldest.subscribers
      | .detach id => c.oldest.subscribers.filter fun s => s.id != id
      | _ => c.oldest.subscribers := by
  cases op with
  | advance id resumed => simp only [Chain.apply, (c.oldest_advance id resumed).2]
  | attach s => simp only [Chain.apply, c.oldest_attachOldest]; rfl
  | detach id => simp only [Chain.apply, h.oldest_detach]; rfl
  | dispatch e =>
    rcases isReport_cases e with he | he | he <;> simp only [Chain.apply]
    · rw [(c.dispatch_report he).1, oldest_relay, Generation.offer_fst]
    · rw [(c.dispatch_bookmark he).1, oldest_of_single rfl, h.checkpoint_subscribers]
    · rw [(c.dispatch_error he).1]

theorem Gathered.broadcast_eq {c : Chain} (h : c.Gathered) (e : Change) :
    c.broadcast e = c.oldest.subscribers.map fun s => ⟨s.id, e⟩ := by
  have hsilent :
      (c.newer.flatMap fun g => g.subscribers.map fun s => (⟨s.id, e⟩ : Delivery)) = [] := by
    rw [List.flatMap_eq_nil_iff]
    intro g hg
    rw [h.newer_empty g hg, List.map_nil]
  unfold broadcast
  rw [generations_eq, List.flatMap_append, hsilent, List.nil_append, List.flatMap_singleton]

theorem Gathered.eventsFor_dispatch_of_absent {c : Chain} (h : c.Gathered) {id : Nat}
    (hid : ∀ s ∈ c.oldest.subscribers, s.id ≠ id) (e : Change) :
    eventsFor id (c.sends (.dispatch e)) = [] := by
  simp only [sends]
  rcases isReport_cases e with he | he | he
  · rw [(c.dispatch_report he).2, h.relay_plan, Generation.offer_snd]
    split
    · exact Generation.eventsFor_sendTo_of_absent hid _
    · rfl
  · rw [(c.dispatch_bookmark he).2, h.checkpoint_plan, eventsFor_append,
      eventsFor_map_of_absent (fun s hs => hid s (List.mem_filter.mp hs).1), List.append_nil]
    unfold farewells vanished
    split
    · rfl
    · rw [eventsFor_flatMap, List.flatMap_eq_nil_iff]
      intro y _
      exact Generation.eventsFor_sendTo_of_absent hid _
  · rw [(c.dispatch_error he).2, h.broadcast_eq]
    exact eventsFor_map_of_absent hid e

/-- What a subscriber is sent of a report: the event under the kind of the oldest generation, if
that lets it through and the subscriber wants it. -/
theorem Gathered.eventsFor_report {c : Chain} (h : c.Gathered) {s : Subscriber}
    (hs : s ∈ c.oldest.subscribers) {e : Change} (he : e.isReport = true) :
    eventsFor s.id (c.sends (.dispatch e)) =
      if c.oldest.ledger.accepts e.resource e.version = true ∧ s.filter.accepts e.object = true then
        [e.retyped (c.oldest.kindOf (c.lastOffer e) e)]
      else [] := by
  simp only [sends]
  rw [(c.dispatch_report he).2, h.relay_plan, Generation.offer_snd]
  by_cases ha : c.oldest.ledger.accepts e.resource e.version = true
  · have ha' : c.oldest.ledger.accepts e.object.resource e.version = true := ha
    rw [if_pos ha', Generation.eventsFor_sendTo h.distinct hs, Change.retyped_object]
    simp only [ha, true_and]
  · have ha' : ¬ c.oldest.ledger.accepts e.object.resource e.version = true := ha
    rw [if_neg ha', if_neg fun hh => ha hh.1, eventsFor_nil]

theorem Gathered.eventsFor_error {c : Chain} (h : c.Gathered) {s : Subscriber}
    (hs : s ∈ c.oldest.subscribers) {e : Change} (he : e.kind = .error) :
    eventsFor s.id (c.sends (.dispatch e)) = [e] := by
  simp only [sends]
  rw [(c.dispatch_error he).2, h.broadcast_eq, eventsFor_map, filter_id h.distinct hs]
  rfl

/-- What a subscriber is sent of a bookmark: deletions of what it knew and the newest session does
not know, then the bookmark itself if it wants that. -/
theorem Gathered.eventsFor_bookmark {c : Chain} (h : c.Gathered) {s : Subscriber}
    (hs : s ∈ c.oldest.subscribers) {e : Change} (he : e.kind = .bookmark) :
    eventsFor s.id (c.sends (.dispatch e)) =
      eventsFor s.id (c.farewells e.version) ++ if s.filter.bookmarks = true then [e] else [] := by
  simp only [sends]
  rw [(c.dispatch_bookmark he).2, h.checkpoint_plan, eventsFor_append, eventsFor_map,
    filter_id_of_filter h.distinct hs]
  congr 1
  split <;> rfl

theorem Gathered.eventsFor_farewells {c : Chain} (h : c.Gathered) {s : Subscriber}
    (hs : s ∈ c.oldest.subscribers) (version : String) :
    eventsFor s.id (c.farewells version) =
      if c.head.resumed = true ∨ c.ancestors = [] then []
      else (c.oldest.ledger.known.filter fun y =>
          !c.head.ledger.contains y.1 && s.filter.accepts y.2).map
        fun y => .atVersion .deleted y.2 version := by
  unfold farewells
  split
  · rfl
  · exact eventsFor_vanished h.distinct hs _ _ _

/-- Whoever is sent something of a report is told of the resource that it is about. -/
theorem Gathered.reportsOf_dispatch_of_ne {c : Chain} (h : c.Gathered) (id : Nat) {e : Change}
    (he : e.isReport = true) {x : ResourceName} (hx : e.resource ≠ x) :
    reportsOf x (eventsFor id (c.sends (.dispatch e))) = [] := by
  simp only [sends]
  rw [(c.dispatch_report he).2, h.relay_plan, Generation.offer_snd]
  unfold reportsOf
  rw [List.filter_eq_nil_iff]
  intro f hf hreport
  have hfx : f.resource = x := by
    simp only [Bool.and_eq_true, decide_eq_true_eq] at hreport
    exact hreport.2
  apply hx
  rw [← hfx]
  split at hf
  · obtain ⟨s, -, hs⟩ := List.mem_map.mp (mem_eventsFor.mp hf)
    cases hs
    rfl
  · simp at hf

theorem run_gathered (id : Nat) (ops : List ChainOp) : ((Chain.first id).run ops).Gathered := by
  induction ops using List.reverseRecOn with
  | nil => exact .first id
  | append_singleton ops op ih =>
    rw [run_snoc]
    exact ih.apply op

end Chain

theorem Coherent.dispatch {past : List Change} {c : Chain} (h : Coherent past c) {e : Change}
    (ha : e.isReport = true → Admits past e) : Coherent (past ++ [e]) (c.dispatch e).1 := by
  rcases Chain.isReport_cases e with he | he | he
  · rw [(c.dispatch_report he).1]
    exact h.relay he (ha he)
  · rw [(c.dispatch_bookmark he).1]
    exact (h.checkpoint e).skip (Chain.isReport_of_bookmark he)
  · rw [(c.dispatch_error he).1]
    exact h.skip (Chain.isReport_of_error he)

theorem Coherent.apply {past : List Change} {c : Chain} (h : Coherent past c) (op : ChainOp)
    (ha : ∀ e, op = .dispatch e → e.isReport = true → Admits past e) :
    Coherent (past ++ dispatched [op]) (c.apply op) := by
  cases op with
  | advance id resumed =>
    rw [dispatched_singleton]
    simpa [ChainOp.event?, Chain.apply] using h.advance id resumed
  | attach s =>
    rw [dispatched_singleton]
    simpa [ChainOp.event?, Chain.apply] using h.attachOldest s
  | detach id =>
    rw [dispatched_singleton]
    simpa [ChainOp.event?, Chain.apply] using h.detach id
  | dispatch e => exact h.dispatch (ha e rfl)

theorem Chain.run_coherent (id : Nat) {ops : List ChainOp} (h : Orderly (dispatched ops)) :
    Coherent (dispatched ops) ((Chain.first id).run ops) := by
  induction ops using List.reverseRecOn with
  | nil => exact .first id
  | append_singleton ops op ih =>
    -- the last operation dispatches what may come after all before it
    rw [dispatched_append] at h ⊢
    rw [Chain.run_snoc]
    refine (ih h.of_append).apply op ?_
    rintro e rfl he
    exact h.admits he

/-- Of one resource a new subscriber is sent the state that the oldest ledger shows. -/
theorem Coherent.reportsOf_primed {past : List Change} {c : Chain} (h : Coherent past c)
    (filter : Filter) (x : ResourceName) :
    reportsOf x (c.primed filter) =
      ((c.oldest.ledger.shows x).toList.filter filter.accepts).map (.ofRecord .added) := by
  have hlive := Ledger.filter_live (h.keyed c.oldest_mem) x
  unfold reportsOf Chain.primed
  rw [← hlive, List.filter_map, List.filter_filter, List.filter_filter]
  congr 1
  refine List.filter_congr fun r _ => ?_
  show (decide (r.resource = x) && filter.accepts r) = (filter.accepts r && decide (r.resource = x))
  exact Bool.and_comm _ _

end SharedWatch
