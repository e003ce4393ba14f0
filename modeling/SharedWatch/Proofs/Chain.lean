import SharedWatch.Proofs.Ledger
import SharedWatch.Proofs.Reports
import SharedWatch.Sharing.Generation

/-!
The shape of a chain under its operations.

A chain is its generations, newest first, and the last of them is the oldest one. New subscribers
belong to the oldest generation, so in every chain that was only ever joined there all subscribers
are in it (`Gathered`); then what a subscriber is sent is decided by the oldest ledger alone
(`relay_plan`).

`eventsFor` is the part of a plan that one subscriber gets.
-/

namespace SharedWatch

/-- What a plan sends to one subscriber, in order. -/
def eventsFor (id : Nat) (plan : List Delivery) : List Change :=
  (plan.filter fun d => d.subscriber == id).map (·.event)

@[simp] theorem eventsFor_nil (id : Nat) : eventsFor id [] = [] := rfl

@[simp] theorem eventsFor_append (id : Nat) (p q : List Delivery) :
    eventsFor id (p ++ q) = eventsFor id p ++ eventsFor id q := by
  simp [eventsFor]

theorem eventsFor_cons_of_ne {id : Nat} {d : Delivery} (h : d.subscriber ≠ id)
    (plan : List Delivery) : eventsFor id (d :: plan) = eventsFor id plan := by
  simp [eventsFor, h]

theorem eventsFor_sublist {p q : List Delivery} (h : p.Sublist q) (id : Nat) :
    (eventsFor id p).Sublist (eventsFor id q) := (h.filter _).map _

theorem eventsFor_flatMap {α : Type} (id : Nat) (f : α → List Delivery) (xs : List α) :
    eventsFor id (xs.flatMap f) = xs.flatMap fun x => eventsFor id (f x) := by
  induction xs with
  | nil => rfl
  | cons x rest ih => simp [ih]

theorem eventsFor_map (id : Nat) (subs : List Subscriber) (e : Change) :
    eventsFor id (subs.map fun s => ⟨s.id, e⟩) =
      (subs.filter fun s => s.id == id).map fun _ => e := by
  simp [eventsFor, List.filter_map, Function.comp_def]

theorem eventsFor_map_of_absent {id : Nat} {subs : List Subscriber} (h : ∀ s ∈ subs, s.id ≠ id)
    (e : Change) : eventsFor id (subs.map fun s => ⟨s.id, e⟩) = [] := by
  rw [eventsFor_map, List.map_eq_nil_iff, List.filter_eq_nil_iff]
  intro s hs hid
  exact h s hs (eq_of_beq hid)

theorem eventsFor_address (id n : Nat) (events : List Change) :
    eventsFor id (events.map fun e => ⟨n, e⟩) = if n = id then events else [] := by
  simp only [eventsFor, List.filter_map]
  by_cases h : n = id <;> simp [h, Function.comp_def]

theorem mem_eventsFor {id : Nat} {plan : List Delivery} {e : Change} :
    e ∈ eventsFor id plan ↔ ⟨id, e⟩ ∈ plan := by
  constructor
  · intro h
    obtain ⟨d, hd, rfl⟩ := List.mem_map.mp h
    obtain ⟨hd, hid⟩ := List.mem_filter.mp hd
    rw [← eq_of_beq hid]
    exact hd
  · intro h
    exact List.mem_map.mpr ⟨_, List.mem_filter.mpr ⟨h, by simp⟩, rfl⟩

theorem eventsFor_eq_nil {id : Nat} {plan : List Delivery} (h : ∀ d ∈ plan, d.subscriber ≠ id) :
    eventsFor id plan = [] := by
  unfold eventsFor
  rw [List.map_eq_nil_iff, List.filter_eq_nil_iff]
  intro d hd hid
  exact h d hd (eq_of_beq hid)

/-- Among subscribers with distinct numbers, one number is one subscriber. -/
theorem filter_id {subs : List Subscriber} (hd : (subs.map (·.id)).Nodup) {s : Subscriber}
    (hs : s ∈ subs) : subs.filter (fun t => t.id == s.id) = [s] := by
  induction subs with
  | nil => simp at hs
  | cons t rest ih =>
    obtain ⟨ht, hrest⟩ := List.nodup_cons.mp hd
    rcases List.mem_cons.mp hs with rfl | hs
    · have hnone : rest.filter (fun t => t.id == s.id) = [] := by
        rw [List.filter_eq_nil_iff]
        intro u hu hid
        exact ht (List.mem_map.mpr ⟨u, hu, eq_of_beq hid⟩)
      simp [hnone]
    · have hne : (t.id == s.id) = false := by
        rw [beq_eq_false_iff_ne]
        intro hid
        exact ht (List.mem_map.mpr ⟨s, hs, hid.symm⟩)
      rw [List.filter_cons_of_neg (by simp [hne]), ih hrest hs]

/-- Of those who want something, one number is one subscriber or nobody. -/
theorem filter_id_of_filter {subs : List Subscriber} (hd : (subs.map (·.id)).Nodup)
    {s : Subscriber} (hs : s ∈ subs) (wants : Subscriber → Bool) :
    (subs.filter wants).filter (fun t => t.id == s.id) = if wants s = true then [s] else [] := by
  have hcomm : (subs.filter wants).filter (fun t => t.id == s.id) =
      (subs.filter fun t => t.id == s.id).filter wants := by
    rw [List.filter_filter, List.filter_filter]
    exact List.filter_congr fun t _ => Bool.and_comm _ _
  rw [hcomm, filter_id hd hs, List.filter_singleton, Bool.cond_eq_ite]

namespace Generation

theorem sendTo_nil (e : Change) : sendTo [] e = [] := rfl

theorem eventsFor_sendTo {subs : List Subscriber} (hd : (subs.map (·.id)).Nodup) {s : Subscriber}
    (hs : s ∈ subs) (e : Change) :
    eventsFor s.id (sendTo subs e) = if s.filter.accepts e.object = true then [e] else [] := by
  unfold sendTo
  rw [eventsFor_map, filter_id_of_filter hd hs]
  split <;> rfl

theorem eventsFor_sendTo_of_absent {subs : List Subscriber} {id : Nat}
    (h : ∀ s ∈ subs, s.id ≠ id) (e : Change) : eventsFor id (sendTo subs e) = [] :=
  eventsFor_map_of_absent (fun s hs => h s (List.mem_filter.mp hs).1) e

/-! ## Offers -/

theorem offer_fst (g : Generation) (how : Offer) (e : Change) :
    (g.offer how e).1 =
      { g with ledger := g.ledger.accept (g.kindOf how e) e.object e.version } := by
  unfold offer
  by_cases h : g.ledger.accepts e.object.resource e.version = true <;> simp [h, Ledger.accept]

theorem offer_snd (g : Generation) (how : Offer) (e : Change) :
    (g.offer how e).2 =
      if g.ledger.accepts e.object.resource e.version = true then
        sendTo g.subscribers (e.retyped (g.kindOf how e))
      else [] := by
  unfold offer
  by_cases h : g.ledger.accepts e.object.resource e.version = true <;> simp [h]

/-- An event keeps its meaning in every generation: only a deletion enters as one. -/
theorem kindOf_deleted_iff (g : Generation) {how : Offer} {e : Change}
    (h : how = .fresh e.kind ∨ how = .replay ∧ e.kind = .added) :
    g.kindOf how e = .deleted ↔ e.kind = .deleted := by
  rcases h with rfl | ⟨rfl, he⟩
  · rfl
  · rcases g.ledger.replayKind_eq e.object.resource with hk | hk <;> simp [kindOf, hk, he]

theorem kindOf_isReport (g : Generation) {how : Offer} {e : Change} (he : e.isReport = true)
    (h : how = .fresh e.kind ∨ how = .replay ∧ e.kind = .added) :
    (e.retyped (g.kindOf how e)).isReport = true := by
  rcases h with rfl | ⟨rfl, -⟩
  · simpa [kindOf, Change.isReport, Change.retyped] using he
  · rcases g.ledger.replayKind_eq e.object.resource with hk | hk <;>
      simp [kindOf, hk, Change.isReport, Change.retyped]

end Generation

namespace Chain

/-! ## Generations -/

/-- All generations but the oldest, newest first. -/
def newer (c : Chain) : List Generation := c.generations.dropLast

theorem generations_eq (c : Chain) : c.generations = c.newer ++ [c.oldest] := by
  obtain ⟨head, ancestors⟩ := c
  have h : (head :: ancestors).getLast (List.cons_ne_nil _ _) = ancestors.getLastD head := by
    cases ancestors with
    | nil => rfl
    | cons g rest => rfl
  simp only [newer, generations, oldest, ← h, List.dropLast_concat_getLast]

theorem eq_oldest {c : Chain} {front : List Generation} {g : Generation}
    (h : c.generations = front ++ [g]) : c.newer = front ∧ c.oldest = g := by
  have h' := c.generations_eq.symm.trans h
  have hl := List.append_inj' h' rfl
  exact ⟨hl.1, List.head_eq_of_cons_eq hl.2⟩

theorem oldest_mem (c : Chain) : c.oldest ∈ c.generations := by
  rw [generations_eq]
  simp

theorem head_mem (c : Chain) : c.head ∈ c.generations := List.mem_cons_self

theorem oldest_of_single {c : Chain} (h : c.ancestors = []) : c.oldest = c.head := by
  simp [oldest, h]

/-- After a resumed session, or without an older one, a bookmark keeps what the oldest ledger shows.
-/
theorem kept {c : Chain} (h : c.head.resumed = true ∨ c.ancestors = []) (x : ResourceName) :
    (if c.head.resumed = true then c.oldest.ledger.shows x else c.head.ledger.shows x) =
      c.oldest.ledger.shows x := by
  split
  · rfl
  · next hr => rw [Chain.oldest_of_single (h.resolve_left hr)]

theorem newer_of_single {c : Chain} (h : c.ancestors = []) : c.newer = [] := by
  simp [newer, generations, h]

theorem head_mem_newer {c : Chain} (h : c.ancestors ≠ []) : c.head ∈ c.newer := by
  unfold newer generations
  rw [List.dropLast_cons_of_ne_nil h]
  exact List.mem_cons_self

theorem exists_front {c : Chain} (h : c.ancestors ≠ []) :
    ∃ front, c.ancestors = front ++ [c.oldest] ∧ c.newer = c.head :: front := by
  obtain ⟨front, g, hfg⟩ := (List.eq_nil_or_concat c.ancestors).resolve_left h
  rw [List.concat_eq_append] at hfg
  have hgen : c.generations = (c.head :: front) ++ [g] := by simp [generations, hfg]
  obtain ⟨hn, ho⟩ := eq_oldest hgen
  exact ⟨front, by rw [ho]; exact hfg, hn⟩

theorem changeLast_append (f : Generation → Generation) (front : List Generation) (g : Generation) :
    changeLast f (front ++ [g]) = front ++ [f g] := by
  induction front with
  | nil => rfl
  | cons a rest ih =>
    cases hr : rest ++ [g] with
    | nil => simp at hr
    | cons b more => rw [hr] at ih; simp [changeLast, hr, ih]

theorem generations_attachOldest (c : Chain) (s : Subscriber) :
    (c.attachOldest s).generations = c.newer ++ [c.oldest.attach s] := by
  have h : (c.attachOldest s).generations = changeLast (·.attach s) c.generations := by
    obtain ⟨head, ancestors⟩ := c
    cases ancestors <;> rfl
  rw [h, generations_eq, changeLast_append]

theorem oldest_attachOldest (c : Chain) (s : Subscriber) :
    (c.attachOldest s).oldest = c.oldest.attach s :=
  (eq_oldest (c.generations_attachOldest s)).2

/-- Who is there after somebody has joined: whoever joins takes the place of its number. -/
theorem mem_attachOldest {c : Chain} {s t : Subscriber}
    (ht : t ∈ (c.attachOldest s).oldest.subscribers) :
    t = s ∨ t.id ≠ s.id ∧ t ∈ c.oldest.subscribers := by
  rw [oldest_attachOldest] at ht
  rcases List.mem_append.mp ht with ht | ht
  · obtain ⟨ht, hne⟩ := List.mem_filter.mp ht
    exact Or.inr ⟨by simpa using hne, ht⟩
  · exact Or.inl (List.mem_singleton.mp ht)

theorem generations_advance (c : Chain) (id : Nat) (resumed : Bool) :
    (c.advance id resumed).generations = .new id resumed :: c.generations := rfl

theorem oldest_advance (c : Chain) (id : Nat) (resumed : Bool) :
    (c.advance id resumed).newer = .new id resumed :: c.newer ∧
      (c.advance id resumed).oldest = c.oldest :=
  eq_oldest (by rw [generations_advance, generations_eq]; rfl)

/-- What the generations are and know, apart from who is in them. -/
def lineage (c : Chain) : List (Bool × Ledger) := c.generations.map fun g => (g.resumed, g.ledger)

theorem lineage_attachOldest (c : Chain) (s : Subscriber) :
    (c.attachOldest s).lineage = c.lineage := by
  unfold lineage
  rw [generations_attachOldest, c.generations_eq]
  simp [Generation.attach]

theorem lineage_attachHead (c : Chain) (s : Subscriber) :
    (c.attachHead s).lineage = c.lineage := rfl

theorem map_detachFrom (id : Nat) (gs : List Generation) :
    (detachFrom id gs).map (fun g => (g.resumed, g.ledger)) =
      gs.map fun g => (g.resumed, g.ledger) := by
  induction gs with
  | nil => rfl
  | cons g rest ih =>
    rw [detachFrom]
    split
    · rfl
    · rw [List.map_cons, List.map_cons, ih]

theorem generations_detach (c : Chain) (id : Nat) :
    (c.detach id).generations = detachFrom id c.generations := by
  simp only [detach, generations, detachFrom]
  split <;> rfl

theorem lineage_detach (c : Chain) (id : Nat) : (c.detach id).lineage = c.lineage := by
  unfold lineage
  rw [generations_detach, map_detachFrom]

theorem head_of_lineage {c c' : Chain} (h : c'.lineage = c.lineage) :
    c'.head.resumed = c.head.resumed ∧ c'.head.ledger = c.head.ledger ∧
      (c'.ancestors = [] ↔ c.ancestors = []) := by
  simp only [lineage, generations, List.map_cons, List.cons.injEq, Prod.mk.injEq] at h
  obtain ⟨⟨hresumed, hledger⟩, hancestors⟩ := h
  refine ⟨hresumed, hledger, ?_⟩
  rw [← List.map_eq_nil_iff (f := fun g : Generation => (g.resumed, g.ledger)), hancestors,
    List.map_eq_nil_iff]

theorem exists_of_lineage {c c' : Chain} (h : c'.lineage = c.lineage) {g' : Generation}
    (hg : g' ∈ c'.generations) : ∃ g ∈ c.generations, g.ledger = g'.ledger := by
  have hpair : (g'.resumed, g'.ledger) ∈ c.lineage := h ▸ List.mem_map_of_mem hg
  obtain ⟨g, hg, hsame⟩ := List.mem_map.mp hpair
  exact ⟨g, hg, congrArg Prod.snd hsame⟩

theorem oldest_of_lineage {c c' : Chain} (h : c'.lineage = c.lineage) :
    c'.oldest.ledger = c.oldest.ledger := by
  unfold lineage at h
  rw [generations_eq, generations_eq] at h
  simp only [List.map_append, List.map_cons, List.map_nil] at h
  exact congrArg Prod.snd (List.head_eq_of_cons_eq (List.append_inj' h rfl).2)

/-! ## Where subscribers live -/

/-- Every subscriber is in the oldest generation, and their numbers differ. -/
structure Gathered (c : Chain) : Prop where
  newer_empty : ∀ g ∈ c.newer, g.subscribers = []
  distinct : (c.oldest.subscribers.map (·.id)).Nodup

theorem detachFrom_append {front : List Generation} (h : ∀ g ∈ front, g.subscribers = [])
    (g : Generation) (id : Nat) : detachFrom id (front ++ [g]) = front ++ [g.detach id] := by
  induction front with
  | nil =>
    by_cases hg : g.has id = true
    · simp [detachFrom, hg]
    -- where nobody has the number, there is nobody to take out
    · have hself : g.subscribers.filter (fun s => s.id != id) = g.subscribers := by
        rw [List.filter_eq_self]
        intro s hs
        have hne : (s.id == id) = false := by
          have := hg
          simp only [Generation.has, List.any_eq_true, not_exists, not_and] at this
          simpa using this s hs
        simp [bne, hne]
      simp [detachFrom, hg, Generation.detach, hself]
  | cons a rest ih =>
    have ha : a.has id = false := by simp [Generation.has, h a List.mem_cons_self]
    simp [detachFrom, ha, ih fun b hb => h b (List.mem_cons_of_mem _ hb)]

namespace Gathered
variable {c : Chain}

theorem first (id : Nat) : (Chain.first id).Gathered :=
  ⟨by simp [newer, generations, Chain.first], by simp [oldest, Chain.first, Generation.new]⟩

theorem generations_detach (h : c.Gathered) (id : Nat) :
    (c.detach id).generations = c.newer ++ [c.oldest.detach id] := by
  rw [c.generations_detach, generations_eq, detachFrom_append h.newer_empty]

theorem oldest_detach (h : c.Gathered) (id : Nat) :
    (c.detach id).oldest = c.oldest.detach id := (eq_oldest (h.generations_detach id)).2

theorem detach (h : c.Gathered) (id : Nat) : (c.detach id).Gathered := by
  refine ⟨by rw [(eq_oldest (h.generations_detach id)).1]; exact h.newer_empty, ?_⟩
  rw [h.oldest_detach]
  exact h.distinct.sublist (List.filter_sublist.map _)

theorem attachOldest (h : c.Gathered) (s : Subscriber) : (c.attachOldest s).Gathered := by
  refine ⟨by rw [(eq_oldest (c.generations_attachOldest s)).1]; exact h.newer_empty, ?_⟩
  rw [oldest_attachOldest]
  simp only [Generation.attach, Generation.join, List.map_append, List.map_cons, List.map_nil]
  refine List.nodup_append.mpr ⟨h.distinct.sublist (List.filter_sublist.map _), by simp, ?_⟩
  intro a ha b hb
  obtain ⟨t, ht, rfl⟩ := List.mem_map.mp ha
  rw [List.mem_singleton.mp hb]
  simpa using (List.mem_filter.mp ht).2

theorem advance (h : c.Gathered) (id : Nat) (resumed : Bool) : (c.advance id resumed).Gathered := by
  obtain ⟨hn, ho⟩ := oldest_advance c id resumed
  refine ⟨?_, by rw [ho]; exact h.distinct⟩
  intro g hg
  rw [hn] at hg
  rcases List.mem_cons.mp hg with rfl | hg
  · rfl
  · exact h.newer_empty g hg

/-- Whoever is somewhere in the chain is in the oldest generation. -/
theorem mem_oldest (h : c.Gathered) {g : Generation} (hg : g ∈ c.generations) {s : Subscriber}
    (hs : s ∈ g.subscribers) : s ∈ c.oldest.subscribers := by
  rw [generations_eq] at hg
  rcases List.mem_append.mp hg with hg | hg
  · rw [h.newer_empty g hg] at hs
    simp at hs
  · rwa [List.mem_singleton.mp hg] at hs

theorem head_empty (h : c.Gathered) (ha : c.ancestors ≠ []) : c.head.subscribers = [] :=
  h.newer_empty _ (head_mem_newer ha)

end Gathered

/-! ## Relaying an event -/

/-- How an event reaches the oldest generation. -/
def lastOffer (c : Chain) (e : Change) : Offer :=
  if c.ancestors = [] then .fresh e.kind else downstream e

theorem downstream_eq (e : Change) :
    downstream e = .fresh e.kind ∨ downstream e = .replay ∧ e.kind = .added := by
  unfold downstream
  split
  · next h => exact Or.inr ⟨rfl, h.1⟩
  · exact Or.inl rfl

theorem lastOffer_eq (c : Chain) (e : Change) :
    c.lastOffer e = .fresh e.kind ∨ c.lastOffer e = .replay ∧ e.kind = .added := by
  unfold lastOffer
  split
  · exact Or.inl rfl
  · exact downstream_eq e

theorem generations_relay (c : Chain) (e : Change) :
    (c.relay e).1.generations = (c.head.offer (.fresh e.kind) e).1 ::
      c.ancestors.map fun g => (g.offer (downstream e) e).1 := by
  simp [relay, generations]

theorem head_relay (c : Chain) (e : Change) :
    (c.relay e).1.head.resumed = c.head.resumed ∧
      ∀ x, (c.relay e).1.head.ledger.contains x = true ↔
        c.head.ledger.contains x = true ∨ e.resource = x := by
  have hhead : (c.relay e).1.head = (c.head.offer (.fresh e.kind) e).1 := rfl
  rw [hhead, Generation.offer_fst]
  exact ⟨rfl, Ledger.contains_accept _ _ e.object e.version⟩

theorem relay_whole {c : Chain} (h : c.head.resumed = true ∨ c.ancestors = []) (e : Change) :
    (c.relay e).1.head.resumed = true ∨ (c.relay e).1.ancestors = [] := by
  rw [(c.head_relay e).1]
  exact h.imp_right fun ha => by simp [relay, ha]

theorem oldest_relay (c : Chain) (e : Change) :
    (c.relay e).1.oldest = (c.oldest.offer (c.lastOffer e) e).1 := by
  obtain ⟨head, ancestors⟩ := c
  simp only [oldest, relay, lastOffer]
  cases ancestors using List.reverseRecOn with
  | nil => rfl
  | append_singleton front g => simp

theorem mem_relay {c : Chain} {e : Change} {g' : Generation} (h : g' ∈ (c.relay e).1.generations) :
    ∃ g ∈ c.generations, ∃ how, (how = .fresh e.kind ∨ how = .replay ∧ e.kind = .added) ∧
      g' = (g.offer how e).1 := by
  rw [generations_relay] at h
  rcases List.mem_cons.mp h with rfl | h
  · exact ⟨c.head, c.head_mem, _, Or.inl rfl, rfl⟩
  · obtain ⟨g, hg, rfl⟩ := List.mem_map.mp h
    exact ⟨g, List.mem_cons_of_mem _ hg, _, downstream_eq e, rfl⟩

theorem mem_newer_relay {c : Chain} {e : Change} {g' : Generation}
    (h : g' ∈ (c.relay e).1.newer) : ∃ g ∈ c.newer, g'.subscribers = g.subscribers := by
  obtain ⟨head, ancestors⟩ := c
  simp only [newer, generations_relay] at h ⊢
  cases ancestors using List.reverseRecOn with
  | nil => simp at h
  | append_singleton front g =>
    simp only [List.map_append, List.map_cons, List.map_nil, ← List.cons_append,
      List.dropLast_concat] at h
    simp only [generations, ← List.cons_append, List.dropLast_concat]
    rcases List.mem_cons.mp h with rfl | h
    · exact ⟨head, List.mem_cons_self, by rw [Generation.offer_fst]⟩
    · obtain ⟨a, ha, rfl⟩ := List.mem_map.mp h
      exact ⟨a, List.mem_cons_of_mem _ ha, by rw [Generation.offer_fst]⟩

theorem Gathered.relay {c : Chain} (h : c.Gathered) (e : Change) : (c.relay e).1.Gathered := by
  refine ⟨?_, ?_⟩
  · intro g' hg'
    obtain ⟨g, hg, hsub⟩ := mem_newer_relay hg'
    rw [hsub, h.newer_empty g hg]
  · rw [oldest_relay, Generation.offer_fst]
    exact h.distinct

theorem offer_snd_of_empty {g : Generation} (h : g.subscribers = []) (how : Offer) (e : Change) :
    (g.offer how e).2 = [] := by
  rw [Generation.offer_snd, h]
  split <;> rfl

/-- Where all subscribers are in the oldest generation, an event is sent as that one takes it. -/
theorem Gathered.relay_plan {c : Chain} (h : c.Gathered) (e : Change) :
    (c.relay e).2 = (c.oldest.offer (c.lastOffer e) e).2 := by
  have hplan : (c.relay e).2 =
      (c.ancestors.map fun g => (g.offer (downstream e) e).2).reverse.flatten ++
        (c.head.offer (.fresh e.kind) e).2 := by
    simp [Chain.relay, Function.comp_def]
  rw [hplan]
  by_cases ha : c.ancestors = []
  · simp [ha, lastOffer, oldest_of_single ha]
  · obtain ⟨front, hfront, hnewer⟩ := exists_front ha
    have hempty := h.newer_empty
    rw [hnewer] at hempty
    -- only the oldest generation has anybody to send to
    have hsilent : ∀ p ∈ (front.map fun a => (a.offer (downstream e) e).2).reverse, p = [] := by
      intro p hp
      obtain ⟨a, ha, rfl⟩ := List.mem_map.mp (List.mem_reverse.mp hp)
      exact offer_snd_of_empty (hempty a (List.mem_cons_of_mem _ ha)) _ _
    rw [offer_snd_of_empty (hempty _ List.mem_cons_self), lastOffer, if_neg ha, hfront]
    simp [List.flatten_eq_nil_iff.mpr hsilent]

end Chain

end SharedWatch
