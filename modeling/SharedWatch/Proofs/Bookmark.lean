import SharedWatch.Proofs.Coherence

/-!
What a bookmark sends and whom it takes over.

When a full replay is complete, each subscriber is told of the resources that were not replayed,
among those that its generation and the ones before it know (`Chain.checkpoint_ghosts`). With all
subscribers in the oldest generation only the oldest ledger counts: `checkpoint_plan` gives the
whole plan, `eventsFor_vanished` the part of one subscriber.
-/

namespace SharedWatch

namespace Ledger

/-- The live objects by name. -/
def known (l : Ledger) : Chain.Known :=
  (l.entries.filter fun y => y.2.isLive).map fun y => (y.1, y.2.object)

theorem mem_known {l : Ledger} {x : ResourceName} {r : Record} :
    (x, r) ∈ l.known ↔ l.shows x = some r := by
  rw [shows_eq_some]
  simp only [known, List.mem_map, List.mem_filter, Prod.mk.injEq, Prod.exists]
  constructor
  · rintro ⟨n, en, ⟨hmem, hlive⟩, rfl, rfl⟩
    exact ⟨en, mem_entries.mp hmem, hlive, rfl⟩
  · rintro ⟨en, hget, hlive, rfl⟩
    exact ⟨x, en, ⟨mem_entries.mpr hget, hlive⟩, rfl, rfl⟩

end Ledger

namespace Chain

theorem forget_of_absent {known : Known} {name : ResourceName} (h : ∀ k ∈ known, k.1 ≠ name) :
    forget known name = known := by
  unfold forget
  rw [List.filter_eq_self]
  intro k hk
  simpa using h k hk

/-- Learning distinct names in turn collects the live ones. -/
theorem foldl_learn {entries : List (ResourceName × Entry)} (known : Known)
    (hd : entries.Pairwise (fun a b => a.1 ≠ b.1))
    (hk : ∀ k ∈ known, ∀ y ∈ entries, k.1 ≠ y.1) :
    entries.foldl learn known =
      known ++ (entries.filter fun y => y.2.isLive).map fun y => (y.1, y.2.object) := by
  induction entries generalizing known with
  | nil => simp
  | cons y rest ih =>
    obtain ⟨hy, hrest⟩ := List.pairwise_cons.mp hd
    have hf : forget known y.1 = known :=
      forget_of_absent fun k hk' => hk k hk' y List.mem_cons_self
    rw [List.foldl_cons, learn, hf]
    cases hl : y.2.isLive
    · rw [List.filter_cons_of_neg (by simp [hl])]
      exact ih known hrest fun k hk' z hz => hk k hk' z (List.mem_cons_of_mem _ hz)
    · rw [List.filter_cons_of_pos (by simp [hl]), if_pos rfl, ih _ hrest]
      · simp
      · intro k hk' z hz
        rcases List.mem_append.mp hk' with hk' | hk'
        · exact hk k hk' z (List.mem_cons_of_mem _ hz)
        · rw [List.mem_singleton.mp hk']
          exact hy z hz

theorem foldl_learn_ledger (l : Ledger) : l.entries.foldl learn [] = l.known := by
  rw [foldl_learn [] l.distinct (by simp)]
  rfl

theorem foldl_join {acc subs : List Subscriber} (hd : (subs.map (·.id)).Nodup)
    (h : ∀ t ∈ acc, ∀ s ∈ subs, t.id ≠ s.id) :
    subs.foldl (fun all s => Generation.join s all) acc = acc ++ subs := by
  induction subs generalizing acc with
  | nil => simp
  | cons s rest ih =>
    obtain ⟨hs, hrest⟩ := List.nodup_cons.mp hd
    have hjoin : Generation.join s acc = acc ++ [s] := by
      unfold Generation.join
      rw [List.filter_eq_self.mpr]
      intro t ht
      simpa using h t ht s List.mem_cons_self
    rw [List.foldl_cons, hjoin, ih hrest, List.append_assoc]
    · rfl
    · intro t ht u hu
      rcases List.mem_append.mp ht with ht | ht
      · exact h t ht u (List.mem_cons_of_mem _ hu)
      · rw [List.mem_singleton.mp ht]
        intro hid
        exact hs (List.mem_map.mpr ⟨u, hu, hid.symm⟩)

/-! ## Whom a bookmark takes over -/

/-- Whether no two subscribers of some generations have one number. -/
def Apart (gs : List Generation) : Prop := ((gs.flatMap (·.subscribers)).map (·.id)).Nodup

instance (gs : List Generation) : Decidable (Apart gs) :=
  inferInstanceAs (Decidable (List.Nodup _))

namespace Apart
variable {g : Generation} {gs : List Generation}

theorem of_cons (h : Apart (g :: gs)) : (g.subscribers.map (·.id)).Nodup ∧ Apart gs := by
  unfold Apart at h
  rw [List.flatMap_cons, List.map_append, List.nodup_append] at h
  exact ⟨h.1, h.2.1⟩

theorem of_append {newer : List Generation} (h : Apart (newer ++ gs)) : Apart gs := by
  induction newer with
  | nil => exact h
  | cons a rest ih => exact ih h.of_cons.2

/-- A subscriber and one of an older generation have different numbers. -/
theorem id_ne (h : Apart (g :: gs)) {s t : Subscriber} (hs : s ∈ g.subscribers) {older : Generation}
    (holder : older ∈ gs) (ht : t ∈ older.subscribers) : s.id ≠ t.id := by
  unfold Apart at h
  rw [List.flatMap_cons, List.map_append, List.nodup_append] at h
  exact h.2.2 s.id (List.mem_map_of_mem hs) t.id
    (List.mem_map_of_mem (List.mem_flatMap.mpr ⟨older, holder, ht⟩))

end Apart

/-- A bookmark adds the others to the subscribers of the newest generation, those of the oldest
first. -/
theorem checkpoint_joined {c : Chain} (h : Apart c.generations) (e : Change) :
    (c.checkpoint e).1.head.subscribers =
      c.head.subscribers ++ c.ancestors.reverse.flatMap (·.subscribers) := by
  have hsubs : (c.checkpoint e).1.head.subscribers =
      (c.ancestors.reverse.flatMap (·.subscribers)).foldl (fun all s => Generation.join s all)
        c.head.subscribers := (List.foldl_flatMap ..).symm
  have hperm : (c.ancestors.reverse.flatMap (·.subscribers)).Perm
      (c.ancestors.flatMap (·.subscribers)) := (List.reverse_perm _).flatMap_right _
  have hothers : ((c.ancestors.flatMap (·.subscribers)).map (·.id)).Nodup := h.of_cons.2
  rw [hsubs, foldl_join ((hperm.map _).nodup_iff.mpr hothers)]
  intro t ht s hs
  obtain ⟨g, hg, hs⟩ := List.mem_flatMap.mp (hperm.mem_iff.mp hs)
  exact h.id_ne ht hg hs

/-! ## What a bookmark sends -/

/-- What some generations, newest first, know to exist. -/
def knownBy : List Generation → Known
  | [] => []
  | g :: older => g.ledger.entries.foldl learn (knownBy older)

/-- The deletions for the subscribers of some generations, newest first, the oldest told first. -/
def departures (l : Ledger) (version : String) : List Generation → List Delivery
  | [] => []
  | g :: older =>
    departures l version older ++ vanished l (knownBy (g :: older)) g.subscribers version

theorem vanishedThrough_append (l : Ledger) (version : String) (known : Known)
    (gs hs : List Generation) :
    vanishedThrough l version known (gs ++ hs) =
      let before := vanishedThrough l version known gs
      let after := vanishedThrough l version before.1 hs
      (after.1, before.2 ++ after.2) := by
  induction gs generalizing known with
  | nil => rfl
  | cons g rest ih => simp [vanishedThrough, ih]

theorem vanishedThrough_reverse (l : Ledger) (version : String) (gs : List Generation) :
    vanishedThrough l version [] gs.reverse = (knownBy gs, departures l version gs) := by
  induction gs with
  | nil => rfl
  | cons g older ih =>
    rw [List.reverse_cons, vanishedThrough_append, ih]
    simp [vanishedThrough, departures, knownBy]

/-- The deletions that a bookmark of a version makes up, wherever the subscribers are. -/
def ghosts (c : Chain) (version : String) : List Delivery :=
  if c.head.resumed = true ∨ c.ancestors = [] then []
  else departures c.head.ledger version c.ancestors ++
    vanished c.head.ledger (knownBy c.ancestors) c.head.subscribers version

/-- The deletions come before the bookmark, which goes to those who asked for it. -/
theorem checkpoint_ghosts (c : Chain) (e : Change) :
    (c.checkpoint e).2.1 = c.ghosts e.version ++
      ((c.checkpoint e).1.head.subscribers.filter (·.filter.bookmarks)).map fun s => ⟨s.id, e⟩ := by
  simp only [checkpoint, vanishedThrough_reverse]
  rfl

theorem vanished_nil (l : Ledger) (known : Known) (version : String) :
    vanished l known [] version = [] := by
  simp [vanished, Generation.sendTo_nil]

theorem departures_of_empty {l : Ledger} {version : String} {front : List Generation}
    (h : ∀ g ∈ front, g.subscribers = []) (older : List Generation) :
    departures l version (front ++ older) = departures l version older := by
  induction front with
  | nil => rfl
  | cons g rest ih =>
    rw [List.cons_append, departures, h g List.mem_cons_self, vanished_nil, List.append_nil]
    exact ih fun a ha => h a (List.mem_cons_of_mem _ ha)

/-- The deletions that a bookmark of a version makes up. -/
def farewells (c : Chain) (version : String) : List Delivery :=
  if c.head.resumed = true ∨ c.ancestors = [] then []
  else vanished c.head.ledger c.oldest.ledger.known c.oldest.subscribers version

namespace Gathered
variable {c : Chain}

theorem apart (h : c.Gathered) : Apart c.generations := by
  have hsilent : c.newer.flatMap (·.subscribers) = [] := List.flatMap_eq_nil_iff.mpr h.newer_empty
  unfold Apart
  rw [generations_eq, List.flatMap_append, hsilent, List.nil_append, List.flatMap_singleton]
  exact h.distinct

/-- Nobody is between the newest generation and the oldest one. -/
theorem exists_empty_front (h : c.Gathered) (ha : c.ancestors ≠ []) :
    ∃ front, c.ancestors = front ++ [c.oldest] ∧ ∀ g ∈ front, g.subscribers = [] := by
  obtain ⟨front, hfront, hnewer⟩ := exists_front ha
  refine ⟨front, hfront, fun g hg => h.newer_empty g ?_⟩
  rw [hnewer]
  exact List.mem_cons_of_mem _ hg

/-- A bookmark takes over the subscribers of the oldest generation, in their order. -/
theorem checkpoint_subscribers (h : c.Gathered) (e : Change) :
    (c.checkpoint e).1.head.subscribers = c.oldest.subscribers := by
  rw [checkpoint_joined h.apart]
  by_cases ha : c.ancestors = []
  · simp [ha, oldest_of_single ha]
  · obtain ⟨front, hfront, hempty⟩ := h.exists_empty_front ha
    have hsilent : front.reverse.flatMap (·.subscribers) = [] :=
      List.flatMap_eq_nil_iff.mpr fun g hg => hempty g (List.mem_reverse.mp hg)
    rw [h.head_empty ha, hfront, List.reverse_append, List.flatMap_append, hsilent]
    simp

theorem checkpoint (h : c.Gathered) (e : Change) : (c.checkpoint e).1.Gathered := by
  refine ⟨?_, ?_⟩
  · rw [newer_of_single rfl]
    simp
  · rw [oldest_of_single rfl, h.checkpoint_subscribers]
    exact h.distinct

/-- With everybody in the oldest generation, only what that one shows is told. -/
theorem ghosts_eq (h : c.Gathered) (version : String) : c.ghosts version = c.farewells version := by
  unfold ghosts farewells
  by_cases hc : c.head.resumed = true ∨ c.ancestors = []
  · rw [if_pos hc, if_pos hc]
  · have ha : c.ancestors ≠ [] := fun hh => hc (Or.inr hh)
    obtain ⟨front, hfront, hempty⟩ := h.exists_empty_front ha
    rw [if_neg hc, if_neg hc, h.head_empty ha, vanished_nil, List.append_nil, hfront,
      departures_of_empty hempty, departures, departures, knownBy, knownBy, foldl_learn_ledger,
      List.nil_append]

theorem checkpoint_plan (h : c.Gathered) (e : Change) :
    (c.checkpoint e).2.1 = c.farewells e.version ++
      (c.oldest.subscribers.filter (·.filter.bookmarks)).map fun s => ⟨s.id, e⟩ := by
  rw [checkpoint_ghosts, h.checkpoint_subscribers, h.ghosts_eq]

end Gathered

/-- What one subscriber is told of vanished resources. -/
theorem eventsFor_vanished {subs : List Subscriber} (hd : (subs.map (·.id)).Nodup) {s : Subscriber}
    (hs : s ∈ subs) (l : Ledger) (known : Known) (version : String) :
    eventsFor s.id (vanished l known subs version) =
      (known.filter fun y => !l.contains y.1 && s.filter.accepts y.2).map
        fun y => .atVersion .deleted y.2 version := by
  unfold vanished
  rw [eventsFor_flatMap]
  simp only [Generation.eventsFor_sendTo hd hs]
  induction known with
  | nil => rfl
  | cons y rest ih =>
    cases hc : l.contains y.1
    · rw [List.filter_cons_of_pos (by simp [hc]), List.flatMap_cons, ih]
      by_cases ha : s.filter.accepts y.2 = true <;> simp [Change.atVersion, hc, ha]
    · rw [List.filter_cons_of_neg (by simp [hc]), ih, List.filter_cons_of_neg (by simp [hc])]

end Chain

/-- Deletions at the end of a sequence take their resources out of the view. -/
theorem view_append_deletions {events deletions : List Change}
    (h : ∀ d ∈ deletions, d.kind = .deleted) (x : ResourceName) :
    view (events ++ deletions) x =
      if ∃ d ∈ deletions, d.resource = x then none else view events x := by
  induction deletions generalizing events with
  | nil => simp
  | cons d rest ih =>
    have hd : d.kind = .deleted := h d List.mem_cons_self
    rw [List.append_cons, ih fun a ha => h a (List.mem_cons_of_mem _ ha), view_snoc]
    by_cases hx : d.resource = x
    · simp [hx, Change.isReport, Change.outcome, hd]
    · simp [hx]

end SharedWatch
