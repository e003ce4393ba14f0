import SharedWatch.Proofs.Entries

/-!
What a bounded store loses, and what it retains.

An entry is lost because its time has passed, or because it and all that was used after it exceed
the capacity: `StoreBounds.Leaves` allows nothing else. Losses add up (`Leaves.trans`), and within
the capacity all that is served is found as before (`Leaves.found_eq`).

`LawfulStore` says of a store which entries it retains after each call, which one it returns, and
that its figures are true once it has settled; nothing is said of its figures at any other time. A
shelf, which puts nothing off, is such a store, and so is a backlog, which puts everything off.
-/

namespace SharedWatch

open Cached

namespace StoreBounds

/-! ## Losses -/

/-- The second list is left of the first one, the least recently used entry first. -/
structure Leaves (b : StoreBounds) (now : Nat) (before after : List Cached) : Prop where
  sublist : after.Sublist before
  recent : ∀ {older x newer}, before = older ++ x :: newer → b.serves now x = true →
    b.holds (x :: newer) = true → x ∈ after

variable {b : StoreBounds} {now : Nat} {xs ys zs : List Cached}

theorem holds_of_sublist (hs : ys.Sublist xs) (h : b.holds xs = true) : b.holds ys = true := by
  have htotal := total_le_of_sublist hs
  rw [holds] at h ⊢
  cases hc : b.capacity with
  | none => rfl
  | some n =>
    simp only [hc, Option.all_some, decide_eq_true_eq] at h ⊢
    exact Nat.le_trans htotal h

theorem found_eq_some {key : ResourceId} {x : Cached} :
    b.found now key xs = some x ↔ lookup key xs = some x ∧ b.serves now x = true :=
  Option.filter_eq_some_iff

/-- A look-up changes only the order of the entries. -/
theorem perm_touch (b : StoreBounds) (now : Nat) (key : ResourceId) (h : Distinct xs) :
    (b.touch now key xs).Perm xs := by
  rw [touch]
  cases hx : b.found now key xs with
  | none => exact List.Perm.refl xs
  | some x =>
    obtain ⟨hlookup, -⟩ := found_eq_some.mp hx
    have hkey := key_of_lookup hlookup
    subst hkey
    exact h.perm_replace (mem_of_lookup hlookup)

theorem mem_of_mem_touch {key : ResourceId} {x : Cached} (hx : x ∈ b.touch now key xs) :
    x ∈ xs := by
  rw [touch] at hx
  cases hy : b.found now key xs with
  | none => rwa [hy] at hx
  | some y =>
    rw [hy] at hx
    rcases List.mem_append.mp hx with hx | hx
    · exact (mem_without.mp hx).1
    · exact List.mem_singleton.mp hx ▸ mem_of_lookup (found_eq_some.mp hy).1

theorem lookup_touch (b : StoreBounds) (now : Nat) (key other : ResourceId) (xs : List Cached) :
    lookup other (b.touch now key xs) = lookup other xs := by
  rw [touch]
  cases hx : b.found now key xs with
  | none => rfl
  | some x =>
    obtain ⟨hlookup, -⟩ := found_eq_some.mp hx
    have hkey := key_of_lookup hlookup
    subst hkey
    simp only [lookup_replace]
    split
    · next h => rw [← h, hlookup]
    · rfl

namespace Leaves

theorem refl (b : StoreBounds) (now : Nat) (xs : List Cached) : b.Leaves now xs xs where
  sublist := List.Sublist.refl xs
  recent := fun heq _ _ => heq ▸ List.mem_append_right _ List.mem_cons_self

/-- An entry that has to stay is left with no more behind it than before. -/
theorem split (h : b.Leaves now xs ys) {older newer : List Cached} {x : Cached}
    (heq : xs = older ++ x :: newer) (hnew : x ∉ older) (hserved : b.serves now x = true)
    (hholds : b.holds (x :: newer) = true) :
    ∃ kept rest, ys = kept ++ x :: rest ∧ rest.Sublist newer := by
  have hx : x ∈ ys := h.recent heq hserved hholds
  have hsub : ys.Sublist (older ++ x :: newer) := heq ▸ h.sublist
  obtain ⟨front, back, rfl, hfront, hback⟩ := List.sublist_append_iff.mp hsub
  have hmem : x ∈ back :=
    (List.mem_append.mp hx).resolve_left fun hold => hnew (hfront.subset hold)
  obtain ⟨between, rest, rfl⟩ := List.append_of_mem hmem
  refine ⟨front ++ between, rest, (List.append_assoc ..).symm, ?_⟩
  exact List.cons_sublist_cons.mp ((List.sublist_append_right between _).trans hback)

/-- The most recently used entry stays in its place if it is served and fits alone. -/
theorem snoc {x : Cached} (h : b.Leaves now (xs ++ [x]) ys) (hnew : x ∉ xs)
    (hserved : b.serves now x = true) (hholds : b.holds [x] = true) :
    ∃ kept, ys = kept ++ [x] ∧ kept.Sublist xs := by
  obtain ⟨kept, rest, rfl, hrest⟩ := h.split rfl hnew hserved hholds
  obtain rfl := List.sublist_nil.mp hrest
  exact ⟨kept, rfl, List.append_sublist_append_right [x] |>.mp h.sublist⟩

theorem trans (h : b.Leaves now xs ys) (h' : b.Leaves now ys zs) (hd : Distinct xs) :
    b.Leaves now xs zs where
  sublist := h'.sublist.trans h.sublist
  recent := by
    intro older x newer heq hserved hholds
    have hnew : x ∉ older := fun hold =>
      (List.nodup_append.mp (heq ▸ hd.of_map)).2.2 x hold x List.mem_cons_self rfl
    obtain ⟨kept, rest, heq', hrest⟩ := h.split heq hnew hserved hholds
    exact h'.recent heq' hserved (holds_of_sublist (hrest.cons_cons x) hholds)

/-- Of entries within the capacity, all that is served is found as before. -/
theorem found_eq (h : b.Leaves now xs ys) (hd : Distinct xs) (hholds : b.holds xs = true)
    (key : ResourceId) : b.found now key ys = b.found now key xs := by
  cases hx : b.found now key xs with
  | some x =>
    obtain ⟨hlookup, hserved⟩ := found_eq_some.mp hx
    obtain ⟨older, newer, heq⟩ := List.append_of_mem (mem_of_lookup hlookup)
    have hfits : b.holds (x :: newer) = true :=
      holds_of_sublist (heq ▸ List.sublist_append_right older _) hholds
    have hstays : lookup x.key ys = some x :=
      (hd.sublist h.sublist).lookup (h.recent heq hserved hfits)
    rw [key_of_lookup hlookup] at hstays
    exact found_eq_some.mpr ⟨hstays, hserved⟩
  | none =>
    rcases hd.lookup_sublist h.sublist key with hnone | hsame
    · rw [found, hnone]
      rfl
    · rw [found, hsame]
      exact hx

end Leaves

/-! ## Eviction from a list -/

theorem evict_suffix (b : StoreBounds) (xs : List Cached) : b.evict xs <:+ xs := by
  induction xs with
  | nil => exact List.suffix_rfl
  | cons x xs ih =>
    rw [evict]
    split
    · exact List.suffix_rfl
    · exact ih.trans (List.suffix_cons x xs)

theorem holds_evict (b : StoreBounds) (xs : List Cached) : b.holds (b.evict xs) = true := by
  induction xs with
  | nil => cases hc : b.capacity <;> simp [holds, evict, total, hc]
  | cons x xs ih =>
    rw [evict]
    split
    · next h => exact h
    · exact ih

theorem evict_of_holds (h : b.holds xs = true) : b.evict xs = xs := by
  cases xs with
  | nil => rfl
  | cons x xs => rw [evict, if_pos h]

/-- Entries at the end that fit together stay. -/
theorem suffix_evict_append (h : b.holds ys = true) (xs : List Cached) :
    ys <:+ b.evict (xs ++ ys) := by
  induction xs with
  | nil => exact ⟨[], (evict_of_holds h).symm⟩
  | cons x xs ih =>
    rw [List.cons_append, evict]
    split
    · exact List.suffix_append (x :: xs) ys
    · exact ih

theorem leaves_within (b : StoreBounds) (now : Nat) (xs : List Cached) :
    b.Leaves now xs (b.within now xs) where
  sublist := (b.evict_suffix _).sublist.trans List.filter_sublist
  recent := by
    rintro older x newer rfl hserved hholds
    have hfits : b.holds (x :: newer.filter (b.serves now)) = true :=
      holds_of_sublist (List.filter_sublist.cons_cons x) hholds
    rw [within, List.filter_append, List.filter_cons_of_pos hserved]
    exact (suffix_evict_append hfits _).subset List.mem_cons_self

theorem serves_of_mem_within {x : Cached} (hx : x ∈ b.within now xs) : b.serves now x = true :=
  (List.mem_filter.mp ((b.evict_suffix _).subset hx)).2

end StoreBounds

/-! ## Lawful stores -/

open StoreBounds

/-- What a cache relies on: the store is a map whose entries are lost by time and by recency only,
and it is within its bounds, with true figures, whenever it has settled. -/
class LawfulStore (σ : StoreBounds → Type) [EntryStore σ] where
  /-- The entries of a store, the least recently used first. -/
  entries {b : StoreBounds} : σ b → List Cached
  entries_build (b : StoreBounds) : entries (EntryStore.build b : σ b) = []
  insert_leaves {b : StoreBounds} (store : σ b) (now : Nat) (key : ResourceId)
    (entry : CacheEntry) : b.Leaves now (without key (entries store) ++ [⟨key, entry, now⟩])
      (entries (EntryStore.insert store now key entry))
  get_fst {b : StoreBounds} (store : σ b) (now : Nat) (key : ResourceId) :
    (EntryStore.get store now key).1 = (b.found now key (entries store)).map Cached.entry
  get_leaves {b : StoreBounds} (store : σ b) (now : Nat) (key : ResourceId) :
    b.Leaves now (b.touch now key (entries store)) (entries (EntryStore.get store now key).2)
  invalidate_leaves {b : StoreBounds} (store : σ b) (key : ResourceId) :
    ∃ now, b.Leaves now (without key (entries store)) (entries (EntryStore.invalidate store key))
  settle_leaves {b : StoreBounds} (store : σ b) (now : Nat) :
    b.Leaves now (entries store) (entries (EntryStore.settle store now))
  settle_serves {b : StoreBounds} (store : σ b) (now : Nat) :
    ∀ x ∈ entries (EntryStore.settle store now), b.serves now x = true
  settle_holds {b : StoreBounds} (store : σ b) (now : Nat) :
    b.holds (entries (EntryStore.settle store now)) = true
  count_settle {b : StoreBounds} (store : σ b) (now : Nat) :
    EntryStore.count (EntryStore.settle store now) =
      (entries (EntryStore.settle store now)).length
  weight_settle {b : StoreBounds} (store : σ b) (now : Nat) :
    EntryStore.weight (EntryStore.settle store now) =
      total (entries (EntryStore.settle store now))

theorem Shelf.insert_leaves {b : StoreBounds} (s : Shelf b) (now : Nat) (key : ResourceId)
    (entry : CacheEntry) : b.Leaves now (without key s.entries ++ [⟨key, entry, now⟩])
      (s.insert now key entry).entries := by
  rw [Shelf.insert]
  split
  · next h =>
    simp only [Bool.and_eq_true, Option.isNone_iff_eq_none, Bool.not_eq_true'] at h
    obtain ⟨hnone, hover⟩ := h
    constructor
    · refine List.Sublist.trans ?_ (List.sublist_append_left _ _)
      rw [← without_of_lookup_eq_none hnone]
      exact List.filter_sublist.filter _
    · -- the new entry is behind every other one, and does not fit even alone
      intro older x newer heq _ hholds
      have hlast : [(⟨key, entry, now⟩ : Cached)] <:+ x :: newer :=
        List.suffix_of_suffix_length_le ⟨_, heq⟩ (List.suffix_append older _) (by simp)
      rw [holds_of_sublist hlast.sublist hholds] at hover
      cases hover
  · exact leaves_within b now _

instance : LawfulStore Shelf where
  entries s := s.entries
  entries_build _ := rfl
  insert_leaves := Shelf.insert_leaves
  get_fst _ _ _ := rfl
  get_leaves _ now _ := Leaves.refl _ now _
  invalidate_leaves _ _ := ⟨0, Leaves.refl _ 0 _⟩
  settle_leaves _ now := leaves_within _ now _
  settle_serves _ _ _ hx := serves_of_mem_within hx
  settle_holds _ _ := holds_evict _ _
  count_settle _ _ := rfl
  weight_settle _ _ := rfl

/-- A store that loses nothing and counts nothing until it settles. -/
structure Backlog (b : StoreBounds) where
  entries : List Cached
  count : Nat
  weight : Nat

instance : EntryStore Backlog where
  build _ := ⟨[], 0, 0⟩
  insert s now key entry := { s with entries := without key s.entries ++ [⟨key, entry, now⟩] }
  get {b} s now key :=
    ((b.found now key s.entries).map Cached.entry,
      { s with entries := b.touch now key s.entries })
  invalidate s key := { s with entries := without key s.entries }
  settle {b} s now :=
    let left := b.within now s.entries
    ⟨left, left.length, total left⟩
  count s := s.count
  weight s := s.weight

instance : LawfulStore Backlog where
  entries s := s.entries
  entries_build _ := rfl
  insert_leaves _ now _ _ := Leaves.refl _ now _
  get_fst _ _ _ := rfl
  get_leaves _ now _ := Leaves.refl _ now _
  invalidate_leaves _ _ := ⟨0, Leaves.refl _ 0 _⟩
  settle_leaves _ now := leaves_within _ now _
  settle_serves _ _ _ hx := serves_of_mem_within hx
  settle_holds _ _ := holds_evict _ _
  count_settle _ _ := rfl
  weight_settle _ _ := rfl

end SharedWatch
