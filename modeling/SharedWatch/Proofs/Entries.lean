import Mathlib.Algebra.BigOperators.Group.Finset.Basic
import Mathlib.Algebra.GroupWithZero.Nat
import Mathlib.Data.List.Nodup
import SharedWatch.Store.Shelf

/-!
The entries of a store as a list.

What they cost together, and what is found under each key after an entry takes the place of those
with its key (`lookup_replace`). When no key stands twice, the entry of a key and those of the other
keys are all entries (`Distinct.perm_replace`).
-/

namespace SharedWatch

namespace Cached

/-! ## Costs -/

theorem total_append (xs ys : List Cached) : total (xs ++ ys) = total xs + total ys := by
  induction xs with
  | nil => exact (Nat.zero_add _).symm
  | cons x xs ih => rw [List.cons_append, total, total, ih, Nat.add_assoc]

theorem total_singleton (x : Cached) : total [x] = x.cost := rfl

theorem total_eq_map_sum (xs : List Cached) : total xs = (xs.map Cached.cost).sum := by
  induction xs with
  | nil => rfl
  | cons x xs ih => rw [total, ih, List.map_cons, List.sum_cons]

theorem total_le_of_sublist {xs ys : List Cached} (h : xs.Sublist ys) : total xs ≤ total ys := by
  induction h with
  | slnil => exact Nat.le_refl _
  | cons x _ ih => exact Nat.le_add_left_of_le ih
  | cons_cons x _ ih => exact Nat.add_le_add_left ih x.cost

theorem total_of_perm {xs ys : List Cached} (h : xs.Perm ys) : total xs = total ys := by
  rw [total_eq_map_sum, total_eq_map_sum]
  exact (h.map Cached.cost).sum_eq

/-! ## Keys -/

theorem mem_without {key : ResourceId} {xs : List Cached} {x : Cached} :
    x ∈ without key xs ↔ x ∈ xs ∧ x.key ≠ key := by
  simp [without]

theorem without_sublist (key : ResourceId) (xs : List Cached) : (without key xs).Sublist xs :=
  List.filter_sublist

/-- Nothing is found under a key among entries of other keys. -/
theorem lookup_of_sublist_without {key : ResourceId} {xs ys : List Cached}
    (h : xs.Sublist (without key ys)) : lookup key xs = none := by
  refine List.find?_eq_none.mpr fun x hx => ?_
  simpa using (mem_without.mp (h.subset hx)).2

theorem lookup_append (key : ResourceId) (xs ys : List Cached) :
    lookup key (xs ++ ys) = (lookup key xs).or (lookup key ys) := List.find?_append

theorem lookup_without (key other : ResourceId) (xs : List Cached) :
    lookup other (without key xs) = if key = other then none else lookup other xs := by
  split
  · next h =>
    subst h
    exact lookup_of_sublist_without (List.Sublist.refl _)
  · next h =>
    rw [lookup, without, List.find?_filter, lookup]
    refine congrArg (List.find? · xs) (funext fun x => ?_)
    by_cases hx : x.key = other
    · simp [hx, Ne.symm h]
    · simp [hx]

theorem lookup_singleton (key : ResourceId) (x : Cached) :
    lookup key [x] = if x.key = key then some x else none := by
  by_cases h : x.key = key <;> simp [lookup, h]

theorem key_of_lookup {key : ResourceId} {xs : List Cached} {x : Cached}
    (h : lookup key xs = some x) : x.key = key := by
  simpa using List.find?_some h

theorem mem_of_lookup {key : ResourceId} {xs : List Cached} {x : Cached}
    (h : lookup key xs = some x) : x ∈ xs := List.mem_of_find?_eq_some h

theorem without_of_lookup_eq_none {key : ResourceId} {xs : List Cached}
    (h : lookup key xs = none) : without key xs = xs := by
  refine List.filter_eq_self.mpr fun x hx => ?_
  simpa using List.find?_eq_none.mp h x hx

/-- What is found under each key after an entry takes the place of those with its key. -/
theorem lookup_replace (key : ResourceId) (xs : List Cached) (x : Cached) :
    lookup key (without x.key xs ++ [x]) = if x.key = key then some x else lookup key xs := by
  rw [lookup_append, lookup_without, lookup_singleton]
  by_cases h : x.key = key <;> simp [h]

/-- No key stands twice. -/
def Distinct (xs : List Cached) : Prop := (xs.map Cached.key).Nodup

theorem Distinct.sublist {xs ys : List Cached} (h : Distinct ys) (hs : xs.Sublist ys) :
    Distinct xs := List.Nodup.sublist (hs.map Cached.key) h

theorem Distinct.replace {xs : List Cached} (h : Distinct xs) (x : Cached) :
    Distinct (without x.key xs ++ [x]) := by
  rw [Distinct, List.map_append]
  refine List.nodup_append.mpr ⟨h.sublist (without_sublist _ _), List.nodup_singleton _, ?_⟩
  intro k hk l hl heq
  obtain ⟨y, hy, rfl⟩ := List.mem_map.mp hk
  exact (mem_without.mp hy).2 (heq.trans (List.mem_singleton.mp hl))

theorem Distinct.lookup {xs : List Cached} (h : Distinct xs) {x : Cached} (hx : x ∈ xs) :
    lookup x.key xs = some x := by
  induction xs with
  | nil => cases hx
  | cons y xs ih =>
    obtain ⟨hy, hrest⟩ := List.nodup_cons.mp h
    rcases List.mem_cons.mp hx with rfl | hx
    · simp [Cached.lookup]
    · have hne : y.key ≠ x.key := fun heq => hy (heq ▸ List.mem_map_of_mem hx)
      rw [Cached.lookup, List.find?_cons_of_neg (by simpa using hne)]
      exact ih hrest hx

/-- An entry and those of other keys are all entries. -/
theorem Distinct.perm_replace {xs : List Cached} (h : Distinct xs) {x : Cached} (hx : x ∈ xs) :
    (without x.key xs ++ [x]).Perm xs := by
  obtain ⟨before, after, rfl⟩ := List.append_of_mem hx
  have hnot : ∀ y ∈ before ++ after, y.key ≠ x.key := by
    intro y hy heq
    have hnodup : (((before ++ x :: after).map Cached.key)).Nodup := h
    rw [List.map_append, List.map_cons, List.nodup_middle, ← List.map_append] at hnodup
    exact (List.nodup_cons.mp hnodup).1 (heq ▸ List.mem_map_of_mem hy)
  have hwithout : without x.key (before ++ x :: after) = before ++ after := by
    rw [without, List.filter_append, List.filter_cons_of_neg (by simp), ← List.filter_append]
    exact List.filter_eq_self.mpr fun y hy => by simpa using hnot y hy
  rw [hwithout]
  exact (List.perm_append_singleton x _).trans List.perm_middle.symm

/-- Of the entries that are left, a key has the one that it had, or none. -/
theorem Distinct.lookup_sublist {xs ys : List Cached} (h : Distinct ys) (hs : xs.Sublist ys)
    (key : ResourceId) :
    Cached.lookup key xs = none ∨ Cached.lookup key xs = Cached.lookup key ys := by
  cases hx : Cached.lookup key xs with
  | none => exact .inl rfl
  | some x =>
    have hkey := key_of_lookup hx
    subst hkey
    exact .inr (h.lookup (hs.subset (mem_of_lookup hx))).symm

/-- What the other entries cost, and what a key's own entry costs, is what all cost. -/
theorem Distinct.total_without {xs : List Cached} (h : Distinct xs) (key : ResourceId) :
    total (without key xs) + ((Cached.lookup key xs).map Cached.cost).getD 0 = total xs := by
  cases hx : Cached.lookup key xs with
  | none =>
    rw [without_of_lookup_eq_none hx]
    rfl
  | some x =>
    have hkey := key_of_lookup hx
    subst hkey
    rw [← total_of_perm (h.perm_replace (mem_of_lookup hx)), total_append]
    rfl

end Cached

end SharedWatch
