import SharedWatch.Proofs.Canonical
import SharedWatch.Cluster.ObjectMeta

/-!
The members of objects.

An object is read by its keys only, so what is done to a list of members is described by what
`member?` finds afterwards. Putting members in order keeps the last one of each key
(`member?_sortMembers`), and commutes with everything that is done to the values under their keys
(`map_sortMembers`).
-/

namespace SharedWatch.Json

section Lists
variable {α β : Type} {key : String} {ms : List (String × α)}

theorem member?_append (key : String) (ms ns : List (String × α)) :
    member? key (ms ++ ns) = (member? key ms).or (member? key ns) := by
  induction ms with
  | nil => rfl
  | cons m ms ih =>
    rw [List.cons_append, member?, member?, ih]
    split
    · rfl
    · rfl

theorem member?_eq_none (h : ∀ m ∈ ms, m.1 ≠ key) : member? key ms = none := by
  induction ms with
  | nil => rfl
  | cons m ms ih =>
    rw [member?, if_neg (h m List.mem_cons_self)]
    exact ih fun n hn => h n (List.mem_cons_of_mem _ hn)

/-- What is made of the values under a key is made of the value that is found. -/
theorem member?_map (key : String) (f : String → α → β) (ms : List (String × α)) :
    member? key (ms.map fun m => (m.1, f m.1 m.2)) = (member? key ms).map (f key) := by
  induction ms with
  | nil => rfl
  | cons m ms ih =>
    rw [List.map_cons, member?, member?, ih]
    split
    · next hkey => rw [hkey]; rfl
    · rfl

theorem member?_filter_ne (key gone : String) (ms : List (String × α)) :
    member? key (ms.filter fun m => m.1 != gone) = if key = gone then none else member? key ms := by
  induction ms with
  | nil => simp [member?]
  | cons m ms ih =>
    by_cases hgone : m.1 = gone
    · rw [List.filter_cons_of_neg (by simp [hgone]), ih, member?]
      split
      · rfl
      · next hkey => rw [if_neg fun h => hkey (h.symm.trans hgone)]
    · rw [List.filter_cons_of_pos (by simpa using hgone), member?, member?, ih]
      by_cases hkey : m.1 = key
      · simp [hkey, hkey ▸ hgone]
      · simp [hkey]

/-! ## Members in order -/

theorem member?_insertMember (key : String) (value : α) (ms : List (String × α)) (other : String) :
    member? other (insertMember key value ms) =
      if other = key then some value else member? other ms := by
  induction ms with
  | nil => simp [insertMember, member?, eq_comm]
  | cons m ms ih =>
    rw [insertMember]
    split
    · rw [member?]
      simp only [eq_comm]
    · next hlt =>
      split
      · next hgt =>
        rw [member?, member?, ih]
        split
        · next hm =>
          rw [if_neg]
          rintro rfl
          exact absurd (hm ▸ hgt) (String.lt_irrefl _)
        · rfl
      · next hgt =>
        have hsame : m.1 = key := String.le_antisymm (String.not_lt.mp hlt) (String.not_lt.mp hgt)
        rw [member?, member?, hsame]
        simp only [eq_comm]
        split
        · rfl
        · rfl

/-- Of the members with one key the last one counts. -/
theorem member?_sortMembers (key : String) (ms : List (String × α)) :
    member? key (sortMembers ms) = member? key ms.reverse := by
  have hfold : ∀ known : List (String × α),
      member? key (ms.foldl (fun acc m => insertMember m.1 m.2 acc) known) =
        (member? key ms.reverse).or (member? key known) := by
    induction ms with
    | nil => exact fun known => rfl
    | cons m ms ih =>
      intro known
      rw [List.foldl_cons, ih, List.reverse_cons, member?_append, Option.or_assoc,
        member?_insertMember]
      congr 1
      simp only [member?, eq_comm]
      split
      · rfl
      · rfl
  rw [sortMembers, hfold []]
  exact Option.or_none

theorem map_insertMember (f : String → α → β) (key : String) (value : α)
    (ms : List (String × α)) :
    (insertMember key value ms).map (fun m => (m.1, f m.1 m.2)) =
      insertMember key (f key value) (ms.map fun m => (m.1, f m.1 m.2)) := by
  induction ms with
  | nil => rfl
  | cons m ms ih =>
    rw [insertMember, List.map_cons, insertMember]
    split
    · rfl
    split
    · rw [List.map_cons, ih]
    · rfl

/-- What is done to the values under their keys may be done before they are put in order. -/
theorem map_sortMembers (f : String → α → β) (ms : List (String × α)) :
    (sortMembers ms).map (fun m => (m.1, f m.1 m.2)) =
      sortMembers (ms.map fun m => (m.1, f m.1 m.2)) := by
  have hfold : ∀ known : List (String × α),
      (ms.foldl (fun acc m => insertMember m.1 m.2 acc) known).map (fun m => (m.1, f m.1 m.2)) =
        (ms.map fun m => (m.1, f m.1 m.2)).foldl (fun acc m => insertMember m.1 m.2 acc)
          (known.map fun m => (m.1, f m.1 m.2)) := by
    induction ms with
    | nil => exact fun known => rfl
    | cons m ms ih =>
      intro known
      rw [List.foldl_cons, ih, map_insertMember, List.map_cons, List.foldl_cons]
  exact hfold []

end Lists

/-! ## Fields that may be absent -/

section Optional
variable {α : Type}

@[simp] theorem memberOf_none (name : String) (encode : α → Json) :
    memberOf name encode none = [] := rfl

theorem member?_memberOf (key name : String) (encode : α → Json) (x : Option α) :
    member? key (memberOf name encode x) = if name = key then x.map encode else none := by
  cases x with
  | none => simp [memberOf, member?]
  | some x => simp [memberOf, member?]

theorem filter_memberOf (gone name : String) (encode : α → Json) (x : Option α) :
    (memberOf name encode x).filter (fun m => m.1 != gone) =
      if name = gone then [] else memberOf name encode x := by
  cases x with
  | none => simp [memberOf]
  | some x => by_cases h : name = gone <;> simp [memberOf, h]

end Optional

end SharedWatch.Json
