import SharedWatch.Json.Basic

/-!
Maps from text to text, such as labels and annotations.

The entries are kept by ascending key, one for each key, so two maps are equal exactly when they
hold the same entries.
-/

namespace SharedWatch

namespace Json

/-- Whether the keys of the members ascend. -/
def Ascending {α : Type} (members : List (String × α)) : Prop :=
  members.Pairwise (fun a b => a.1 < b.1)

theorem insertMember_keys {α : Type} {key : String} {value : α} {members : List (String × α)}
    {m : String × α} (h : m ∈ insertMember key value members) : m.1 = key ∨ m ∈ members := by
  induction members with
  | nil => simp [insertMember] at h; simp [h]
  | cons x rest ih =>
    obtain ⟨k, v⟩ := x
    simp only [insertMember] at h
    split at h
    · rcases List.mem_cons.mp h with rfl | h
      · exact Or.inl rfl
      · exact Or.inr h
    · split at h
      · rcases List.mem_cons.mp h with rfl | h
        · exact Or.inr List.mem_cons_self
        · rcases ih h with h | h
          · exact Or.inl h
          · exact Or.inr (List.mem_cons_of_mem _ h)
      · rcases List.mem_cons.mp h with rfl | h
        · exact Or.inl rfl
        · exact Or.inr (List.mem_cons_of_mem _ h)

/-- Putting a member in its place keeps the keys ascending. -/
theorem ascending_insertMember {α : Type} {key : String} {value : α} {members : List (String × α)}
    (h : Ascending members) : Ascending (insertMember key value members) := by
  induction members with
  | nil => simp [insertMember, Ascending]
  | cons x rest ih =>
    obtain ⟨k, v⟩ := x
    have hx := List.pairwise_cons.mp h
    simp only [insertMember]
    split
    · rename_i hlt
      refine List.pairwise_cons.mpr ⟨?_, h⟩
      intro m hm
      rcases List.mem_cons.mp hm with rfl | hm
      · exact hlt
      · exact String.lt_trans hlt (hx.1 m hm)
    · rename_i hnlt
      split
      · rename_i hlt
        refine List.pairwise_cons.mpr ⟨?_, ih hx.2⟩
        intro m hm
        rcases insertMember_keys hm with hm | hm
        · rw [hm]; exact hlt
        · exact hx.1 m hm
      · rename_i hnlt'
        have hk : key = k := String.le_antisymm (String.not_lt.mp hnlt') (String.not_lt.mp hnlt)
        subst hk
        exact List.pairwise_cons.mpr ⟨hx.1, hx.2⟩

end Json

structure TextMap where
  entries : List (String × String)
  ascending : Json.Ascending entries

namespace TextMap

instance : DecidableEq TextMap := fun a b =>
  if h : a.entries = b.entries then
    isTrue (by cases a; cases b; simp_all)
  else isFalse (by intro e; exact h (by rw [e]))

def empty : TextMap := ⟨[], List.Pairwise.nil⟩

/-- The map with the key's value replaced or added. -/
def insert (m : TextMap) (key value : String) : TextMap :=
  ⟨Json.insertMember key value m.entries, Json.ascending_insertMember m.ascending⟩

/-- The map of the given entries; the last one of a key counts. -/
def ofList (entries : List (String × String)) : TextMap :=
  entries.foldl (fun m e => m.insert e.1 e.2) empty

def find? (m : TextMap) (key : String) : Option String := Json.member? key m.entries

def toJson (m : TextMap) : Json := .object (m.entries.map fun e => (e.1, .text e.2))

end TextMap

end SharedWatch
