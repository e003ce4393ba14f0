import SharedWatch.Proofs.Written
import SharedWatch.Resource.TextMap

/-!
Reading back what was written.

`reads_value`: a value comes back from its own text with every text, key, truth value and integer in
its place (`blurred`), and without floating-point numbers it comes back as it is; only one with
floating-point numbers, or one that nests too deep, may fail to. The reader decides item by item and
member by member, so lists and objects go through a relation that follows it (`Lists`, `Folds`), for
readers of any shape.
-/

namespace SharedWatch.Json

open Text (isDigit)

/-! ## Values and their parts -/

/-- Induction with a hypothesis for each item of a list and each member's value of an object. -/
@[elab_as_elim]
theorem induct {P : Json → Prop} (null : P .null) (bool : ∀ b, P (.bool b))
    (int : ∀ n, P (.int n)) (float : ∀ x, P (.float x)) (text : ∀ s, P (.text s))
    (list : ∀ items, (∀ x ∈ items, P x) → P (.list items))
    (object : ∀ members, (∀ m ∈ members, P m.2) → P (.object members)) (v : Json) : P v :=
  match v with
  | .null => null
  | .bool b => bool b
  | .int n => int n
  | .float x => float x
  | .text s => text s
  | .list items => list items fun x _ => induct null bool int float text list object x
  | .object members => object members fun m _ => induct null bool int float text list object m.2
decreasing_by
  · have := List.sizeOf_lt_of_mem ‹x ∈ items›
    rw [Json.list.sizeOf_spec]
    omega
  · have := List.sizeOf_lt_of_mem ‹m ∈ members›
    have : sizeOf m = 1 + sizeOf m.1 + sizeOf m.2 := rfl
    rw [Json.object.sizeOf_spec]
    omega

mutual

/-- Whether a value and everything in it pass a test. -/
def everywhere (p : Json → Bool) : Json → Bool
  | .null => p .null
  | .bool b => p (.bool b)
  | .int n => p (.int n)
  | .float x => p (.float x)
  | .text s => p (.text s)
  | .list items => p (.list items) && everywhereItems p items
  | .object members => p (.object members) && everywhereMembers p members

def everywhereItems (p : Json → Bool) : List Json → Bool
  | [] => true
  | x :: rest => x.everywhere p && everywhereItems p rest

def everywhereMembers (p : Json → Bool) : List (String × Json) → Bool
  | [] => true
  | (_, x) :: rest => x.everywhere p && everywhereMembers p rest

end

mutual

/-- How many lists and objects stand within one another. -/
def depth : Json → Nat
  | .null => 0
  | .bool _ => 0
  | .int _ => 0
  | .float _ => 0
  | .text _ => 0
  | .list items => depthItems items + 1
  | .object members => depthMembers members + 1

def depthItems : List Json → Nat
  | [] => 0
  | x :: rest => max x.depth (depthItems rest)

def depthMembers : List (String × Json) → Nat
  | [] => 0
  | (_, x) :: rest => max x.depth (depthMembers rest)

end

mutual

/-- The value with zero in place of every floating-point number. -/
def blurred : Json → Json
  | .null => .null
  | .bool b => .bool b
  | .int n => .int n
  | .float _ => .float (Binary64.zero false)
  | .text s => .text s
  | .list items => .list (blurredItems items)
  | .object members => .object (blurredMembers members)

def blurredItems : List Json → List Json
  | [] => []
  | x :: rest => x.blurred :: blurredItems rest

def blurredMembers : List (String × Json) → List (String × Json)
  | [] => []
  | (k, x) :: rest => (k, x.blurred) :: blurredMembers rest

end

theorem everywhereItems_iff {p : Json → Bool} {items : List Json} :
    everywhereItems p items = true ↔ ∀ x ∈ items, x.everywhere p = true := by
  induction items with
  | nil => simp [everywhereItems]
  | cons x rest ih => simp [everywhereItems, ih]

theorem everywhereMembers_iff {p : Json → Bool} {members : List (String × Json)} :
    everywhereMembers p members = true ↔ ∀ m ∈ members, m.2.everywhere p = true := by
  induction members with
  | nil => simp [everywhereMembers]
  | cons m rest ih => simp [everywhereMembers, ih]

theorem depthItems_le_iff {items : List Json} {d : Nat} :
    depthItems items ≤ d ↔ ∀ x ∈ items, x.depth ≤ d := by
  induction items with
  | nil => simp [depthItems]
  | cons x rest ih => rw [depthItems, Nat.max_le, ih, List.forall_mem_cons]

theorem depthMembers_le_iff {members : List (String × Json)} {d : Nat} :
    depthMembers members ≤ d ↔ ∀ m ∈ members, m.2.depth ≤ d := by
  induction members with
  | nil => simp [depthMembers]
  | cons m rest ih => rw [depthMembers, Nat.max_le, ih, List.forall_mem_cons]

/-- Whether a value is an integer of 64 bits, an object with ascending keys or anything else. -/
def isCanonical : Json → Bool
  | .int n => -9223372036854775808 ≤ n && n < 18446744073709551616
  | .object members => decide (members.Pairwise fun a b => a.1 < b.1)
  | _ => true

def isFloat : Json → Bool
  | .float _ => true
  | _ => false

/-- All integers are of 64 bits and the keys of all objects ascend, as in every value that a program
can hold. -/
def Canonical (v : Json) : Prop := v.everywhere isCanonical = true

/-- All numbers are integers. -/
def Integral (v : Json) : Prop := v.everywhere (fun x => !x.isFloat) = true

instance (v : Json) : Decidable v.Canonical := inferInstanceAs (Decidable (_ = true))
instance (v : Json) : Decidable v.Integral := inferInstanceAs (Decidable (_ = true))

theorem canonical_list {items : List Json} :
    (Json.list items).Canonical ↔ ∀ x ∈ items, x.Canonical := by
  simp [Canonical, everywhere, isCanonical, everywhereItems_iff]

theorem canonical_object {members : List (String × Json)} :
    (Json.object members).Canonical ↔ Ascending members ∧ ∀ m ∈ members, m.2.Canonical := by
  simp [Canonical, everywhere, isCanonical, everywhereMembers_iff, Ascending]

theorem integral_list {items : List Json} :
    (Json.list items).Integral ↔ ∀ x ∈ items, x.Integral := by
  simp [Integral, everywhere, isFloat, everywhereItems_iff]

theorem integral_object {members : List (String × Json)} :
    (Json.object members).Integral ↔ ∀ m ∈ members, m.2.Integral := by
  simp [Integral, everywhere, isFloat, everywhereMembers_iff]

/-! ## Where a value begins -/

theorem skipSpace_cons {c : Char} (h : isSpace c = false) (rest : List Char) :
    skipSpace (c :: rest) = c :: rest := by
  simp [skipSpace, h]

/-- A digit is no blank and closes nothing. -/
theorem head_of_digit {c : Char} (h : isDigit c = true) :
    isSpace c = false ∧ c ≠ ']' ∧ c ≠ '\x7d' := by
  refine ⟨?_, ?_, ?_⟩
  · by_contra hspace
    simp only [isSpace, Bool.not_eq_false, Bool.or_eq_true, beq_iff_eq] at hspace
    rcases hspace with ((rfl | rfl) | rfl) | rfl <;> cases h
  · rintro rfl; cases h
  · rintro rfl; cases h

/-- The first character of a value is no blank and closes nothing. -/
theorem exists_compactChars_eq (v : Json) :
    ∃ c cs, v.compactChars = c :: cs ∧ isSpace c = false ∧ c ≠ ']' ∧ c ≠ '\x7d' := by
  cases v with
  | null => exact ⟨_, _, rfl, by decide⟩
  | bool b => cases b <;> exact ⟨_, _, rfl, by decide⟩
  | int n =>
    unfold compactChars intChars
    split
    · exact ⟨_, _, rfl, by decide⟩
    · obtain ⟨c, cs, hcs, hc⟩ := exists_natChars_eq n.natAbs
      exact ⟨c, cs, hcs, head_of_digit hc⟩
  | float x =>
    unfold compactChars floatChars
    split
    · exact ⟨_, _, rfl, by decide⟩
    split
    · exact ⟨_, _, rfl, by decide⟩
    obtain ⟨ds, tail, heq, hds, hne, -⟩ := exists_decimalChars_eq x.shortest
    obtain ⟨c, cs, rfl⟩ := List.exists_cons_of_ne_nil hne
    exact ⟨c, cs ++ tail, by rw [heq]; rfl, head_of_digit (hds c List.mem_cons_self)⟩
  | text s => exact ⟨_, _, rfl, by decide⟩
  | list items => exact ⟨_, _, rfl, by decide⟩
  | object members => exact ⟨_, _, rfl, by decide⟩

/-! ## Lists -/

section Lists
variable {α : Type} {item : Reader α}

theorem itemsFrom_close (fuel : Nat) (first : Bool) (seen : List α) (rest : List Char) :
    itemsFrom item (fuel + 1) first seen (']' :: rest) = .ok (seen.reverse, rest) := by
  rw [itemsFrom, skipSpace_cons (by decide)]
  rfl

theorem itemsFrom_first {c : Char} (hspace : isSpace c = false) (hclose : c ≠ ']') (fuel : Nat)
    (seen : List α) (rest : List Char) :
    itemsFrom item (fuel + 1) true seen (c :: rest) =
      (item (c :: rest)).bind fun r => itemsFrom item fuel false (r.1 :: seen) r.2 := by
  rw [itemsFrom, skipSpace_cons hspace]
  cases h : item (c :: rest) <;> simp [h, Except.bind]

theorem itemsFrom_comma {c : Char} (hspace : isSpace c = false) (hclose : c ≠ ']') (fuel : Nat)
    (seen : List α) (rest : List Char) :
    itemsFrom item (fuel + 1) false seen (',' :: c :: rest) =
      (item (c :: rest)).bind fun r => itemsFrom item fuel false (r.1 :: seen) r.2 := by
  rw [itemsFrom, skipSpace_cons (by decide)]
  cases h : item (c :: rest) <;> simp [skipSpace_cons hspace, h, Except.bind]

/-- The text of the items that follow another one. -/
def nextItems : List Json → List Char
  | [] => []
  | x :: rest => ',' :: compactItems (x :: rest)

theorem compactItems_cons (x : Json) (rest : List Json) :
    compactItems (x :: rest) = x.compactChars ++ nextItems rest := by
  cases rest <;> simp [compactItems, nextItems]

theorem length_le_compactItems (items : List Json) :
    items.length ≤ (compactItems items).length := by
  induction items with
  | nil => exact Nat.le_refl 0
  | cons x rest ih =>
    obtain ⟨c, cs, hx, -⟩ := exists_compactChars_eq x
    have hnext : rest.length ≤ (nextItems rest).length := by
      cases rest with
      | nil => exact Nat.le_refl 0
      | cons y rest => exact Nat.le_succ_of_le ih
    rw [compactItems_cons, hx]
    simp only [List.length_cons, List.length_append]
    omega

theorem atEnd_nextItems (items : List Json) (rest : List Char) :
    AtEnd (nextItems items ++ ']' :: rest) := by
  cases items with
  | nil => exact .inr (.inl rfl)
  | cons x items => exact .inl rfl

/-- What a reader of items makes of the texts of some values, one after another. -/
inductive Lists (item : Reader α) : List Json → Except Flaw (List α) → Prop
  | nil : Lists item [] (.ok [])
  | cons {x : Json} {y : α} {xs : List Json} {r : Except Flaw (List α)}
      (head : Reads item x.compactChars (.ok y)) (tail : Lists item xs r) :
      Lists item (x :: xs) (r.map (y :: ·))
  | flaw {x : Json} {e : Flaw} {xs : List Json} (head : Reads item x.compactChars (.error e)) :
      Lists item (x :: xs) (.error e)

/-- The items are read whether or not others stand before them. -/
theorem Lists.itemsFrom {xs : List Json} {r : Except Flaw (List α)} (h : Lists item xs r)
    (rest : List Char) {fuel : Nat} (hfuel : xs.length < fuel) (seen : List α) :
    itemsFrom item fuel true seen (compactItems xs ++ ']' :: rest) =
        r.map (fun ys => (seen.reverse ++ ys, rest)) ∧
      itemsFrom item fuel false seen (nextItems xs ++ ']' :: rest) =
        r.map (fun ys => (seen.reverse ++ ys, rest)) := by
  induction h generalizing fuel seen with
  | nil =>
    obtain ⟨fuel, rfl⟩ := Nat.exists_eq_succ_of_ne_zero (Nat.ne_of_gt hfuel)
    simp [nextItems, compactItems, itemsFrom_close, Except.map]
  | @cons x y xs r head tail ih =>
    obtain ⟨fuel, rfl⟩ := Nat.exists_eq_succ_of_ne_zero (Nat.ne_of_gt (Nat.zero_lt_of_lt hfuel))
    obtain ⟨c, cs, hx, hspace, hclose, -⟩ := exists_compactChars_eq x
    have hread := head (nextItems xs ++ ']' :: rest) (atEnd_nextItems xs rest)
    have hrest := (ih (Nat.lt_of_succ_lt_succ hfuel) (y :: seen)).2
    have hmap : (r.map (y :: ·)).map (fun ys => (seen.reverse ++ ys, rest)) =
        r.map (fun ys => ((y :: seen).reverse ++ ys, rest)) := by
      cases r <;> simp [Except.map]
    rw [hx, List.cons_append] at hread
    rw [nextItems, compactItems_cons, hx, hmap]
    simp [itemsFrom_first hspace hclose, itemsFrom_comma hspace hclose, hread, Except.map,
      Except.bind, hrest]
  | @flaw x e xs head =>
    obtain ⟨fuel, rfl⟩ := Nat.exists_eq_succ_of_ne_zero (Nat.ne_of_gt (Nat.zero_lt_of_lt hfuel))
    obtain ⟨c, cs, hx, hspace, hclose, -⟩ := exists_compactChars_eq x
    have hread := head (nextItems xs ++ ']' :: rest) (atEnd_nextItems xs rest)
    rw [hx, List.cons_append] at hread
    rw [nextItems, compactItems_cons, hx]
    simp [itemsFrom_first hspace hclose, itemsFrom_comma hspace hclose, hread, Except.map,
      Except.bind]

/-- A list is read from the text between its brackets. -/
theorem Lists.items {xs : List Json} {r : Except Flaw (List α)} (h : Lists item xs r)
    (rest : List Char) :
    Json.items item (compactItems xs ++ ']' :: rest) = r.map (·, rest) := by
  have hlength := length_le_compactItems xs
  have hfuel : xs.length < (compactItems xs ++ ']' :: rest).length + 1 := by
    rw [List.length_append]
    omega
  exact (h.itemsFrom rest hfuel []).1

/-- If each value can be read for itself, the list of them can. -/
theorem exists_lists {P : Json → Except Flaw α → Prop} {xs : List Json}
    (h : ∀ x ∈ xs, ∃ r, Reads item x.compactChars r ∧ P x r) :
    ∃ r, Lists item xs r ∧
      match r with
      | .ok ys => List.Forall₂ (fun x y => P x (.ok y)) xs ys
      | .error e => ∃ x ∈ xs, P x (.error e) := by
  induction xs with
  | nil => exact ⟨_, .nil, .nil⟩
  | cons x xs ih =>
    obtain ⟨r, hread, hp⟩ := h x List.mem_cons_self
    cases r with
    | error e => exact ⟨_, .flaw hread, x, List.mem_cons_self, hp⟩
    | ok y =>
      obtain ⟨r, hlists, hps⟩ := ih fun z hz => h z (List.mem_cons_of_mem _ hz)
      refine ⟨_, .cons hread hlists, ?_⟩
      cases r with
      | error e =>
        obtain ⟨z, hz, hpz⟩ := hps
        exact ⟨z, List.mem_cons_of_mem _ hz, hpz⟩
      | ok ys => exact .cons hp hps

end Lists

/-! ## Objects -/

section Folds
variable {σ : Type} {member : String → σ → Reader σ}

theorem membersFrom_close (fuel : Nat) (first : Bool) (known : σ) (rest : List Char) :
    membersFrom member (fuel + 1) first known ('\x7d' :: rest) = .ok (known, rest) := by
  rw [membersFrom, skipSpace_cons (by decide)]
  rfl

theorem membersFrom_first (fuel : Nat) (known : σ) (key : String) (rest : List Char) :
    membersFrom member (fuel + 1) true known (textChars key ++ rest) =
      (member key known rest).bind fun r => membersFrom member fuel false r.1 r.2 := by
  rw [textChars, List.cons_append, List.append_assoc, List.singleton_append, membersFrom,
    skipSpace_cons (by decide)]
  cases h : member key known rest <;> simp [chars_written, h, Except.bind]

theorem membersFrom_comma (fuel : Nat) (known : σ) (key : String) (rest : List Char) :
    membersFrom member (fuel + 1) false known (',' :: (textChars key ++ rest)) =
      (member key known rest).bind fun r => membersFrom member fuel false r.1 r.2 := by
  rw [textChars, List.cons_append, List.append_assoc, List.singleton_append, membersFrom,
    skipSpace_cons (by decide)]
  cases h : member key known rest <;>
    simp [skipSpace_cons, isSpace, chars_written, h, Except.bind]

/-- The text of the members that follow another one. -/
def nextMembers : List (String × Json) → List Char
  | [] => []
  | m :: rest => ',' :: compactMembers (m :: rest)

theorem compactMembers_cons (m : String × Json) (rest : List (String × Json)) :
    compactMembers (m :: rest) =
      textChars m.1 ++ ':' :: (m.2.compactChars ++ nextMembers rest) := by
  cases rest <;> simp [compactMembers, nextMembers]

theorem length_le_compactMembers (members : List (String × Json)) :
    members.length ≤ (compactMembers members).length := by
  induction members with
  | nil => exact Nat.le_refl 0
  | cons m rest ih =>
    have hnext : rest.length ≤ (nextMembers rest).length := by
      cases rest with
      | nil => exact Nat.le_refl 0
      | cons y rest => exact Nat.le_succ_of_le ih
    rw [compactMembers_cons]
    simp only [List.length_cons, List.length_append]
    omega

theorem atEnd_nextMembers (members : List (String × Json)) (rest : List Char) :
    AtEnd (nextMembers members ++ '\x7d' :: rest) := by
  cases members with
  | nil => exact .inr (.inr rfl)
  | cons m members => exact .inl rfl

/-- What a reader of members makes of the texts of some members, each folded into what is known. -/
inductive Folds (member : String → σ → Reader σ) :
    σ → List (String × Json) → Except Flaw σ → Prop
  | nil (known : σ) : Folds member known [] (.ok known)
  | cons {known next : σ} {m : String × Json} {ms : List (String × Json)} {r : Except Flaw σ}
      (head : Reads (member m.1 known) (':' :: m.2.compactChars) (.ok next))
      (tail : Folds member next ms r) : Folds member known (m :: ms) r
  | flaw {known : σ} {m : String × Json} {e : Flaw} {ms : List (String × Json)}
      (head : Reads (member m.1 known) (':' :: m.2.compactChars) (.error e)) :
      Folds member known (m :: ms) (.error e)

theorem Folds.last {known : σ} {m : String × Json} {result : Except Flaw σ}
    (h : Reads (member m.1 known) (':' :: m.2.compactChars) result) :
    Folds member known [m] result := by
  cases result with
  | error e => exact .flaw h
  | ok next => exact .cons h (.nil next)

theorem Folds.membersFrom {known : σ} {ms : List (String × Json)} {r : Except Flaw σ}
    (h : Folds member known ms r) (rest : List Char) {fuel : Nat} (hfuel : ms.length < fuel) :
    membersFrom member fuel true known (compactMembers ms ++ '\x7d' :: rest) = r.map (·, rest) ∧
      membersFrom member fuel false known (nextMembers ms ++ '\x7d' :: rest) =
        r.map (·, rest) := by
  induction h generalizing fuel with
  | nil known =>
    obtain ⟨fuel, rfl⟩ := Nat.exists_eq_succ_of_ne_zero (Nat.ne_of_gt hfuel)
    simp [nextMembers, compactMembers, membersFrom_close, Except.map]
  | @cons known next m ms r head tail ih =>
    obtain ⟨fuel, rfl⟩ := Nat.exists_eq_succ_of_ne_zero (Nat.ne_of_gt (Nat.zero_lt_of_lt hfuel))
    have hread := head (nextMembers ms ++ '\x7d' :: rest) (atEnd_nextMembers ms rest)
    have hrest := (ih (Nat.lt_of_succ_lt_succ hfuel)).2
    rw [List.cons_append] at hread
    rw [nextMembers, compactMembers_cons]
    simp [membersFrom_first, membersFrom_comma, hread, Except.map, Except.bind, hrest]
  | @flaw known m e ms head =>
    obtain ⟨fuel, rfl⟩ := Nat.exists_eq_succ_of_ne_zero (Nat.ne_of_gt (Nat.zero_lt_of_lt hfuel))
    have hread := head (nextMembers ms ++ '\x7d' :: rest) (atEnd_nextMembers ms rest)
    rw [List.cons_append] at hread
    rw [nextMembers, compactMembers_cons]
    simp [membersFrom_first, membersFrom_comma, hread, Except.map, Except.bind]

/-- An object is read from the text between its braces. -/
theorem Folds.members {known : σ} {ms : List (String × Json)} {r : Except Flaw σ}
    (h : Folds member known ms r) (rest : List Char) :
    Json.members member known (compactMembers ms ++ '\x7d' :: rest) = r.map (·, rest) := by
  have hlength := length_le_compactMembers ms
  have hfuel : ms.length < (compactMembers ms ++ '\x7d' :: rest).length + 1 := by
    rw [List.length_append]
    omega
  exact (h.membersFrom rest hfuel).1

end Folds

theorem colon_cons (rest : List Char) : colon (':' :: rest) = .ok ((), rest) := by
  rw [colon, skipSpace_cons (by decide)]
  rfl

/-- A member whose key comes after all known ones is put at the end. -/
theorem insertMember_of_lt {α : Type} {key : String} (value : α) {known : List (String × α)}
    (h : ∀ m ∈ known, m.1 < key) : insertMember key value known = known ++ [(key, value)] := by
  induction known with
  | nil => rfl
  | cons m rest ih =>
    obtain ⟨k, v⟩ := m
    have hk : k < key := h (k, v) List.mem_cons_self
    have hnot : ¬ key < k := String.lt_asymm hk
    rw [insertMember, if_neg hnot, if_pos hk, ih fun m hm => h m (List.mem_cons_of_mem _ hm)]
    rfl

section Sorted
variable {α : Type} {item : Reader α}

theorem reads_sortedMember {x : Json} {r : Except Flaw α} (h : Reads item x.compactChars r)
    (key : String) (known : List (String × α)) :
    Reads (sortedMember item key known) (':' :: x.compactChars)
      (r.map (insertMember key · known)) := by
  intro rest hrest
  have hread := h rest hrest
  rw [List.cons_append, sortedMember, colon_cons]
  simp only [hread]
  cases r <;> rfl

/-- If each member's value can be read for itself and the keys ascend, the members are read in their
order. -/
theorem exists_folds {P : Json → Except Flaw α → Prop} {ms : List (String × Json)}
    (h : ∀ m ∈ ms, ∃ r, Reads item m.2.compactChars r ∧ P m.2 r) (hms : Ascending ms)
    (known : List (String × α)) (hknown : ∀ k ∈ known, ∀ m ∈ ms, k.1 < m.1) :
    ∃ r, Folds (sortedMember item) known ms r ∧
      match r with
      | .ok all => ∃ ws, all = known ++ ws ∧
          List.Forall₂ (fun m w => m.1 = w.1 ∧ P m.2 (.ok w.2)) ms ws
      | .error e => ∃ m ∈ ms, P m.2 (.error e) := by
  induction ms generalizing known with
  | nil => exact ⟨_, .nil known, [], (List.append_nil known).symm, .nil⟩
  | cons m ms ih =>
    obtain ⟨hm, hrest⟩ := List.pairwise_cons.mp hms
    obtain ⟨r, hread, hp⟩ := h m List.mem_cons_self
    have hfold := reads_sortedMember hread m.1 known
    cases r with
    | error e => exact ⟨_, .flaw hfold, m, List.mem_cons_self, hp⟩
    | ok y =>
      have hend : insertMember m.1 y known = known ++ [(m.1, y)] :=
        insertMember_of_lt y fun k hk => hknown k hk m List.mem_cons_self
      have hnext : ∀ k ∈ known ++ [(m.1, y)], ∀ n ∈ ms, k.1 < n.1 := by
        intro k hk n hn
        rcases List.mem_append.mp hk with hk | hk
        · exact hknown k hk n (List.mem_cons_of_mem _ hn)
        · rw [List.mem_singleton.mp hk]
          exact hm n hn
      obtain ⟨r, hfolds, hps⟩ := ih (fun n hn => h n (List.mem_cons_of_mem _ hn)) hrest _ hnext
      rw [Except.map, hend] at hfold
      refine ⟨r, .cons hfold hfolds, ?_⟩
      cases r with
      | error e =>
        obtain ⟨n, hn, hpn⟩ := hps
        exact ⟨n, List.mem_cons_of_mem _ hn, hpn⟩
      | ok all =>
        obtain ⟨ws, rfl, hws⟩ := hps
        exact ⟨(m.1, y) :: ws, by simp, .cons ⟨rfl, hp⟩ hws⟩

end Sorted

/-! ## Any value -/

/-- What may come back when a value is read that nests at most `d` deep: the value but for its
floating-point numbers, and without these the value itself. -/
def Restored (v : Json) (d : Nat) : Except Flaw Json → Prop
  | .ok w => w.blurred = v.blurred ∧ (v.Integral → w = v)
  | .error _ => ¬ (v.Integral ∧ v.depth ≤ d)

theorem value_of_scalar {c : Char} (hspace : isSpace c = false) (hlist : c ≠ '[')
    (hobject : c ≠ '\x7b') (d : Nat) (rest : List Char) :
    value d (c :: rest) = scalar (c :: rest) := by
  cases d <;> simp [value, skipSpace_cons hspace, hlist, hobject]

theorem value_of_digit {c : Char} (h : isDigit c = true) (d : Nat) (rest : List Char) :
    value d (c :: rest) = number false (c :: rest) := by
  obtain ⟨hspace, -, -⟩ := head_of_digit h
  have hlist : c ≠ '[' := by rintro rfl; cases h
  have hobject : c ≠ '\x7b' := by rintro rfl; cases h
  have hn : c ≠ 'n' := by rintro rfl; cases h
  have ht : c ≠ 't' := by rintro rfl; cases h
  have hf : c ≠ 'f' := by rintro rfl; cases h
  have hq : c ≠ '"' := by rintro rfl; cases h
  have hm : c ≠ '-' := by rintro rfl; cases h
  rw [value_of_scalar hspace hlist hobject]
  simp [scalar, h]

theorem reads_word {α : Type} (x : α) (ws : List Char) :
    Reads (mapReader (fun _ => x) (word ws)) ws (.ok x) := by
  intro rest _
  have hword : word ws (ws ++ rest) = .ok ((), rest) := by
    induction ws with
    | nil => rfl
    | cons w ws ih => simp [word, ih]
  rw [mapReader, hword]
  rfl

/-- An integer of 64 bits is read back. -/
theorem reads_int {n : Int} (hlow : -9223372036854775808 ≤ n) (hhigh : n < 18446744073709551616)
    (d : Nat) : Reads (value d) (intChars n) (.ok (.int n)) := by
  intro rest hrest
  unfold intChars
  split
  · next hneg =>
    rw [List.cons_append, value_of_scalar (by decide) (by decide) (by decide), scalar,
      reads_magnitude_neg hlow hneg rest hrest]
  · next hneg =>
    have hread := reads_magnitude hneg hhigh rest hrest
    obtain ⟨c, cs, hcs, hc⟩ := exists_natChars_eq n.natAbs
    rw [hcs, List.cons_append] at hread ⊢
    rw [value_of_digit hc, hread]

/-- A floating-point number is read as one, if at all. -/
theorem reads_float (x : Binary64) (d : Nat) :
    ∃ r, Reads (value d) (floatChars x) r ∧ OnlyFloat r := by
  obtain ⟨ds, tail, heq, hds, hne, htail⟩ : ∃ ds tail,
      (if x.isZero then ['0', '.', '0'] else decimalChars x.shortest) = ds ++ tail ∧
        Digits ds ∧ ds ≠ [] ∧ FloatTail tail := by
    split
    · exact ⟨['0'], ['.', '0'], rfl, digits_zeros 1, by decide,
        .fraction (digits_zeros 1) (by decide) (.inl rfl)⟩
    · exact exists_decimalChars_eq x.shortest
  obtain ⟨r, hreads, honly⟩ := reads_floating x.negative hds hne htail
  refine ⟨r, fun rest hrest => ?_, honly⟩
  have hread := hreads rest hrest
  rw [floatChars, heq]
  cases hneg : x.negative with
  | true =>
    rw [hneg] at hread
    rw [if_pos rfl, List.singleton_append, List.cons_append,
      value_of_scalar (by decide) (by decide) (by decide), scalar, hread]
  | false =>
    rw [hneg] at hread
    obtain ⟨c, cs, rfl⟩ := List.exists_cons_of_ne_nil hne
    rw [if_neg Bool.false_ne_true, List.nil_append]
    rw [List.cons_append, List.cons_append] at hread ⊢
    rw [value_of_digit (hds c List.mem_cons_self), hread]

/-- A list of values comes back as its items do. -/
theorem restored_list {xs ys : List Json} {d : Nat}
    (h : List.Forall₂ (fun x y => Restored x d (.ok y)) xs ys) :
    Restored (.list xs) (d + 1) (.ok (.list ys)) := by
  have hblurred : blurredItems ys = blurredItems xs := by
    induction h with
    | nil => rfl
    | cons hx _ ih => rw [blurredItems, blurredItems, hx.1, ih]
  refine ⟨by rw [blurred, blurred, hblurred], fun hint => ?_⟩
  have hall := integral_list.mp hint
  -- the same induction again, now with the items equal
  clear hint hblurred
  congr 1
  induction h with
  | nil => rfl
  | cons hx _ ih =>
    rw [hx.2 (hall _ List.mem_cons_self), ih fun x hx => hall x (List.mem_cons_of_mem _ hx)]

theorem restored_list_error {xs : List Json} {d : Nat} {e : Flaw}
    (h : ∃ x ∈ xs, Restored x d (.error e)) : Restored (.list xs) (d + 1) (.error e) := by
  obtain ⟨x, hx, hflaw⟩ := h
  rintro ⟨hint, hdepth⟩
  refine hflaw ⟨integral_list.mp hint x hx, depthItems_le_iff.mp ?_ x hx⟩
  rw [depth] at hdepth
  omega

/-- An object comes back as the values of its members do. -/
theorem restored_object {ms ws : List (String × Json)} {d : Nat}
    (h : List.Forall₂ (fun m w => m.1 = w.1 ∧ Restored m.2 d (.ok w.2)) ms ws) :
    Restored (.object ms) (d + 1) (.ok (.object ws)) := by
  have hblurred : blurredMembers ws = blurredMembers ms := by
    induction h with
    | nil => rfl
    | cons hm _ ih => rw [blurredMembers, blurredMembers, hm.1, hm.2.1, ih]
  refine ⟨by rw [blurred, blurred, hblurred], fun hint => ?_⟩
  have hall := integral_object.mp hint
  clear hint hblurred
  congr 1
  induction h with
  | nil => rfl
  | cons hm _ ih =>
    rw [ih fun m hm => hall m (List.mem_cons_of_mem _ hm)]
    congr 1
    exact Prod.ext hm.1.symm (hm.2.2 (hall _ List.mem_cons_self))

theorem restored_object_error {ms : List (String × Json)} {d : Nat} {e : Flaw}
    (h : ∃ m ∈ ms, Restored m.2 d (.error e)) : Restored (.object ms) (d + 1) (.error e) := by
  obtain ⟨m, hm, hflaw⟩ := h
  rintro ⟨hint, hdepth⟩
  refine hflaw ⟨integral_object.mp hint m hm, depthMembers_le_iff.mp ?_ m hm⟩
  rw [depth] at hdepth
  omega

/-- A value is read back from its own text but for its floating-point numbers, if it does not nest
too deep. -/
theorem reads_value {v : Json} (hv : v.Canonical) (d : Nat) :
    ∃ r, Reads (value d) v.compactChars r ∧ Restored v d r := by
  induction v using induct generalizing d with
  | null =>
    refine ⟨.ok .null, fun rest hrest => ?_, rfl, fun _ => rfl⟩
    rw [compactChars, String.toList_ofList]
    exact (value_of_scalar (by decide) (by decide) (by decide) d _).trans
      (reads_word Json.null ['u', 'l', 'l'] rest hrest)
  | bool b =>
    refine ⟨.ok (.bool b), fun rest hrest => ?_, rfl, fun _ => rfl⟩
    cases b with
    | false =>
      exact (value_of_scalar (by decide) (by decide) (by decide) d _).trans
        (reads_word (Json.bool false) ['a', 'l', 's', 'e'] rest hrest)
    | true =>
      exact (value_of_scalar (by decide) (by decide) (by decide) d _).trans
        (reads_word (Json.bool true) ['r', 'u', 'e'] rest hrest)
  | int n =>
    have hn : -9223372036854775808 ≤ n ∧ n < 18446744073709551616 := by
      simpa [Canonical, everywhere, isCanonical] using hv
    exact ⟨_, reads_int hn.1 hn.2 d, rfl, fun _ => rfl⟩
  | float x =>
    obtain ⟨r, hreads, honly⟩ := reads_float x d
    refine ⟨r, hreads, ?_⟩
    have hnot : ¬ (Json.float x).Integral := by simp [Integral, everywhere, isFloat]
    cases r with
    | error e => exact fun h => hnot h.1
    | ok w =>
      obtain ⟨y, rfl⟩ := honly w rfl
      exact ⟨rfl, fun h => absurd h hnot⟩
  | text s =>
    refine ⟨.ok (.text s), fun rest hrest => ?_, rfl, fun _ => rfl⟩
    rw [compactChars, textChars, List.cons_append, List.append_assoc, List.singleton_append,
      value_of_scalar (by decide) (by decide) (by decide), scalar, mapReader, chars_written]
    rfl
  | list xs ih =>
    cases d with
    | zero =>
      -- the reader refuses the bracket, and the list is deeper than nothing
      refine ⟨.error .malformed, fun rest hrest => ?_, ?_⟩
      · rw [compactChars, List.cons_append, value, skipSpace_cons (by decide)]
        rfl
      · rintro ⟨-, hdepth⟩
        rw [depth] at hdepth
        omega
    | succ d =>
      obtain ⟨r, hlists, hps⟩ := exists_lists fun x hx => ih x hx (canonical_list.mp hv x hx) d
      refine ⟨r.map .list, fun rest hrest => ?_, ?_⟩
      · rw [compactChars, List.cons_append, List.append_assoc, List.singleton_append, value,
          skipSpace_cons (by decide)]
        simp only [mapReader, hlists.items]
        cases r <;> rfl
      · cases r with
        | ok ys => exact restored_list hps
        | error e => exact restored_list_error hps
  | object ms ih =>
    cases d with
    | zero =>
      refine ⟨.error .malformed, fun rest hrest => ?_, ?_⟩
      · rw [compactChars, List.cons_append, value, skipSpace_cons (by decide)]
        rfl
      · rintro ⟨-, hdepth⟩
        rw [depth] at hdepth
        omega
    | succ d =>
      obtain ⟨hascending, hcanonical⟩ := canonical_object.mp hv
      obtain ⟨r, hfolds, hps⟩ := exists_folds (P := fun x r => Restored x d r)
        (fun m hm => ih m hm (hcanonical m hm) d) hascending []
        (fun k hk => absurd hk List.not_mem_nil)
      refine ⟨r.map .object, fun rest hrest => ?_, ?_⟩
      · rw [compactChars, List.cons_append, List.append_assoc, List.singleton_append, value,
          skipSpace_cons (by decide)]
        simp only [mapReader, hfolds.members]
        cases r <;> rfl
      · cases r with
        | ok ws =>
          obtain ⟨_, rfl, hws⟩ := hps
          exact restored_object hws
        | error e => exact restored_object_error hps

end SharedWatch.Json
