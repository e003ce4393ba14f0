import SharedWatch.Proofs.RecordText

/-!
What is read from a text is canonical.

Whatever text a value is read from, its integers are of 64 bits and the keys of its objects ascend
(`canonical_of_parse`), so without floating-point numbers it is read back from what is written for
it (`parse_compact`). A record that is read from a text or made from such a value is canonical too
(`Record.canonical_of_whole`, `Record.canonical_ofRaw`). So being canonical asks nothing of the
values and records that a program takes in.
-/

namespace SharedWatch

namespace Json

open Text (word64)

/-- If a reader gives anything, it has the property. -/
def Gives {α : Type} (p : α → Prop) (result : Except Flaw (α × List Char)) : Prop :=
  ∀ x rest, result = .ok (x, rest) → p x

section Gives
variable {α β : Type} {p : α → Prop}

theorem gives_error (e : Flaw) : Gives p (.error e) := by
  intro x rest h
  cases h

theorem gives_ok {x : α} (h : p x) (rest : List Char) : Gives p (.ok (x, rest)) := by
  intro y rest h
  cases h
  exact h

theorem Gives.map {q : β → Prop} {r : Reader α} {cs : List Char} (h : Gives p (r cs)) {f : α → β}
    (hf : ∀ x, p x → q (f x)) : Gives q (mapReader f r cs) := by
  rw [mapReader]
  cases hr : r cs with
  | error e => exact gives_error e
  | ok y => exact gives_ok (hf y.1 (h y.1 y.2 hr)) y.2

/-- What is read after something else has the property if it has it whatever was read first. -/
theorem Gives.next {q : β → Prop} {r : Reader α} {cs : List Char} (h : Gives p (r cs))
    {f : α → List Char → Except Flaw (β × List Char)} (hf : ∀ x rest, p x → Gives q (f x rest)) :
    Gives q (match r cs with
      | .ok (x, rest) => f x rest
      | .error e => .error e) := by
  cases hr : r cs with
  | error e => exact gives_error e
  | ok y => exact hf y.1 y.2 (h y.1 y.2 hr)

/-- Whatever is read, what it is made into has the property. -/
theorem gives_mapped {f : β → α} (r : Reader β) (cs : List Char) (hf : ∀ x, p (f x)) :
    Gives p (mapReader f r cs) :=
  Gives.map (p := fun _ => True) (fun _ _ _ => trivial) fun x _ => hf x

end Gives

/-! ## Numbers -/

/-- A canonical value that is neither a list nor an object. -/
def Plain (v : Json) : Prop := v.Canonical ∧ v.depth = 0

theorem plain_float (x : Binary64) : (Json.float x).Plain := ⟨rfl, rfl⟩

theorem gives_withRest {p : Json → Prop} {r : Except Flaw Json} (h : ∀ v, r = .ok v → p v)
    (rest : List Char) : Gives p (withRest rest r) := by
  cases r with
  | error e => exact gives_error e
  | ok v => exact gives_ok (h v rfl) rest

theorem gives_assemble (negative : Bool) (significand : Nat) (e : Int) (rest : List Char) :
    Gives Plain (withRest rest (assemble negative significand e)) := by
  refine gives_withRest (fun v hv => ?_) rest
  obtain ⟨x, rfl⟩ := onlyFloat_assemble negative significand e v hv
  exact plain_float x

theorem gives_exponentPart (negative : Bool) (significand : Nat) (e : Int) (cs : List Char) :
    Gives Plain (exponentPart negative significand e cs) := by
  unfold exponentPart
  simp only
  split
  · exact gives_error _
  split
  · exact gives_error _
  -- the sign decides which number it is, and nothing about its form
  repeat' split
  all_goals first
    | exact gives_error _
    | exact gives_ok (plain_float _) _
    | exact gives_assemble _ _ _ _

theorem gives_afterFraction (negative : Bool) (significand : Nat) (e : Int) (cs : List Char) :
    Gives Plain (afterFraction negative significand e cs) := by
  unfold afterFraction
  split
  · split
    · exact gives_exponentPart _ _ _ _
    · exact gives_assemble _ _ _ _
  · exact gives_assemble _ _ _ _

theorem gives_fractionPart (negative : Bool) (significand : Nat) (e : Int) (cs : List Char) :
    Gives Plain (fractionPart negative significand e cs) := by
  unfold fractionPart
  simp only
  split
  · exact gives_error _
  · exact gives_afterFraction _ _ _ _

/-- A significand stays in its word. -/
theorem absorb_lt {n k : Nat} (hn : n < word64) (cs : List Char) :
    (absorb n k cs).1 < word64 := by
  induction cs generalizing n k with
  | nil => exact hn
  | cons c cs ih =>
    rw [absorb]
    split
    · next h => exact ih h
    · exact hn

theorem gives_signed (negative : Bool) {magnitude : Nat} (h : magnitude < word64)
    (rest : List Char) : Gives Plain (withRest rest (signed negative magnitude)) := by
  refine gives_withRest (fun v hv => ?_) rest
  unfold word64 at h
  rw [signed] at hv
  split at hv
  · cases hv
    refine ⟨?_, rfl⟩
    simp [Canonical, everywhere, isCanonical]
    omega
  split at hv
  · cases hv
    refine ⟨?_, rfl⟩
    simp [Canonical, everywhere, isCanonical]
    omega
  split at hv
  · cases hv
    exact plain_float _
  · cases hv

theorem gives_number (negative : Bool) (cs : List Char) : Gives Plain (number negative cs) := by
  have hlt : ∀ ds, (absorb 0 0 ds).1 < word64 := absorb_lt (by decide)
  unfold number
  simp only
  split
  · exact gives_error _
  · exact gives_error _
  split
  · exact gives_fractionPart _ _ _ _
  · split
    · exact gives_afterFraction _ _ _ _
    split
    · exact gives_signed _ (hlt _) _
    · exact gives_assemble _ _ _ _
  · split
    · exact gives_signed _ (hlt _) _
    · exact gives_assemble _ _ _ _

/-! ## Values -/

theorem gives_scalar (cs : List Char) : Gives Plain (scalar cs) := by
  unfold scalar
  split
  · exact gives_error _
  · exact gives_mapped _ _ fun _ => ⟨rfl, rfl⟩
  · exact gives_mapped _ _ fun _ => ⟨rfl, rfl⟩
  · exact gives_mapped _ _ fun _ => ⟨rfl, rfl⟩
  · exact gives_mapped _ _ fun _ => ⟨rfl, rfl⟩
  · exact gives_number _ _
  · split
    · exact gives_number _ _
    · exact gives_error _

section Containers
variable {α : Type} {item : Reader α} {p : α → Prop}

theorem gives_itemsFrom (h : ∀ cs, Gives p (item cs)) (fuel : Nat) (first : Bool) {seen : List α}
    (hseen : ∀ x ∈ seen, p x) (cs : List Char) :
    Gives (fun xs => ∀ x ∈ xs, p x) (itemsFrom item fuel first seen cs) := by
  induction fuel generalizing first seen cs with
  | zero => exact gives_error _
  | succ fuel ih =>
    have hnext : ∀ x rest, p x →
        Gives (fun xs => ∀ x ∈ xs, p x) (itemsFrom item fuel false (x :: seen) rest) :=
      fun x rest hx => ih false (List.forall_mem_cons.mpr ⟨hx, hseen⟩) rest
    rw [itemsFrom]
    split
    · exact gives_error _
    · exact gives_ok (fun x hx => hseen x (List.mem_reverse.mp hx)) _
    split
    · exact (h _).next hnext
    split
    · split
      · exact gives_error _
      · exact gives_error _
      · exact (h _).next hnext
    · exact gives_error _

theorem mem_insertMember {key : String} {value : α} {ms : List (String × α)} {m : String × α}
    (h : m ∈ insertMember key value ms) : m = (key, value) ∨ m ∈ ms := by
  induction ms with
  | nil => exact .inl (List.mem_singleton.mp h)
  | cons n ms ih =>
    rw [insertMember] at h
    split at h
    · exact List.mem_cons.mp h
    split at h
    · rcases List.mem_cons.mp h with rfl | h
      · exact .inr List.mem_cons_self
      · exact (ih h).imp_right (List.mem_cons_of_mem _)
    · exact (List.mem_cons.mp h).imp_right (List.mem_cons_of_mem _)

theorem gives_sortedMember (h : ∀ cs, Gives p (item cs)) (key : String)
    {known : List (String × α)} (hknown : Ascending known ∧ ∀ m ∈ known, p m.2) (cs : List Char) :
    Gives (fun ms => Ascending ms ∧ ∀ m ∈ ms, p m.2) (sortedMember item key known cs) := by
  rw [sortedMember]
  split
  · exact gives_error _
  split
  · exact gives_error _
  · next x rest hr =>
    refine gives_ok ⟨ascending_insertMember hknown.1, fun m hm => ?_⟩ _
    rcases mem_insertMember hm with rfl | hm
    · exact h _ x rest hr
    · exact hknown.2 m hm

theorem gives_membersFrom {σ : Type} {member : String → σ → Reader σ} {q : σ → Prop}
    (h : ∀ key known cs, q known → Gives q (member key known cs)) (fuel : Nat) (first : Bool)
    {known : σ} (hknown : q known) (cs : List Char) :
    Gives q (membersFrom member fuel first known cs) := by
  induction fuel generalizing first known cs with
  | zero => exact gives_error _
  | succ fuel ih =>
    have hnext : ∀ known rest, q known → Gives q (membersFrom member fuel false known rest) :=
      fun known rest hknown => ih false hknown rest
    rw [membersFrom]
    split
    · exact gives_error _
    · exact gives_ok hknown _
    split
    · split
      · split
        · exact gives_error _
        · exact (h _ _ _ hknown).next hnext
      · exact gives_error _
    split
    · split
      · exact gives_error _
      · split
        · exact gives_error _
        · exact (h _ _ _ hknown).next hnext
      · exact gives_error _
    · exact gives_error _

end Containers

/-- What the reader of a depth gives is canonical and nests no deeper. -/
theorem gives_value (d : Nat) (cs : List Char) :
    Gives (fun v => v.Canonical ∧ v.depth ≤ d) (value d cs) := by
  have hscalar : ∀ d cs, Gives (fun v => v.Canonical ∧ v.depth ≤ d) (scalar cs) := by
    intro d cs v rest h
    obtain ⟨hv, hdepth⟩ := gives_scalar cs v rest h
    exact ⟨hv, hdepth ▸ Nat.zero_le d⟩
  induction d generalizing cs with
  | zero =>
    rw [value]
    split
    · exact gives_error _
    · exact gives_error _
    · exact hscalar 0 _
  | succ d ih =>
    rw [value]
    split
    · refine (gives_itemsFrom ih _ _ (by simp) _).map fun xs hxs => ⟨?_, ?_⟩
      · exact canonical_list.mpr fun x hx => (hxs x hx).1
      · exact Nat.succ_le_succ (depthItems_le_iff.mpr fun x hx => (hxs x hx).2)
    · refine Gives.map (gives_membersFrom
        (q := fun ms => Ascending ms ∧ ∀ m ∈ ms, m.2.Canonical ∧ m.2.depth ≤ d)
        (fun key _ cs hknown => gives_sortedMember ih key hknown cs) _ _ ⟨.nil, by simp⟩ _) ?_
      refine fun ms hms => ⟨?_, ?_⟩
      · exact canonical_object.mpr ⟨hms.1, fun m hm => (hms.2 m hm).1⟩
      · exact Nat.succ_le_succ (depthMembers_le_iff.mpr fun m hm => (hms.2 m hm).2)
    · exact hscalar _ _

/-! ## Records -/

section Fields
variable {σ : Type} {fields : List (FieldReader σ)} {q : σ → Prop}

theorem gives_fieldMember (h : ∀ f ∈ fields, ∀ d draft cs, q draft → Gives q (f.read d draft cs))
    (d : Nat) (key : String) {draft : σ} (hdraft : q draft) (cs : List Char) :
    Gives q (fieldMember d fields key draft cs) := by
  rw [fieldMember]
  split
  · split
    · exact gives_error _
    · exact gives_mapped _ _ fun _ => hdraft
  · next f hf =>
    split
    · exact gives_error _
    split
    · exact gives_error _
    · exact h f (List.mem_of_find?_eq_some hf) d draft _ hdraft

theorem gives_fieldsInOrder
    (h : ∀ f ∈ fields, ∀ d draft cs, q draft → Gives q (f.read d draft cs)) (d : Nat)
    (first : Bool) {draft : σ} (hdraft : q draft) (cs : List Char) :
    Gives q (fieldsInOrder d fields first draft cs) := by
  induction fields generalizing first draft cs with
  | nil => exact gives_ok hdraft cs
  | cons f fields ih =>
    have hrest : ∀ g ∈ fields, ∀ d draft cs, q draft → Gives q (g.read d draft cs) :=
      fun g hg => h g (List.mem_cons_of_mem _ hg)
    rw [fieldsInOrder]
    split
    · exact gives_error _
    · split
      · exact ih hrest first hdraft _
      · exact gives_error _
    · split
      · exact gives_error _
      · next hread => exact ih hrest false (h f List.mem_cons_self d draft _ hdraft _ _ hread) _

theorem gives_complete {α : Type} {p : α → Prop} {finish : σ → Option α}
    (hfinish : ∀ draft x, q draft → finish draft = some x → p x)
    {result : Except Flaw (σ × List Char)} (h : Gives q result) :
    Gives p (complete finish result) := by
  cases result with
  | error e => exact gives_error e
  | ok y =>
    rw [complete]
    split
    · next x hx => exact gives_ok (hfinish y.1 x (h y.1 y.2 rfl) hx) _
    · exact gives_error _

/-- A record has a property that follows from what each of its fields keeps. -/
theorem gives_recordValue {α : Type} {p : α → Prop} {start : σ} {finish : σ → Option α}
    (h : ∀ f ∈ fields, ∀ d draft cs, q draft → Gives q (f.read d draft cs)) (hstart : q start)
    (hfinish : ∀ draft x, q draft → finish draft = some x → p x) (d : Nat) (cs : List Char) :
    Gives p (recordValue fields start finish d cs) := by
  rw [recordValue]
  split
  · split
    · exact gives_error _
    · refine gives_complete hfinish ?_
      split
      · exact gives_error _
      · next hread =>
        exact gives_mapped _ _ fun _ => gives_fieldsInOrder h _ true hstart _ _ _ hread
  · split
    · exact gives_error _
    · exact gives_complete hfinish
        (gives_membersFrom (fun key _ cs hq => gives_fieldMember h _ key hq cs) _ _ hstart _)
  · exact gives_error _

end Fields

section Shapes
variable {α : Type} {p : α → Prop}

theorem gives_within {opening : Char} {r : Nat → Reader α} (h : ∀ d cs, Gives p (r d cs))
    (d : Nat) (cs : List Char) : Gives p (within opening d r cs) := by
  rw [within]
  split
  · exact gives_error _
  split
  · split
    · exact gives_error _
    · exact h _ _
  · exact gives_error _

/-- An object has a property that each of its fields keeps. -/
theorem gives_objectValue {fields : List (FieldReader α)} {start : α}
    (h : ∀ f ∈ fields, ∀ d draft cs, p draft → Gives p (f.read d draft cs)) (hstart : p start)
    (d : Nat) (cs : List Char) : Gives p (objectValue fields start d cs) :=
  gives_within (fun _ cs =>
    gives_membersFrom (fun key _ cs hp => gives_fieldMember h _ key hp cs) _ _ hstart cs) d cs

theorem gives_optional {r : Reader α} (h : ∀ cs, Gives p (r cs)) (cs : List Char) :
    Gives (fun x => ∀ y ∈ x, p y) (optional r cs) := by
  unfold optional
  split
  · exact gives_mapped _ _ fun _ => by simp
  · exact (h _).map fun y hy => by simpa using hy

/-- A choice has a property that the content of each alternative has. -/
theorem gives_taggedValue {β : Type} {tag content : String} {table : List (String × β)}
    {read : β → Nat → Reader α} (h : ∀ x d cs, Gives p (read x d cs)) (d : Nat)
    (cs : List Char) : Gives p (taggedValue tag content table read d cs) := by
  have hmember : ∀ d key (t : Tagged β α) cs, (∀ y ∈ t.value, p y) →
      Gives (fun t => ∀ y ∈ t.value, p y) (taggedMember tag content table read d key t cs) := by
    intro d key t cs ht
    rw [taggedMember]
    split
    · exact gives_error _
    split
    · exact gives_error _
    split
    · split
      · exact gives_error _
      split
      · exact gives_ok ht _
      · split
        · exact gives_error _
        · next hread => exact gives_ok (by simpa using h _ _ _ _ _ hread) _
    split
    · split
      · exact gives_mapped _ _ fun _ => ht
      · exact (h _ _ _).map fun y hy => by simpa using hy
    · exact gives_mapped _ _ fun _ => ht
  rw [taggedValue]
  split
  · split
    · exact gives_error _
    split
    · exact gives_error _
    · exact gives_error _
    split
    · exact gives_error _
    split
    · exact gives_error _
    · exact gives_error _
    split
    · exact gives_error _
    · next hread => exact gives_mapped _ _ fun _ => h _ _ _ _ _ hread
  · split
    · exact gives_error _
    · exact gives_complete (fun t y ht hy => ht y hy)
        (gives_membersFrom (fun key t cs ht => hmember _ key t cs ht) _ _ (by simp) _)
  · exact gives_error _

end Shapes

theorem intWithin?_bounds {low high n : Int} {v : Json} (h : v.intWithin? low high = some n) :
    low ≤ n ∧ n ≤ high := by
  cases v with
  | int m =>
    rw [intWithin?] at h
    split at h
    · next hm => cases h; exact hm
    · cases h
  | _ => cases h

theorem gives_intValue (low high : Int) (cs : List Char) :
    Gives (fun n => low ≤ n ∧ n ≤ high) (intValue low high cs) := by
  unfold intValue
  simp only
  split
  · exact gives_error _
  split
  · next n hn =>
    exact gives_ok (p := fun n => low ≤ n ∧ n ≤ high) (intWithin?_bounds hn) _
  · exact gives_error _

/-- What holds of a record while it is read. -/
def Record.Draft.Canonical (d : Record.Draft) : Prop :=
  (∀ n ∈ d.generation, -9223372036854775808 ≤ n ∧ n ≤ 9223372036854775807) ∧
    ∀ v ∈ d.raw, v.Canonical

theorem gives_record (d : Nat) (cs : List Char) : Gives Record.Canonical (Record.reader d cs) := by
  refine gives_recordValue (q := Record.Draft.Canonical) ?_ ⟨by simp, by simp⟩ ?_ d cs
  · intro f hf d draft cs hdraft
    simp only [Record.fields, List.mem_cons, List.not_mem_nil, or_false] at hf
    rcases hf with rfl | rfl | rfl | rfl | rfl | rfl | rfl | rfl
    · exact gives_mapped _ _ fun _ => hdraft
    · exact gives_mapped _ _ fun _ => hdraft
    · exact gives_mapped _ _ fun _ => hdraft
    · exact gives_mapped _ _ fun _ => hdraft
    · exact (gives_intValue _ _ cs).map fun n hn => ⟨by simpa using hn, hdraft.2⟩
    · exact gives_mapped _ _ fun _ => hdraft
    · exact gives_mapped _ _ fun _ => hdraft
    · exact (gives_value d cs).map fun v hv => ⟨hdraft.1, by simpa using hv.1⟩
  · rintro draft r ⟨hgeneration, hraw⟩ hfinish
    simp only [Record.Draft.finish, Option.bind_eq_bind, Option.pure_def,
      Option.bind_eq_some_iff] at hfinish
    obtain ⟨_, -, _, -, _, -, n, hn, _, -, _, -, v, hv, hr⟩ := hfinish
    cases hr
    exact ⟨(hgeneration n hn).1, (hgeneration n hn).2, hraw v hv⟩

/-! ## Whole texts -/

theorem of_whole {α : Type} {p : α → Prop} {r : Reader α} {s : String} {x : α}
    (hr : Gives p (r s.toList)) (h : whole r s = .ok x) : p x := by
  rw [whole] at h
  split at h
  · cases h
  · next y rest hy =>
    split at h
    · cases h
      exact hr _ _ hy
    · cases h

/-- Every value that is read from a text is canonical. -/
theorem canonical_of_parse {s : String} {v : Json} (h : parse s = .ok v) : v.Canonical :=
  (of_whole (gives_value depthLimit s.toList) h).1

/-- A value with integers only that was read from a text is read back from what is written for it.
-/
theorem parse_compact {s : String} {v : Json} (h : parse s = .ok v) (hint : v.Integral) :
    parse v.compact = .ok v :=
  whole_value (canonical_of_parse h) hint (of_whole (gives_value depthLimit s.toList) h).2

end Json

namespace Record

/-- Every record that is read from a text is canonical. -/
theorem canonical_of_whole {s : String} {r : Record}
    (h : Json.whole (reader Json.depthLimit) s = .ok r) : r.Canonical :=
  Json.of_whole (Json.gives_record Json.depthLimit s.toList) h

/-- Every record that is made from a canonical object is canonical. -/
theorem canonical_ofRaw {raw : Json} (h : raw.Canonical) : (ofRaw raw).Canonical := by
  have hgeneration : -9223372036854775808 ≤ (ofRaw raw).generation ∧
      (ofRaw raw).generation ≤ 9223372036854775807 := by
    simp only [ofRaw]
    cases hg : (metaField? raw "generation").bind Json.int64? with
    | none => exact ⟨by decide, by decide⟩
    | some n =>
      obtain ⟨v, -, hn⟩ := Option.bind_eq_some_iff.mp hg
      exact Json.intWithin?_bounds hn
  exact ⟨hgeneration.1, hgeneration.2, h⟩

end Record

end SharedWatch
