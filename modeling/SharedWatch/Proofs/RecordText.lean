import Mathlib.Data.List.Forall2
import SharedWatch.Proofs.Readback
import SharedWatch.Wire.Record

/-!
Reading back a record.

A record is written as an object of its fields. Each field's reader accepts what was written for it
(`reads_fieldMember`), so the record comes back with whatever its raw object comes back as
(`reads_record`).
-/

namespace SharedWatch

namespace Json

/-! ## Single values -/

theorem Reads.map {α β : Type} {r : Reader α} {text : List Char} {result : Except Flaw α}
    (h : Reads r text result) (f : α → β) : Reads (mapReader f r) text (result.map f) := by
  intro rest hrest
  rw [mapReader, h rest hrest]
  cases result <;> rfl

theorem reads_textValue (s : String) : Reads textValue (textChars s) (.ok s) := by
  intro rest _
  rw [textChars, List.cons_append, List.append_assoc, List.singleton_append, textValue,
    skipSpace_cons (by decide)]
  exact chars_written s rest

theorem reads_ofText? (s : Option String) :
    Reads (optional textValue) (ofText? s).compactChars (.ok s) := by
  cases s with
  | none =>
    intro rest hrest
    exact reads_word none ['u', 'l', 'l'] rest hrest
  | some s =>
    intro rest hrest
    have hread := (reads_textValue s).map some rest hrest
    rw [ofText?, Option.map_some, Option.getD_some, compactChars]
    rw [textChars, List.cons_append] at hread ⊢
    rw [optional, skipSpace_cons (by decide)]
    exact hread

theorem reads_int64Value {n : Int} (hlow : -9223372036854775808 ≤ n)
    (hhigh : n ≤ 9223372036854775807) : Reads int64Value (intChars n) (.ok n) := by
  intro rest hrest
  have hwithin : (Json.int n).intWithin? (-9223372036854775808) 9223372036854775807 = some n := by
    rw [intWithin?, if_pos ⟨hlow, hhigh⟩]
  unfold intChars
  split
  · next hneg =>
    have hread := reads_magnitude_neg hlow hneg rest hrest
    rw [List.cons_append, int64Value, intValue, skipSpace_cons (by decide)]
    simp only [hread, Except.map, hwithin]
  · next hneg =>
    have hread := reads_magnitude hneg (by omega) rest hrest
    obtain ⟨c, cs, hcs, hc⟩ := exists_natChars_eq n.natAbs
    have hminus : c ≠ '-' := by rintro rfl; cases hc
    rw [hcs, List.cons_append] at hread ⊢
    rw [int64Value, intValue, skipSpace_cons (head_of_digit hc).1]
    simp [hc, hread, Except.map, hwithin]

/-! ## Fields -/

section Fields
variable {σ : Type} {fields : List (FieldReader σ)} {d : Nat}

/-- A field that is not known yet is read by its own reader. -/
theorem reads_fieldMember {f : FieldReader σ} {draft : σ} {key : String} {x : Json}
    {result : Except Flaw σ} (hfind : fields.find? (fun f => f.name == key) = some f)
    (hgiven : f.given draft = false) (h : Reads (f.read d draft) x.compactChars result) :
    Reads (fieldMember d fields key draft) (':' :: x.compactChars) result := by
  intro rest hend
  rw [List.cons_append, fieldMember, hfind]
  simp only [hgiven, Bool.false_eq_true, if_false, colon_cons]
  exact h rest hend

/-- A record is read from the object of its fields. -/
theorem reads_recordValue {α : Type} {start : σ} {finish : σ → Option α}
    {ms : List (String × Json)} {result : Except Flaw σ}
    (h : Folds (fieldMember d fields) start ms result) (rest : List Char) :
    recordValue fields start finish (d + 1) ((Json.object ms).compactChars ++ rest) =
      complete finish (result.map (·, rest)) := by
  rw [compactChars, List.cons_append, List.append_assoc, List.singleton_append, recordValue,
    skipSpace_cons (by decide)]
  simp only [h.members]

end Fields

end Json

/-! ## Maps -/

namespace TextMap

theorem eq_of_entries {a b : TextMap} (h : a.entries = b.entries) : a = b := by
  cases a
  cases b
  cases h
  rfl

/-- Entries whose keys come after all known ones are put at the end. -/
theorem entries_foldl_insert (es : List (String × String)) {start : TextMap}
    (h : Json.Ascending (start.entries ++ es)) :
    (es.foldl (fun m e => m.insert e.1 e.2) start).entries = start.entries ++ es := by
  induction es generalizing start with
  | nil => exact (List.append_nil _).symm
  | cons e es ih =>
    have hlt : ∀ k ∈ start.entries, k.1 < e.1 := fun k hk =>
      (List.pairwise_append.mp h).2.2 k hk e List.mem_cons_self
    have hend : (start.insert e.1 e.2).entries = start.entries ++ [e] :=
      Json.insertMember_of_lt e.2 hlt
    have happend : start.entries ++ e :: es = (start.insert e.1 e.2).entries ++ es := by
      rw [hend, List.append_assoc]
      rfl
    rw [happend] at h ⊢
    exact ih h

/-- A map is what its entries make, one after another. -/
theorem ofList_entries (m : TextMap) : ofList m.entries = m :=
  eq_of_entries (entries_foldl_insert m.entries m.ascending)

end TextMap

namespace Json

theorem reads_textMap (m : TextMap) (d : Nat) :
    Reads (TextMap.reader (d + 1)) m.toJson.compactChars (.ok m) := by
  have htexts : ∀ e ∈ m.entries.map (fun e => (e.1, Json.text e.2)),
      ∃ r, Reads textValue e.2.compactChars r ∧ ∃ s, e.2 = .text s ∧ r = .ok s := by
    intro e he
    obtain ⟨e, -, rfl⟩ := List.mem_map.mp he
    exact ⟨_, reads_textValue e.2, e.2, rfl, rfl⟩
  have hascending : Ascending (m.entries.map fun e => (e.1, Json.text e.2)) :=
    List.pairwise_map.mpr m.ascending
  obtain ⟨r, hfolds, hr⟩ := exists_folds (P := fun x r => ∃ s, x = .text s ∧ r = .ok s) htexts
    hascending [] (fun k hk => absurd hk List.not_mem_nil)
  have hall : r = .ok m.entries := by
    cases r with
    | error e =>
      obtain ⟨_, -, s, -, h⟩ := hr
      cases h
    | ok all =>
      obtain ⟨ws, hws, hrest⟩ := hr
      have hsame : List.Forall₂ (· = ·) m.entries ws := by
        refine (List.forall₂_map_left_iff.mp hrest).imp fun e w h => ?_
        obtain ⟨hkey, s, htext, hs⟩ := h
        exact Prod.ext hkey ((Json.text.inj htext).trans (Except.ok.inj hs).symm)
      rw [List.forall₂_eq_eq_eq] at hsame
      rw [hws, List.nil_append, hsame]
  subst hall
  have hmap : Reads (mapValue (fun _ => textValue) (d + 1)) m.toJson.compactChars
      (.ok m.entries) := by
    intro rest _
    rw [TextMap.toJson, compactChars, List.cons_append, List.append_assoc, List.singleton_append,
      mapValue, within, skipSpace_cons (by decide)]
    exact hfolds.members rest
  have hread := hmap.map TextMap.ofList
  rw [Except.map, TextMap.ofList_entries] at hread
  exact hread

/-! ## Records -/

/-- A record comes back as it was, with whatever its raw object is read as. -/
theorem reads_record {r : Record} (hlow : -9223372036854775808 ≤ r.generation)
    (hhigh : r.generation ≤ 9223372036854775807) {d : Nat} {result : Except Flaw Json}
    (hraw : Reads (value (d + 1)) r.raw.compactChars result) :
    Reads (Record.reader (d + 2)) r.toJson.compactChars
      (result.map fun raw => { r with raw }) := by
  have hfolds : Folds (fieldMember (d + 1) Record.fields)
      ⟨none, none, none, none, none, none, none, none⟩
      [("namespace", .text r.ns), ("name", .text r.name), ("uid", .ofText? r.uid),
        ("resource_version", .text r.version), ("generation", .int r.generation),
        ("labels", r.labels.toJson), ("annotations", r.annotations.toJson), ("raw", r.raw)]
      (result.map fun raw => ⟨some r.ns, some r.name, some r.uid, some r.version,
        some r.generation, some r.labels, some r.annotations, some raw⟩) := by
    refine .cons (reads_fieldMember rfl rfl ((reads_textValue r.ns).map _)) ?_
    refine .cons (reads_fieldMember rfl rfl ((reads_textValue r.name).map _)) ?_
    refine .cons (reads_fieldMember rfl rfl ((reads_ofText? r.uid).map _)) ?_
    refine .cons (reads_fieldMember rfl rfl ((reads_textValue r.version).map _)) ?_
    refine .cons (reads_fieldMember rfl rfl ((reads_int64Value hlow hhigh).map _)) ?_
    refine .cons (reads_fieldMember rfl rfl ((reads_textMap r.labels d).map _)) ?_
    refine .cons (reads_fieldMember rfl rfl ((reads_textMap r.annotations d).map _)) ?_
    exact .last (reads_fieldMember rfl rfl (hraw.map _))
  intro rest _
  rw [Record.toJson, Record.reader, reads_recordValue hfolds]
  cases result <;> rfl

end Json

/-- The generation is a signed word of 64 bits and the raw object is canonical, as in every record
that a program holds. -/
structure Record.Canonical (r : Record) : Prop where
  low : -9223372036854775808 ≤ r.generation
  high : r.generation ≤ 9223372036854775807
  raw : r.raw.Canonical

/-- Two records differ at most in the floating-point numbers of their raw objects. -/
def Record.Resembles (s r : Record) : Prop :=
  s = { r with raw := s.raw } ∧ s.raw.blurred = r.raw.blurred

/-- What may come back when a record is read that nests at most `d` deep: the record but for
floating-point numbers, and without these the record itself. -/
def Record.Restored (r : Record) (d : Nat) : Except Json.Flaw Record → Prop
  | .ok s => s.Resembles r ∧ (r.raw.Integral → s = r)
  | .error _ => ¬ (r.raw.Integral ∧ r.toJson.depth ≤ d)

namespace Json

/-! ## Whole texts -/

theorem whole_compact {α : Type} {r : Reader α} {v : Json} {result : Except Flaw α}
    (h : Reads r v.compactChars result) : whole r v.compact = result := by
  have hread := h [] trivial
  rw [List.append_nil] at hread
  rw [whole, compact, String.toList_ofList, hread]
  cases result <;> rfl

theorem whole_value {v : Json} (hv : v.Canonical) (hint : v.Integral)
    (hdepth : v.depth ≤ depthLimit) : whole (value depthLimit) v.compact = .ok v := by
  obtain ⟨result, hreads, hresult⟩ := reads_value hv depthLimit
  rw [whole_compact hreads]
  cases result with
  | error e => exact absurd ⟨hint, hdepth⟩ hresult
  | ok w => rw [hresult.2 hint]

theorem depth_raw_lt (r : Record) : r.raw.depth < r.toJson.depth := by
  have hraw : r.raw.depth ≤ depthMembers [
      ("namespace", .text r.ns), ("name", .text r.name), ("uid", .ofText? r.uid),
      ("resource_version", .text r.version), ("generation", .int r.generation),
      ("labels", r.labels.toJson), ("annotations", r.annotations.toJson), ("raw", r.raw)] :=
    depthMembers_le_iff.mp (Nat.le_refl _) ("raw", r.raw) (by simp)
  exact Nat.lt_succ_of_le hraw

theorem exists_reads_record {r : Record} (hr : r.Canonical) (d : Nat) :
    ∃ result, Reads (Record.reader (d + 2)) r.toJson.compactChars result ∧
      r.Restored (d + 2) result := by
  obtain ⟨result, hreads, hresult⟩ := reads_value hr.raw (d + 1)
  refine ⟨_, reads_record hr.low hr.high hreads, ?_⟩
  cases result with
  | error e =>
    rintro ⟨hint, hdepth⟩
    have hlt := depth_raw_lt r
    exact hresult ⟨hint, by omega⟩
  | ok raw =>
    refine ⟨⟨rfl, hresult.1⟩, fun hint => ?_⟩
    rw [hresult.2 hint]

theorem exists_whole_record {r : Record} (hr : r.Canonical) :
    ∃ result, whole (Record.reader depthLimit) r.toJson.compact = result ∧
      r.Restored depthLimit result := by
  obtain ⟨result, hreads, hresult⟩ := exists_reads_record hr 125
  exact ⟨result, whole_compact hreads, hresult⟩

/-- A record that comes back is the one that was written, but for floating-point numbers. -/
theorem resembles_of_whole {r s : Record} (hr : r.Canonical)
    (h : whole (Record.reader depthLimit) r.toJson.compact = .ok s) :
    s.Resembles r ∧ (r.raw.Integral → s = r) := by
  obtain ⟨result, hwhole, hresult⟩ := exists_whole_record hr
  rw [hwhole] at h
  subst h
  exact hresult

/-- A record with integers only comes back as it was. -/
theorem whole_record {r : Record} (hr : r.Canonical) (hint : r.raw.Integral)
    (hdepth : r.toJson.depth ≤ depthLimit) :
    whole (Record.reader depthLimit) r.toJson.compact = .ok r := by
  obtain ⟨result, hwhole, hresult⟩ := exists_whole_record hr
  rw [hwhole]
  cases result with
  | error e => exact absurd ⟨hint, hdepth⟩ hresult
  | ok s => rw [hresult.2 hint]

end Json

end SharedWatch
