import Mathlib.Data.List.DropRight
import SharedWatch.Resource.Filter
import SharedWatch.Text.Split

/-!
Selectors on the way to a server.

A requirement is read from a command line, rendered for a server, and read there again. What was
read has no blank around its parts and no `=` in its key (`Readable`), so it comes back from its own
rendering (`parse_render`) and asks the server for what the filter asks for (`meets_render`). But
the renderings are joined by commas, and a comma within a requirement is rendered as it is.

Main statement: `selector_understood_iff`. The selector of a filter is read back as its requirements
exactly if no comma was given, and then a server that applies it sends the records that the filter
accepts. Otherwise a server that sends anything for it also sends what the filter does not accept.
-/

namespace SharedWatch

namespace Text

/-! ## Trimming and splitting -/

theorem mem_dropBlanks_iff {c : Char} (h : isBlank c = false) (cs : List Char) :
    c ∈ cs.dropWhile isBlank ↔ c ∈ cs := by
  induction cs with
  | nil => rfl
  | cons d cs ih =>
    rw [List.dropWhile_cons]
    split
    · next hd =>
      have hne : c ≠ d := by rintro rfl; rw [h] at hd; cases hd
      rw [ih, List.mem_cons, or_iff_right hne]
    · rfl

/-- Trimming keeps every character that is not blank. -/
theorem mem_trimChars_iff {c : Char} (h : isBlank c = false) (cs : List Char) :
    c ∈ trimChars cs ↔ c ∈ cs := by
  rw [trimChars, List.mem_reverse, mem_dropBlanks_iff h, List.mem_reverse, mem_dropBlanks_iff h]

theorem trimChars_trimChars (cs : List Char) : trimChars (trimChars cs) = trimChars cs := by
  have htrim : ∀ ds, trimChars ds = (ds.dropWhile isBlank).rdropWhile isBlank := fun _ => rfl
  have hfront : (trimChars cs).dropWhile isBlank = trimChars cs := by
    -- what is left begins as the text does without the blanks before it
    have hcut := List.dropWhile_eq_self_iff.mp (List.dropWhile_idempotent isBlank cs)
    have hpre : trimChars cs <+: cs.dropWhile isBlank := List.rdropWhile_prefix isBlank _
    refine List.dropWhile_eq_self_iff.mpr fun hpos => ?_
    rw [hpre.getElem hpos]
    exact hcut (Nat.lt_of_lt_of_le hpos hpre.length_le)
  rw [htrim (trimChars cs), hfront, htrim cs, List.rdropWhile_idempotent]

theorem splitAt_eq_splitOn (sep : Char) (cs : List Char) : splitAt sep cs = cs.splitOn sep := by
  induction cs with
  | nil => rfl
  | cons c cs ih =>
    obtain ⟨part, parts, hparts⟩ := List.exists_cons_of_ne_nil (List.splitOn_ne_nil sep cs)
    rw [splitAt, ih, hparts, List.splitOn_cons_eq_if_modifyHead, hparts]
    simp only [beq_iff_eq, List.modifyHead_cons]

theorem not_mem_splitAt {sep : Char} {cs part : List Char} (h : part ∈ splitAt sep cs) :
    sep ∉ part := by
  induction cs generalizing part with
  | nil =>
    rw [List.mem_singleton.mp h]
    exact List.not_mem_nil
  | cons c cs ih =>
    obtain ⟨first, others, hsplit⟩ : ∃ first others, splitAt sep cs = first :: others := by
      rw [splitAt_eq_splitOn]
      exact List.exists_cons_of_ne_nil (List.splitOn_ne_nil sep cs)
    rw [hsplit] at ih
    rw [splitAt, hsplit] at h
    split at h
    · rcases List.mem_cons.mp h with rfl | h
      · exact List.not_mem_nil
      · exact ih h
    · next hc =>
      rcases List.mem_cons.mp h with rfl | h
      · exact List.not_mem_cons_of_ne_of_not_mem (Ne.symm hc) (ih List.mem_cons_self)
      · exact ih (List.mem_cons_of_mem _ h)

/-- No part of a text holds the separator. -/
theorem not_mem_parts {sep : Char} {s part : String} (h : part ∈ parts sep s) :
    sep ∉ part.toList := by
  obtain ⟨cs, hcs, rfl⟩ := List.mem_map.mp h
  rw [String.toList_ofList]
  exact not_mem_splitAt hcs

/-- Splitting undoes joining, if no part holds the separator. -/
theorem parts_intercalate {sep : Char} {ps : List String} (hne : ps ≠ [])
    (h : ∀ p ∈ ps, sep ∉ p.toList) : parts sep ((String.singleton sep).intercalate ps) = ps := by
  have hplain : ∀ cs ∈ ps.map String.toList, sep ∉ cs := by
    intro cs hcs
    obtain ⟨p, hp, rfl⟩ := List.mem_map.mp hcs
    exact h p hp
  rw [parts, splitAt_eq_splitOn, String.toList_intercalate, String.toList_singleton,
    List.splitOn_intercalate sep hplain (by simpa using hne), List.map_map]
  exact (List.map_congr_left fun p _ => String.ofList_toList).trans (List.map_id ps)

end Text

namespace Selector

/-! ## One requirement -/

theorem splitEquals_append {k : List Char} (hk : '=' ∉ k) (v : List Char) :
    splitEquals (k ++ '=' :: v) = some (k, v) := by
  induction k with
  | nil => rfl
  | cons c k ih =>
    have hc : c ≠ '=' := Ne.symm (List.ne_of_not_mem_cons hk)
    rw [List.cons_append, splitEquals, if_neg hc, ih (List.not_mem_of_not_mem_cons hk)]
    rfl

theorem splitEquals_eq_none_iff {cs : List Char} : splitEquals cs = none ↔ '=' ∉ cs := by
  induction cs with
  | nil => exact ⟨fun _ => List.not_mem_nil, fun _ => rfl⟩
  | cons c cs ih =>
    rw [splitEquals, List.mem_cons, not_or]
    split
    · next hc => exact ⟨nofun, fun h => absurd hc.symm h.1⟩
    · next hc => rw [Option.map_eq_none_iff, ih, and_iff_right (Ne.symm hc)]

theorem splitEquals_eq_some {cs k v : List Char} (h : splitEquals cs = some (k, v)) :
    cs = k ++ '=' :: v ∧ '=' ∉ k := by
  induction cs generalizing k with
  | nil => cases h
  | cons c cs ih =>
    rw [splitEquals] at h
    split at h
    · next hc =>
      cases h
      exact ⟨by rw [hc]; rfl, List.not_mem_nil⟩
    · next hc =>
      obtain ⟨⟨k', v'⟩, hsplit, heq⟩ := Option.map_eq_some_iff.mp h
      cases heq
      obtain ⟨hcs, hk⟩ := ih hsplit
      exact ⟨by rw [hcs]; rfl, List.not_mem_cons_of_ne_of_not_mem (Ne.symm hc) hk⟩

/-- What a text that is read gives: what stands around its first `=`, or the whole of it. -/
theorem parse_eq_ok_iff {s : String} {p : Selector} :
    parse s = .ok p ↔
      (∃ k v, splitEquals s.toList = some (k, v) ∧ Text.trimChars k ≠ [] ∧
        p = (String.ofList (Text.trimChars k), String.ofList (Text.trimChars v))) ∨
      (splitEquals s.toList = none ∧ Text.trimChars s.toList ≠ [] ∧
        p = (String.ofList (Text.trimChars s.toList), anyValue)) := by
  have hread : ∀ (key : List Char) (value : String),
      (if key.isEmpty then .error (.emptyKey s) else .ok (String.ofList key, value) :
        Except WatchFailure Selector) = .ok p ↔
      key ≠ [] ∧ p = (String.ofList key, value) := by
    intro key value
    cases key with
    | nil => simp
    | cons c key => simp [eq_comm]
  unfold parse
  cases hsplit : splitEquals s.toList with
  | none => exact (hread _ _).trans (by simp)
  | some sides =>
    obtain ⟨k, v⟩ := sides
    exact (hread _ _).trans (by simp [and_assoc])

/-- The requirements that can be read: the key is not empty and holds no `=`, and no blank stands
around the key or the value. -/
structure Readable (p : Selector) : Prop where
  key_ne : p.1.toList ≠ []
  key_plain : '=' ∉ p.1.toList
  key_trimmed : Text.trimChars p.1.toList = p.1.toList
  value_trimmed : Text.trimChars p.2.toList = p.2.toList

theorem readable_of_parse {s : String} {p : Selector} (h : parse s = .ok p) : Readable p := by
  have hplain : ∀ {cs : List Char}, '=' ∉ cs → '=' ∉ Text.trimChars cs := fun hcs =>
    (Text.mem_trimChars_iff (by decide) _).not.mpr hcs
  rcases parse_eq_ok_iff.mp h with ⟨k, v, hsplit, hne, rfl⟩ | ⟨hsplit, hne, rfl⟩
  · have hk : '=' ∉ k := (splitEquals_eq_some hsplit).2
    constructor <;> simp only [String.toList_ofList, Text.trimChars_trimChars]
    · exact hne
    · exact hplain hk
  · have hs : '=' ∉ s.toList := splitEquals_eq_none_iff.mp hsplit
    constructor <;> simp only [String.toList_ofList, Text.trimChars_trimChars]
    · exact hne
    · exact hplain hs
    · decide

theorem toList_render {p : Selector} (h : p.2 ≠ anyValue) :
    (render p).toList = p.1.toList ++ '=' :: p.2.toList := by
  rw [render, if_neg h]
  simp

/-- A requirement that can be read comes back from its rendering. -/
theorem parse_render {p : Selector} (h : Readable p) : parse (render p) = .ok p := by
  rw [parse_eq_ok_iff]
  by_cases hany : p.2 = anyValue
  · have hrender : render p = p.1 := if_pos hany
    right
    rw [hrender, splitEquals_eq_none_iff, h.key_trimmed, String.ofList_toList]
    exact ⟨h.key_plain, h.key_ne, Prod.ext rfl hany⟩
  · left
    refine ⟨p.1.toList, p.2.toList, ?_, ?_, ?_⟩
    · rw [toList_render hany, splitEquals_append h.key_plain]
    · rw [h.key_trimmed]
      exact h.key_ne
    · rw [h.key_trimmed, h.value_trimmed, String.ofList_toList, String.ofList_toList]

theorem comma_not_mem_anyValue : ',' ∉ anyValue.toList := by decide

theorem comma_mem_trimChars_iff (cs : List Char) : ',' ∈ Text.trimChars cs ↔ ',' ∈ cs :=
  Text.mem_trimChars_iff (by decide) cs

/-- A comma is rendered as it is. -/
theorem comma_mem_render_iff (p : Selector) :
    ',' ∈ (render p).toList ↔ ',' ∈ p.1.toList ∨ ',' ∈ p.2.toList := by
  by_cases hany : p.2 = anyValue
  · have hrender : render p = p.1 := if_pos hany
    rw [hrender, hany, or_iff_left comma_not_mem_anyValue]
  · have hne : ',' ≠ '=' := by decide
    rw [toList_render hany, List.mem_append, List.mem_cons, or_iff_right hne]

/-- A requirement is rendered with a comma exactly if it was given with one. -/
theorem comma_mem_render_iff_of_parse {s : String} {p : Selector} (h : parse s = .ok p) :
    ',' ∈ (render p).toList ↔ ',' ∈ s.toList := by
  rw [comma_mem_render_iff]
  rcases parse_eq_ok_iff.mp h with ⟨k, v, hsplit, -, rfl⟩ | ⟨-, -, rfl⟩
  · have hne : ',' ≠ '=' := by decide
    rw [(splitEquals_eq_some hsplit).1, String.toList_ofList, String.toList_ofList,
      comma_mem_trimChars_iff, comma_mem_trimChars_iff, List.mem_append, List.mem_cons,
      or_iff_right hne]
  · rw [String.toList_ofList, comma_mem_trimChars_iff, or_iff_left comma_not_mem_anyValue]

/-! ## A server that applies a selector -/

/-- Whether a server finds that labels meet a requirement: the label before the first `=` has the
value after it, or, without a `=`, there is such a label. -/
def meets (labels : TextMap) (requirement : String) : Bool :=
  match splitEquals requirement.toList with
  | some (k, v) =>
    labels.find? (String.ofList (Text.trimChars k)) == some (String.ofList (Text.trimChars v))
  | none => (labels.find? (Text.trim requirement)).isSome

/-- The requirements of a selector; a missing one asks for nothing. -/
def requirements : Option String → List String
  | none => []
  | some s => Text.parts ',' s

/-- Whether a server that was given the selector sends the record. -/
def serves (selector : Option String) (r : Record) : Bool :=
  (requirements selector).all (meets r.labels)

/-- A server asks of the labels what the filter asks of them. -/
theorem meets_render {p : Selector} (h : Readable p) (labels : TextMap) :
    meets labels (render p) = p.holds labels := by
  by_cases hany : p.2 = anyValue
  · have hrender : render p = p.1 := if_pos hany
    have hsplit : splitEquals p.1.toList = none := splitEquals_eq_none_iff.mpr h.key_plain
    have htrim : Text.trim p.1 = p.1 := by rw [Text.trim, h.key_trimmed, String.ofList_toList]
    rw [hrender, meets, hsplit, holds, hany]
    simp only [htrim]
    cases labels.find? p.1 <;> rfl
  · rw [meets, toList_render hany, splitEquals_append h.key_plain, holds]
    simp only [h.key_trimmed, h.value_trimmed, String.ofList_toList]
    cases labels.find? p.1 with
    | none => rfl
    | some value => simp [beq_eq_false_iff_ne.mpr hany]

theorem comma_not_mem_requirements {selector : Option String} {t : String}
    (h : t ∈ requirements selector) : ',' ∉ t.toList := by
  cases selector with
  | none => cases h
  | some s => exact Text.not_mem_parts h

/-! ## Labels without commas -/

/-- The value, or an empty one in the place of one with a comma. -/
def plainValue (v : String) : String := if ',' ∈ v.toList then "" else v

theorem comma_not_mem_plainValue (v : String) : ',' ∉ (plainValue v).toList := by
  unfold plainValue
  split
  · exact List.not_mem_nil
  · assumption

def plainEntries (es : List (String × String)) : List (String × String) :=
  (es.filter fun e => ',' ∉ e.1.toList).map fun e => (e.1, plainValue e.2)

/-- The labels whose keys have no comma, with plain values. -/
def plainLabels (m : TextMap) : TextMap where
  entries := plainEntries m.entries
  ascending := List.pairwise_map.mpr (m.ascending.filter _)

theorem member?_plainEntries (key : String) (es : List (String × String)) :
    Json.member? key (plainEntries es) =
      if ',' ∈ key.toList then none else (Json.member? key es).map plainValue := by
  unfold plainEntries
  induction es with
  | nil => simp [Json.member?]
  | cons e es ih =>
    obtain ⟨k, v⟩ := e
    by_cases hk : ',' ∈ k.toList
    · have hne : ',' ∉ key.toList → k ≠ key := by
        rintro hkey rfl
        exact hkey hk
      rw [List.filter_cons_of_neg (by simpa using hk), ih]
      split
      · rfl
      · next hkey => rw [Json.member?, if_neg (hne hkey)]
    · rw [List.filter_cons_of_pos (by simpa using hk), List.map_cons, Json.member?, ih,
        Json.member?]
      by_cases heq : k = key
      · rw [if_pos heq, if_pos heq, if_neg (heq ▸ hk)]
        rfl
      · rw [if_neg heq, if_neg heq]

theorem find?_plainLabels (m : TextMap) (key : String) :
    (plainLabels m).find? key = if ',' ∈ key.toList then none else (m.find? key).map plainValue :=
  member?_plainEntries key m.entries

/-- A server whose requirements have no comma does not see the difference. -/
theorem meets_plainLabels {t : String} (ht : ',' ∉ t.toList) {m : TextMap} (h : meets m t = true) :
    meets (plainLabels m) t = true := by
  unfold meets at h ⊢
  cases hsplit : splitEquals t.toList with
  | none =>
    rw [hsplit] at h
    simp only [Text.trim, find?_plainLabels, String.toList_ofList, comma_mem_trimChars_iff,
      if_neg ht] at h ⊢
    rw [Option.isSome_map]
    exact h
  | some sides =>
    obtain ⟨k, v⟩ := sides
    rw [(splitEquals_eq_some hsplit).1, List.mem_append, List.mem_cons, not_or, not_or] at ht
    rw [hsplit] at h
    have hplain : plainValue (String.ofList (Text.trimChars v)) =
        String.ofList (Text.trimChars v) := by
      have hv : ',' ∉ (String.ofList (Text.trimChars v)).toList := by
        rw [String.toList_ofList, comma_mem_trimChars_iff]
        exact ht.2.2
      exact if_neg hv
    simp only [find?_plainLabels, String.toList_ofList, comma_mem_trimChars_iff, if_neg ht.1,
      beq_iff_eq] at h ⊢
    rw [h, Option.map_some, hplain]

/-- A requirement with a comma does not hold of plain labels. -/
theorem not_holds_plainLabels {p : Selector} (h : ',' ∈ (render p).toList) (m : TextMap) :
    p.holds (plainLabels m) = false := by
  rw [holds, find?_plainLabels]
  rcases (comma_mem_render_iff p).mp h with hkey | hvalue
  · rw [if_pos hkey]
  · split
    · rfl
    · next found hfound =>
      have hplain : ',' ∉ found.toList := by
        split at hfound
        · cases hfound
        · obtain ⟨v, -, rfl⟩ := Option.map_eq_some_iff.mp hfound
          exact comma_not_mem_plainValue v
      have hany : p.2 ≠ anyValue := by
        intro hany
        rw [hany] at hvalue
        exact comma_not_mem_anyValue hvalue
      have hne : found ≠ p.2 := by
        rintro rfl
        exact hplain hvalue
      rw [beq_eq_false_iff_ne.mpr hany, beq_eq_false_iff_ne.mpr hne]
      rfl

/-! ## A list of requirements -/

section Lists
variable {α β ε : Type} {f : α → Except ε β} {xs : List α} {ys : List β}

theorem mapM_eq_ok_cons_iff {x : α} {zs : List β} :
    (x :: xs).mapM f = .ok zs ↔ ∃ y ys, f x = .ok y ∧ xs.mapM f = .ok ys ∧ zs = y :: ys := by
  rw [List.mapM_cons]
  cases f x with
  | error e => simp [bind, Except.bind]
  | ok y => cases xs.mapM f <;> simp [bind, Except.bind, pure, Except.pure, eq_comm]

theorem exists_of_mem_mapM (h : xs.mapM f = .ok ys) {x : α} (hx : x ∈ xs) :
    ∃ y ∈ ys, f x = .ok y := by
  induction xs generalizing ys with
  | nil => cases hx
  | cons x' xs ih =>
    obtain ⟨y, ys, hy, hys, rfl⟩ := mapM_eq_ok_cons_iff.mp h
    rcases List.mem_cons.mp hx with rfl | hx
    · exact ⟨y, List.mem_cons_self, hy⟩
    · obtain ⟨z, hz, hfz⟩ := ih hys hx
      exact ⟨z, List.mem_cons_of_mem _ hz, hfz⟩

theorem exists_mem_of_mapM (h : xs.mapM f = .ok ys) {y : β} (hy : y ∈ ys) :
    ∃ x ∈ xs, f x = .ok y := by
  induction xs generalizing ys with
  | nil =>
    cases h
    cases hy
  | cons x xs ih =>
    obtain ⟨y', ys, hfx, hys, rfl⟩ := mapM_eq_ok_cons_iff.mp h
    rcases List.mem_cons.mp hy with rfl | hy
    · exact ⟨x, List.mem_cons_self, hfx⟩
    · obtain ⟨z, hz, hfz⟩ := ih hys hy
      exact ⟨z, List.mem_cons_of_mem _ hz, hfz⟩

/-- What is undone for each is undone for all. -/
theorem mapM_map {g : β → α} (h : ∀ y ∈ ys, f (g y) = .ok y) : (ys.map g).mapM f = .ok ys := by
  induction ys with
  | nil => rfl
  | cons y ys ih =>
    have hys := ih fun z hz => h z (List.mem_cons_of_mem _ hz)
    exact mapM_eq_ok_cons_iff.mpr ⟨y, ys, h y List.mem_cons_self, hys, rfl⟩

end Lists

end Selector

open Selector

namespace Filter

/-- Labels alone always have a selector, and without commas its parts are their renderings. -/
theorem exists_labelSelector (pairs : List Selector) (bookmarks : Bool) :
    ∃ selector, (Filter.mk pairs [] bookmarks).labelSelector = .ok selector ∧
      ((∀ p ∈ pairs, ',' ∉ (render p).toList) → requirements selector = pairs.map render) := by
  cases pairs with
  | nil => exact ⟨none, rfl, fun _ => rfl⟩
  | cons p ps =>
    refine ⟨some (",".intercalate ((p :: ps).map render)), rfl, fun hplain => ?_⟩
    refine Text.parts_intercalate (by simp) fun t ht => ?_
    obtain ⟨q, hq, rfl⟩ := List.mem_map.mp ht
    exact hplain q hq

/-- The selector of requirements that were read is read as these requirements again exactly if no
comma was given. Without commas a server sends for it what the filter accepts. With one, a server
that sends anything for it also sends something that the filter does not accept. -/
theorem selector_understood_iff {texts : List String} {pairs : List Selector}
    (hread : texts.mapM parse = .ok pairs) (bookmarks : Bool) :
    ∃ selector, (Filter.mk pairs [] bookmarks).labelSelector = .ok selector ∧
      ((requirements selector).mapM parse = .ok pairs ↔ ∀ t ∈ texts, ',' ∉ t.toList) ∧
      ((∀ t ∈ texts, ',' ∉ t.toList) →
        ∀ r, serves selector r = (Filter.mk pairs [] bookmarks).accepts r) ∧
      ((∃ t ∈ texts, ',' ∈ t.toList) → (∃ r, serves selector r = true) →
        ∃ r, serves selector r = true ∧ (Filter.mk pairs [] bookmarks).accepts r = false) := by
  have hreadable : ∀ p ∈ pairs, Readable p := by
    intro p hp
    obtain ⟨t, -, ht⟩ := exists_mem_of_mapM hread hp
    exact readable_of_parse ht
  have hplain : (∀ t ∈ texts, ',' ∉ t.toList) → ∀ p ∈ pairs, ',' ∉ (render p).toList := by
    intro h p hp
    obtain ⟨t, htexts, ht⟩ := exists_mem_of_mapM hread hp
    rw [comma_mem_render_iff_of_parse ht]
    exact h t htexts
  obtain ⟨selector, hselector, hparts⟩ := exists_labelSelector pairs bookmarks
  refine ⟨selector, hselector, ⟨fun hback t ht hcomma => ?_, fun h => ?_⟩, fun h r => ?_, ?_⟩
  · obtain ⟨p, hp, htp⟩ := exists_of_mem_mapM hread ht
    obtain ⟨part, hpart, hpp⟩ := exists_mem_of_mapM hback hp
    have hp' := (comma_mem_render_iff_of_parse htp).mpr hcomma
    exact comma_not_mem_requirements hpart ((comma_mem_render_iff_of_parse hpp).mp hp')
  · rw [hparts (hplain h)]
    exact mapM_map fun p hp => parse_render (hreadable p hp)
  · have hall : pairs.all (meets r.labels ∘ render) = pairs.all (·.holds r.labels) := by
      rw [Bool.eq_iff_iff, List.all_eq_true, List.all_eq_true]
      refine forall₂_congr fun p hp => ?_
      rw [Function.comp_apply, meets_render (hreadable p hp)]
    rw [serves, hparts (hplain h), List.all_map, hall]
    exact (Bool.and_true _).symm
  · rintro ⟨t, ht, hcomma⟩ ⟨r, hr⟩
    obtain ⟨p, hp, htp⟩ := exists_of_mem_mapM hread ht
    refine ⟨{ r with labels := plainLabels r.labels }, ?_, ?_⟩
    · rw [serves, List.all_eq_true] at hr ⊢
      intro part hpart
      exact meets_plainLabels (comma_not_mem_requirements hpart) (hr part hpart)
    · have hfalse : p.holds (plainLabels r.labels) = false :=
        not_holds_plainLabels ((comma_mem_render_iff_of_parse htp).mpr hcomma) r.labels
      have hlabels : pairs.all (·.holds (plainLabels r.labels)) = false :=
        List.all_eq_false.mpr ⟨p, hp, by rw [hfalse]; exact Bool.false_ne_true⟩
      rw [accepts, hlabels]
      rfl

/-- A requirement with a value and one without, read from a command line. -/
theorem selector_understood_iff_webTier :
    ["app = web", "tier"].mapM parse = .ok [("app", "web"), ("tier", "*")] ∧
      ∃ selector,
        (Filter.mk [("app", "web"), ("tier", "*")] [] true).labelSelector = .ok selector ∧
        (requirements selector).mapM parse = .ok [("app", "web"), ("tier", "*")] ∧
        ∀ r, serves selector r =
          (Filter.mk [("app", "web"), ("tier", "*")] [] true).accepts r := by
  have hread : ["app = web", "tier"].mapM parse = .ok [("app", "web"), ("tier", "*")] := by rfl
  have hplain : ∀ t ∈ ["app = web", "tier"], ',' ∉ t.toList := by decide
  obtain ⟨selector, hselector, hback, hserves, -⟩ := selector_understood_iff hread true
  exact ⟨hread, selector, hselector, hback.mpr hplain, hserves hplain⟩

/-- A value with a comma becomes two requirements, and the server that meets them sends what the
filter does not accept. -/
theorem comma_misread :
    ∃ pairs selector, ["a=1,b=2"].mapM parse = .ok pairs ∧
      (Filter.mk pairs [] false).labelSelector = .ok selector ∧
      (requirements selector).mapM parse = .ok [("a", "1"), ("b", "2")] ∧
      pairs ≠ [("a", "1"), ("b", "2")] ∧
      ∃ r, serves selector r = true ∧ (Filter.mk pairs [] false).accepts r = false := by
  refine ⟨[("a", "1,b=2")], some "a=1,b=2", by rfl, by rfl, by rfl, by decide, ?_⟩
  exact ⟨{ Record.empty with labels := .ofList [("a", "1"), ("b", "2")] }, by rfl, by rfl⟩

end Filter

end SharedWatch
