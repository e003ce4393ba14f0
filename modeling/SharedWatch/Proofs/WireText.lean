import SharedWatch.Proofs.Canonical
import SharedWatch.Wire.Change
import SharedWatch.Wire.Watch

/-!
Reading back everything that is written as JSON.

Each type that is written has a reader of its own, and records contain values of other types, so the
readers are followed from the leaves to the outside: names and labelled texts (`reads_nameValue`,
`reads_labelledText`), lists (`reads_listValue`), records by their fields (`reads_fields`).

Main statement: `decode_encode_iff`. Whatever the type, a value without floating-point numbers is
read back from its own text, and written the same way again, exactly if it nests at most 127 levels.
-/

namespace SharedWatch

namespace Json

/-! ## Choices and lists -/

section Choices
variable {α : Type} {name : String}

/-- The name of an alternative is read as the alternative. -/
theorem alternative_written {table : List (String × α)} {x : α} (h : member? name table = some x)
    (rest : List Char) : alternative table (textChars name ++ rest) = .ok (x, rest) := by
  rw [textChars, List.cons_append, List.append_assoc, List.singleton_append, alternative,
    textValue, skipSpace_cons (by decide)]
  simp only [chars_written, h]

theorem reads_nameValue {table : List (String × α)} {x : α} (h : member? name table = some x)
    (d : Nat) : Reads (nameValue table d) (textChars name) (.ok x) := by
  intro rest _
  have hname := alternative_written h rest
  rw [textChars, List.cons_append] at hname ⊢
  rw [nameValue, choiceValue, skipSpace_cons (by decide)]
  simp only [hname, Except.map]

theorem reads_labelledText {table : List (String × (String → α))} {f : String → α}
    (h : member? name table = some f) (s : String) (d : Nat) :
    Reads (labelledText table (d + 1)) (Json.object [(name, .text s)]).compactChars
      (.ok (f s)) := by
  intro rest _
  have hcontent := (reads_textValue s).map f ('\x7d' :: rest) (.inr (.inr rfl))
  have hopen : isSpace '\x7b' = false := by decide
  have hclose : isSpace '\x7d' = false := by decide
  rw [compactChars, compactMembers, compactChars, labelledText, choiceValue]
  simp only [List.cons_append, List.append_assoc, List.nil_append, skipSpace_cons hopen,
    alternative_written h, colon_cons, hcontent, Except.map, skipSpace_cons hclose]

end Choices

theorem reads_boolValue (b : Bool) : Reads boolValue (boolChars b) (.ok b) := by
  intro rest hend
  cases b with
  | false => exact reads_word false ['a', 'l', 's', 'e'] rest hend
  | true => exact reads_word true ['r', 'u', 'e'] rest hend

/-- A list is read from the texts of its items. -/
theorem reads_listValue {α : Type} {item : Nat → Reader α} {toJson : α → Json} {d : Nat}
    (h : ∀ x, Reads (item d) (toJson x).compactChars (.ok x)) (xs : List α) :
    Reads (listValue item (d + 1)) (Json.list (xs.map toJson)).compactChars (.ok xs) := by
  have hlists : Lists (item d) (xs.map toJson) (.ok xs) := by
    induction xs with
    | nil => exact .nil
    | cons x xs ih => exact .cons (h x) ih
  intro rest _
  rw [compactChars, List.cons_append, List.append_assoc, List.singleton_append, listValue, within,
    skipSpace_cons (by decide)]
  exact hlists.items rest

/-- A record whose fields are all read is read. -/
theorem reads_fields {σ α : Type} {fields : List (FieldReader σ)} {start t : σ}
    {finish : σ → Option α} {ms : List (String × Json)} {d : Nat} {x : α}
    (h : Folds (fieldMember d fields) start ms (.ok t)) (hfinish : finish t = some x) :
    Reads (recordValue fields start finish (d + 1)) (Json.object ms).compactChars (.ok x) := by
  intro rest _
  rw [reads_recordValue h]
  simp only [complete, Except.map, hfinish]

/-! ## Each type -/

theorem reads_changeKind (k : ChangeKind) (d : Nat) :
    Reads (ChangeKind.reader d) (Json.text k.name).compactChars (.ok k) := by
  rw [compactChars]
  cases k <;> exact reads_nameValue rfl d

theorem reads_origin (o : Origin) (d : Nat) :
    Reads (Origin.reader d) (Json.text o.name).compactChars (.ok o) := by
  rw [compactChars]
  cases o <;> exact reads_nameValue rfl d

theorem reads_watchFailure (e : WatchFailure) (d : Nat) :
    Reads (WatchFailure.reader (d + 1)) e.toJson.compactChars (.ok e) := by
  cases e <;> exact reads_labelledText rfl _ d

theorem reads_serviceFailure (e : ServiceFailure) (d : Nat) :
    Reads (ServiceFailure.reader (d + 1)) e.toJson.compactChars (.ok e) := by
  cases e <;> exact reads_labelledText rfl _ d

theorem reads_resourceId (k : ResourceId) (d : Nat) :
    Reads (ResourceId.reader (d + 1)) k.toJson.compactChars (.ok k) := by
  refine reads_fields (t := ⟨some k.kind, some k.ns, some k.name⟩) ?_ rfl
  refine .cons (reads_fieldMember rfl rfl ((reads_textValue k.kind).map _)) ?_
  refine .cons (reads_fieldMember rfl rfl ((reads_textValue k.ns).map _)) ?_
  exact .last (reads_fieldMember rfl rfl ((reads_textValue k.name).map _))

theorem reads_target (t : Target) (d : Nat) :
    Reads (Target.reader (d + 1)) t.toJson.compactChars (.ok t) := by
  refine reads_fields (t := ⟨some t.gvk, some t.ns⟩) ?_ rfl
  refine .cons (reads_fieldMember rfl rfl ((reads_textValue t.gvk).map _)) ?_
  exact .last (reads_fieldMember rfl rfl ((reads_ofText? t.ns).map _))

/-- An item of a list begins with a quote when it is a text. -/
theorem anotherItem_text (s : String) (rest : List Char) :
    anotherItem true (textChars s ++ rest) = .ok (true, textChars s ++ rest) ∧
      anotherItem false (',' :: (textChars s ++ rest)) = .ok (true, textChars s ++ rest) := by
  have hquote : isSpace '"' = false := by decide
  have hcomma : isSpace ',' = false := by decide
  rw [textChars, List.cons_append, anotherItem, anotherItem]
  simp [skipSpace_cons hquote, skipSpace_cons hcomma]

/-- The list of a key and a value is read as the two. -/
theorem reads_selector (s : Selector) (d : Nat) :
    Reads (Selector.reader (d + 1)) s.toJson.compactChars (.ok s) := by
  obtain ⟨key, value⟩ := s
  intro rest _
  have hkey := reads_textValue key (',' :: (textChars value ++ ']' :: rest)) (.inl rfl)
  have hvalue := reads_textValue value (']' :: rest) (.inr (.inl rfl))
  have hopen : isSpace '[' = false := by decide
  have hclose : isSpace ']' = false := by decide
  simp only [Selector.toJson, compactChars, compactItems, List.cons_append, List.append_assoc,
    List.nil_append, Selector.reader, within, skipSpace_cons hopen, anotherItem_text, hkey, hvalue,
    Except.map, mapReader, closeList, skipSpace_cons hclose, if_true]

theorem reads_filter (f : Filter) (d : Nat) :
    Reads (Filter.reader (d + 3)) f.toJson.compactChars (.ok f) := by
  refine reads_fields (t := ⟨some f.labels, some f.annotations, some f.bookmarks⟩) ?_ rfl
  have hlist := reads_listValue fun s => reads_selector s d
  refine .cons (reads_fieldMember rfl rfl ((hlist f.labels).map _)) ?_
  refine .cons (reads_fieldMember rfl rfl ((hlist f.annotations).map _)) ?_
  exact .last (reads_fieldMember rfl rfl ((reads_boolValue f.bookmarks).map _))

/-! ## Records in records -/

/-- What comes back of a value: the value, if it fits, and nothing otherwise. -/
def Returns {α : Type} (x : α) (fits : Prop) : Except Flaw α → Prop
  | .ok y => y = x ∧ fits
  | .error _ => ¬ fits

theorem Returns.map {α β : Type} {x : α} {fits : Prop} {result : Except Flaw α}
    (h : Returns x fits result) (f : α → β) : Returns (f x) fits (result.map f) := by
  cases result with
  | error e => exact h
  | ok y => exact ⟨congrArg f h.1, h.2⟩

theorem Returns.congr {α : Type} {x : α} {p q : Prop} {result : Except Flaw α}
    (h : Returns x p result) (hpq : p ↔ q) : Returns x q result := by
  cases result with
  | error e => exact fun hq => h (hpq.mpr hq)
  | ok y => exact ⟨h.1, hpq.mp h.2⟩

/-- A value with integers only comes back exactly if it does not nest too deep. -/
theorem exists_reads_value {v : Json} (hv : v.Canonical) (hint : v.Integral) (d : Nat) :
    ∃ result, Reads (value d) v.compactChars result ∧ Returns v (v.depth ≤ d) result := by
  obtain ⟨result, hreads, hresult⟩ := reads_value hv d
  refine ⟨result, hreads, ?_⟩
  cases result with
  | error e => exact fun hdepth => hresult ⟨hint, hdepth⟩
  | ok w =>
    have hsame : w = v := hresult.2 hint
    exact ⟨hsame, hsame ▸ (gives_value d _ w [] (hreads [] trivial)).2⟩

theorem depthMembers_texts (es : List (String × String)) :
    depthMembers (es.map fun e => (e.1, Json.text e.2)) = 0 := by
  induction es with
  | nil => rfl
  | cons e es ih => rw [List.map_cons, depthMembers, ih, depth, Nat.max_self]

theorem depth_record (r : Record) : r.toJson.depth = max 1 r.raw.depth + 1 := by
  have huid : (ofText? r.uid).depth = 0 := by cases r.uid <;> rfl
  have hmap : ∀ m : TextMap, m.toJson.depth = 1 := fun m => by
    rw [TextMap.toJson, depth, depthMembers_texts]
  simp only [Record.toJson, depth, depthMembers, huid, hmap]
  omega

/-- A record with integers only comes back exactly if it does not nest too deep. -/
theorem exists_reads_record_iff {r : Record} (hr : r.Canonical) (hint : r.raw.Integral) (d : Nat) :
    ∃ result, Reads (Record.reader (d + 2)) r.toJson.compactChars result ∧
      Returns r (r.toJson.depth ≤ d + 2) result := by
  obtain ⟨result, hreads, hresult⟩ := exists_reads_value hr.raw hint (d + 1)
  refine ⟨_, reads_record hr.low hr.high hreads, ?_⟩
  have hfits : r.raw.depth ≤ d + 1 ↔ r.toJson.depth ≤ d + 2 := by
    rw [depth_record]
    omega
  exact (hresult.map fun raw => { r with raw }).congr hfits

section Fields
variable {σ α β : Type} {member : String → σ → Reader σ} {known : σ} {m : String × Json}
  {ms : List (String × Json)} {result : Except Flaw β}

/-- A member that may not come back, before others that do. -/
theorem Folds.cons_map {next final : β → σ}
    (head : Reads (member m.1 known) (':' :: m.2.compactChars) (result.map next))
    (tail : ∀ x, Folds member (next x) ms (.ok (final x))) :
    Folds member known (m :: ms) (result.map final) := by
  cases result with
  | error e => exact .flaw head
  | ok x => exact .cons head (tail x)

theorem reads_fields_map {fields : List (FieldReader σ)} {d : Nat} {finish : σ → Option α}
    {t : β → σ} {f : β → α} (h : Folds (fieldMember d fields) known ms (result.map t))
    (hfinish : ∀ x, finish (t x) = some (f x)) :
    Reads (recordValue fields known finish (d + 1)) (Json.object ms).compactChars
      (result.map f) := by
  intro rest _
  rw [reads_recordValue h]
  cases result with
  | error e => rfl
  | ok x => simp only [complete, Except.map, hfinish]

end Fields

/-- An event comes back with whatever its object is read as. -/
theorem reads_change {e : Change} {d : Nat} {result : Except Flaw Record}
    (hobject : Reads (Record.reader d) e.object.toJson.compactChars result) :
    Reads (Change.reader (d + 1)) e.toJson.compactChars
      (result.map fun object => { e with object }) := by
  refine reads_fields_map (t := fun object =>
    ⟨some e.kind, some object, some e.version, e.message.map some⟩) ?_ ?_
  · refine .cons (reads_fieldMember rfl rfl ((reads_changeKind e.kind d).map _)) ?_
    refine .cons_map (reads_fieldMember rfl rfl (hobject.map _)) fun object => ?_
    refine .cons (reads_fieldMember rfl rfl ((reads_textValue e.version).map _)) ?_
    cases hm : e.message with
    | none => exact .nil _
    | some m => exact .last (reads_fieldMember rfl rfl ((reads_ofText? (some m)).map _))
  · intro object
    cases e.message <;> rfl

/-- An event nests one level deeper than its object. -/
theorem depth_change (e : Change) : e.toJson.depth = e.object.toJson.depth + 1 := by
  have hobject := depth_record e.object
  cases hm : e.message <;> simp [Change.toJson, depth, depthMembers, hm, hobject]

theorem exists_reads_change {e : Change} (he : e.object.Canonical) (hint : e.object.raw.Integral)
    (d : Nat) : ∃ result, Reads (Change.reader (d + 3)) e.toJson.compactChars result ∧
      Returns e (e.toJson.depth ≤ d + 3) result := by
  obtain ⟨result, hreads, hresult⟩ := exists_reads_record_iff he hint d
  refine ⟨_, reads_change hreads, (hresult.map fun object => { e with object }).congr ?_⟩
  rw [depth_change]
  omega

/-- A single read comes back with whatever its record is read as. -/
theorem reads_read {r : Read} {d : Nat} {result : Except Flaw Record}
    (hrecord : Reads (Record.reader d) r.record.toJson.compactChars result) :
    Reads (Read.reader (d + 1)) r.toJson.compactChars
      (result.map fun record => { r with record }) := by
  refine reads_fields_map (t := fun record => ⟨some record, some r.origin⟩) ?_ fun _ => rfl
  refine .cons_map (reads_fieldMember rfl rfl (hrecord.map _)) fun record => ?_
  exact .last (reads_fieldMember rfl rfl ((reads_origin r.origin d).map _))

theorem depth_read (r : Read) : r.toJson.depth = r.record.toJson.depth + 1 := by
  simp [Read.toJson, depth, depthMembers]

theorem exists_reads_read {r : Read} (hr : r.record.Canonical) (hint : r.record.raw.Integral)
    (d : Nat) : ∃ result, Reads (Read.reader (d + 3)) r.toJson.compactChars result ∧
      Returns r (r.toJson.depth ≤ d + 3) result := by
  obtain ⟨result, hreads, hresult⟩ := exists_reads_record_iff hr hint d
  refine ⟨_, reads_read hreads, (hresult.map fun record => { r with record }).congr ?_⟩
  rw [depth_read]
  omega

end Json

/-! ## All types -/

/-- The types whose values are written as JSON. -/
inductive WireType where
  | changeKind
  | resourceId
  | record
  | change
  | target
  | filter
  | watchFailure
  | serviceFailure
  | origin
  | read
  deriving DecidableEq, Repr

namespace WireType

/-- The values of a type. -/
def Carrier : WireType → Type
  | changeKind => ChangeKind
  | resourceId => ResourceId
  | record => Record
  | change => Change
  | target => Target
  | filter => Filter
  | watchFailure => WatchFailure
  | serviceFailure => ServiceFailure
  | origin => Origin
  | read => Read

def toJson : (t : WireType) → t.Carrier → Json
  | changeKind, k => .text k.name
  | resourceId, k => k.toJson
  | record, r => r.toJson
  | change, e => e.toJson
  | target, t => t.toJson
  | filter, f => f.toJson
  | watchFailure, e => e.toJson
  | serviceFailure, e => e.toJson
  | origin, o => .text o.name
  | read, r => r.toJson

def reader : (t : WireType) → Nat → Json.Reader t.Carrier
  | changeKind => ChangeKind.reader
  | resourceId => ResourceId.reader
  | record => Record.reader
  | change => Change.reader
  | target => Target.reader
  | filter => Filter.reader
  | watchFailure => WatchFailure.reader
  | serviceFailure => ServiceFailure.reader
  | origin => Origin.reader
  | read => Read.reader

/-- The text of a value, without any space. -/
def encode (t : WireType) (x : t.Carrier) : String := (t.toJson x).compact

/-- The value that a text stands for. -/
def decode (t : WireType) (s : String) : Except Json.Flaw t.Carrier :=
  Json.whole (t.reader Json.depthLimit) s

/-- The record within a value, if there is one. -/
def record? : (t : WireType) → t.Carrier → Option Record
  | record, r => some r
  | change, e => some e.object
  | read, r => some r.record
  | _, _ => none

/-- Whether the record within a value is one that a program can hold and has integers only. -/
def Exact (t : WireType) (x : t.Carrier) : Prop :=
  ∀ r ∈ t.record? x, r.Canonical ∧ r.raw.Integral

end WireType

namespace Json

theorem depth_ofText? (s : Option String) : (ofText? s).depth = 0 := by cases s <;> rfl

theorem depth_filter_le (f : Filter) : f.toJson.depth ≤ 3 := by
  have hlist : ∀ ss : List Selector, (Json.list (ss.map Selector.toJson)).depth ≤ 2 := by
    intro ss
    refine Nat.succ_le_succ (depthItems_le_iff.mpr fun x hx => ?_)
    obtain ⟨s, -, rfl⟩ := List.mem_map.mp hx
    exact Nat.le_refl 1
  refine Nat.succ_le_succ (depthMembers_le_iff.mpr fun m hm => ?_)
  simp only [List.mem_cons, List.not_mem_nil, or_false] at hm
  rcases hm with rfl | rfl | rfl
  · exact hlist f.labels
  · exact hlist f.annotations
  · exact Nat.zero_le 2

/-- What is read, and no deeper than the limit, comes back. -/
theorem exists_reads_of_le {α : Type} {r : Reader α} {v : Json} {x : α} {d : Nat}
    (h : Reads r v.compactChars (.ok x)) (hdepth : v.depth ≤ d) :
    ∃ result, Reads r v.compactChars result ∧ Returns x (v.depth ≤ d) result :=
  ⟨.ok x, h, rfl, hdepth⟩

/-- Every value comes back exactly if it does not nest too deep. -/
theorem exists_reads_wire (t : WireType) (x : t.Carrier) (hx : t.Exact x) :
    ∃ result, Reads (t.reader depthLimit) (t.toJson x).compactChars result ∧
      Returns x ((t.toJson x).depth ≤ depthLimit) result := by
  cases t with
  | changeKind => exact exists_reads_of_le (reads_changeKind x _) (Nat.zero_le _)
  | resourceId => exact exists_reads_of_le (reads_resourceId x 126) (Nat.le_add_left 1 126)
  | record =>
    obtain ⟨hr, hint⟩ := hx x rfl
    exact exists_reads_record_iff hr hint 125
  | change =>
    obtain ⟨he, hint⟩ := hx x.object rfl
    exact exists_reads_change he hint 124
  | target =>
    refine exists_reads_of_le (reads_target x 126) ?_
    simp [WireType.toJson, Target.toJson, depth, depthMembers, depth_ofText?, depthLimit]
  | filter =>
    exact exists_reads_of_le (reads_filter x 124) (Nat.le_trans (depth_filter_le x) (by decide))
  | watchFailure =>
    refine exists_reads_of_le (reads_watchFailure x 126) ?_
    cases x <;> exact Nat.le_add_left 1 126
  | serviceFailure =>
    refine exists_reads_of_le (reads_serviceFailure x 126) ?_
    cases x <;> exact Nat.le_add_left 1 126
  | origin => exact exists_reads_of_le (reads_origin x _) (Nat.zero_le _)
  | read =>
    obtain ⟨hr, hint⟩ := hx x.record rfl
    exact exists_reads_read hr hint 124

end Json

namespace WireType

open Json (depthLimit)

/-- A value whose numbers are integers is read back from its own text, and written the same way
again, exactly if it nests no deeper than a reader goes. -/
theorem decode_encode_iff (t : WireType) (x : t.Carrier) (hx : t.Exact x) :
    (∃ y, t.decode (t.encode x) = .ok y ∧ y = x ∧ t.encode y = t.encode x) ↔
      (t.toJson x).depth ≤ depthLimit := by
  obtain ⟨result, hreads, hreturns⟩ := Json.exists_reads_wire t x hx
  have hdecode : t.decode (t.encode x) = result := Json.whole_compact hreads
  rw [hdecode]
  cases result with
  | error e =>
    constructor
    · rintro ⟨y, hy, -⟩
      cases hy
    · exact fun hdepth => absurd hdepth hreturns
  | ok y =>
    obtain ⟨rfl, hdepth⟩ := hreturns
    exact ⟨fun _ => hdepth, fun _ => ⟨y, rfl, rfl, rfl⟩⟩

/-- An event with characters that are escaped in a name and a label, the least number there is, and
empty containers; its object has no namespace and no uid. -/
def bareChange : Change :=
  .ofRecord .added { Record.empty with
    name := "\"é\\\n", version := "7", generation := -1,
    labels := TextMap.empty.insert "" "\x01"
    raw := .object [("a", .list [.int (-9223372036854775808), .list []]), ("b", .object [])] }

theorem decode_encode_iff_bareChange :
    change.Exact bareChange ∧ ∃ y, change.decode (change.encode bareChange) = .ok y ∧
      y = bareChange ∧ change.encode y = change.encode bareChange := by
  have hexact : change.Exact bareChange := by
    intro r hr
    cases hr
    exact ⟨⟨by decide, by decide, by decide⟩, by decide⟩
  exact ⟨hexact, (decode_encode_iff change bareChange hexact).mpr (by decide)⟩

end WireType

end SharedWatch
