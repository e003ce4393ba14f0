import SharedWatch.Cluster.Client
import SharedWatch.Proofs.Members
import SharedWatch.Proofs.Reports

/-!
Two ways to a record.

A watch shapes a record from an object with typed metadata, and `Record.ofRaw` shapes one from any
JSON, by the names of the fields. What was read as an object has one metadata, and its generation is
a signed 64-bit word (`Manifest.Decoded.sound`), so what is written for it has every field where
`ofRaw` looks for it (`Manifest.Sound.ofRaw_toJson`). Leaving the managers out is what writing the
object without them gives (`Manifest.Sound.withoutManagers_toJson`).

Main statement: `reports_reshaped`. Every report of a watch and every object that is read carries a
record that comes back, field by field, from its own raw object, and that raw object is the
object's without what manages its fields.
-/

namespace SharedWatch

open Json (Gives gives_error gives_intValue gives_mapped gives_membersFrom gives_objectValue
  gives_optional gives_within)

/-! ## Metadata -/

/-- The pairs of texts in what is written for a map are its entries. -/
theorem TextMap.textPairs_toJson (t : TextMap) :
    (t.entries.map fun e => (e.1, Json.text e.2)).filterMap
      (fun x => x.2.text?.map fun s => (x.1, s)) = t.entries := by
  rw [List.filterMap_map]
  exact List.filterMap_some

namespace ObjectMeta

/-- The metadata without what manages the fields. -/
def unmanaged (d : ObjectMeta) : ObjectMeta := { d with managedFields := none }

theorem toJson_unmanaged (d : ObjectMeta) :
    d.unmanaged.toJson = Manifest.without "managedFields" d.toJson := by
  simp [toJson, unmanaged, Manifest.without, Json.filter_memberOf]

/-- Whether the generation is a signed 64-bit word. -/
def Bounded (d : ObjectMeta) : Prop :=
  ∀ n ∈ d.generation, -9223372036854775808 ≤ n ∧ n ≤ 9223372036854775807

/-- The fields that a record takes from metadata, where `Record.ofRaw` looks for them. -/
theorem get?_toJson (d : ObjectMeta) :
    d.toJson.get? "namespace" = d.ns.map .text ∧
      d.toJson.get? "name" = d.name.map .text ∧
      d.toJson.get? "uid" = d.uid.map .text ∧
      d.toJson.get? "resourceVersion" = d.resourceVersion.map .text ∧
      d.toJson.get? "generation" = d.generation.map .int ∧
      d.toJson.get? "labels" = d.labels.map TextMap.toJson ∧
      d.toJson.get? "annotations" = d.annotations.map TextMap.toJson := by
  simp [toJson, Json.get?, Json.member?_append, Json.member?_memberOf]

end ObjectMeta

namespace Manifest

/-- What holds of every object that is read. -/
structure Sound (m : Manifest) : Prop where
  /-- No other member stands where the metadata is written. -/
  single : ∀ x ∈ m.rest, x.1 ≠ "metadata"
  bounded : m.metadata.Bounded

/-- The object without what manages its fields. -/
def unmanaged (m : Manifest) : Manifest := { m with metadata := m.metadata.unmanaged }

/-- The members that name an object's type. -/
def typeMembers (m : Manifest) : List (String × Json) :=
  (m.type.map fun t => [("apiVersion", Json.text t.apiVersion), ("kind", .text t.kind)]).getD []

theorem toJson_eq (m : Manifest) : m.toJson =
    .sorted (m.typeMembers ++ [("metadata", m.metadata.toJson)] ++ m.rest) := rfl

theorem typeMembers_ne (m : Manifest) : ∀ x ∈ m.typeMembers, x.1 ≠ "metadata" := by
  unfold typeMembers
  cases m.type with
  | none => simp
  | some t => simp

/-- What leaving the managers out makes of the value under a key. -/
def stripped (key : String) (v : Json) : Json :=
  if key = "metadata" then without "managedFields" v else v

theorem withoutManagers_object (ms : List (String × Json)) :
    withoutManagers (.object ms) = .object (ms.map fun x => (x.1, stripped x.1 x.2)) := by
  have hone : ∀ x : String × Json,
      (if x.1 = "metadata" then (x.1, without "managedFields" x.2) else x) =
        (x.1, stripped x.1 x.2) := by
    intro x
    unfold stripped
    split
    · rfl
    · rfl
  rw [withoutManagers]
  exact congrArg Json.object (List.map_congr_left fun x _ => hone x)

theorem map_stripped {ms : List (String × Json)} (h : ∀ x ∈ ms, x.1 ≠ "metadata") :
    ms.map (fun x => (x.1, stripped x.1 x.2)) = ms := by
  refine (List.map_congr_left fun x hx => ?_).trans (List.map_id ms)
  rw [stripped, if_neg (h x hx)]
  rfl

namespace Sound
variable {m : Manifest}

theorem unmanaged (h : m.Sound) : m.unmanaged.Sound := ⟨h.single, h.bounded⟩

theorem get?_metadata (h : m.Sound) : m.toJson.get? "metadata" = some m.metadata.toJson := by
  rw [toJson_eq, Json.sorted, Json.get?, Json.member?_sortMembers, List.reverse_append,
    List.reverse_append, Json.member?_append, Json.member?_append]
  rw [Json.member?_eq_none fun x hx => h.single x (List.mem_reverse.mp hx)]
  rfl

/-- Leaving the managers out of an object's JSON is leaving them out of the object. -/
theorem withoutManagers_toJson (h : m.Sound) :
    withoutManagers m.toJson = m.unmanaged.toJson := by
  have hmeta : stripped "metadata" m.metadata.toJson = m.metadata.unmanaged.toJson := by
    rw [stripped, if_pos rfl, ObjectMeta.toJson_unmanaged]
  rw [toJson_eq, Json.sorted, withoutManagers_object, Json.map_sortMembers, List.map_append,
    List.map_append, map_stripped m.typeMembers_ne, map_stripped h.single, List.map_singleton,
    hmeta]
  rfl

theorem metaField?_toJson (h : m.Sound) (field : String) :
    Record.metaField? m.toJson field = m.metadata.toJson.get? field := by
  rw [Record.metaField?, h.get?_metadata, Option.bind_some]

theorem metaText?_toJson (h : m.Sound) {field : String} {x : Option String}
    (hx : m.metadata.toJson.get? field = x.map .text) :
    (Record.metaField? m.toJson field).bind Json.text? = x := by
  rw [h.metaField?_toJson, hx]
  cases x with
  | none => rfl
  | some s => rfl

theorem metaPairs_toJson (h : m.Sound) {field : String} {x : Option TextMap}
    (hx : m.metadata.toJson.get? field = x.map TextMap.toJson) :
    Record.metaPairs m.toJson field = x.getD .empty := by
  rw [Record.metaPairs, h.metaField?_toJson, hx]
  cases x with
  | none => rfl
  | some t =>
    have hentries := t.textPairs_toJson
    exact (congrArg TextMap.ofList hentries).trans t.ofList_entries

theorem int64?_toJson (h : m.Sound) :
    (m.metadata.generation.map Json.int).bind Json.int64? = m.metadata.generation := by
  cases hn : m.metadata.generation with
  | none => rfl
  | some n => exact if_pos (h.bounded n hn)

/-- The record shaped from what is written for an object is the object's, around all of that. -/
theorem ofRaw_toJson (h : m.Sound) :
    Record.ofRaw m.toJson = { m.record with raw := m.toJson } := by
  obtain ⟨hns, hname, huid, hversion, hgeneration, hlabels, hannotations⟩ :=
    m.metadata.get?_toJson
  unfold Record.ofRaw Record.metaText record
  rw [h.metaText?_toJson hns, h.metaText?_toJson hname, h.metaText?_toJson huid,
    h.metaText?_toJson hversion, h.metaField?_toJson, hgeneration, h.int64?_toJson,
    h.metaPairs_toJson hlabels, h.metaPairs_toJson hannotations]

end Sound

/-! ## Objects that are read -/

/-- Whether the object was read from some text. -/
def Decoded (m : Manifest) : Prop :=
  ∃ depth cs rest, Manifest.reader depth cs = .ok (m, rest)

theorem takeType_subset (apiVersion kind : Option String) (ms : List (String × Json)) :
    (takeType apiVersion kind ms).2 ⊆ ms := by
  induction ms generalizing apiVersion kind with
  | nil => exact List.Subset.refl _
  | cons x ms ih =>
    unfold takeType
    split
    · split
      · exact List.subset_cons_of_subset _ (ih _ _)
      · exact List.subset_cons_self _ _
    split
    · split
      · exact List.subset_cons_of_subset _ (ih _ _)
      · exact List.subset_cons_self _ _
    · exact List.cons_subset_cons _ (ih _ _)

theorem gives_metadata (d : Nat) (cs : List Char) :
    Gives ObjectMeta.Bounded (ObjectMeta.reader d cs) := by
  refine gives_objectValue ?_ nofun d cs
  intro f hf d draft cs hdraft
  simp only [ObjectMeta.fields, List.mem_cons, List.not_mem_nil, or_false] at hf
  rcases hf with rfl | rfl | rfl | rfl | rfl | rfl | rfl | rfl | rfl | rfl | rfl | rfl | rfl |
    rfl | rfl
  case inr.inr.inr.inr.inr.inr.inl =>
    exact (gives_optional (gives_intValue _ _) cs).map fun x hx => hx
  -- no other field is the generation
  all_goals exact gives_mapped _ _ fun _ => hdraft

/-- What holds of an object while it is read. -/
def Draft.Sound (d : Draft) : Prop :=
  (∀ x ∈ d.metadata, x.Bounded) ∧ ∀ x ∈ d.members, x.1 ≠ "metadata"

theorem gives_member (d : Nat) (key : String) {draft : Draft} (h : draft.Sound)
    (cs : List Char) : Gives Draft.Sound (member d key draft cs) := by
  rw [member]
  split
  · exact gives_error _
  split
  · exact gives_error _
  split
  · exact (gives_metadata _ _).map fun x hx => ⟨by simpa using hx, h.2⟩
  · next hkey =>
    refine gives_mapped _ _ fun v => ⟨h.1, fun x hx => ?_⟩
    rcases List.mem_append.mp hx with hx | hx
    · exact h.2 x hx
    · rw [List.mem_singleton.mp hx]
      exact hkey

theorem gives_sound (d : Nat) (cs : List Char) : Gives Sound (reader d cs) := by
  have hdraft : Gives Draft.Sound
      (Json.within '\x7b' d (fun d => Json.members (member d) ⟨none, []⟩) cs) :=
    gives_within (fun _ cs => gives_membersFrom (fun key _ cs h => gives_member _ key h cs) _ _
      ⟨by simp, by simp⟩ cs) d cs
  refine hdraft.map fun draft hdraft => ⟨fun x hx => ?_, ?_⟩
  · exact hdraft.2 x (takeType_subset none none draft.members hx)
  · cases hmeta : draft.metadata with
    | none => simp [Draft.finish, hmeta, ObjectMeta.empty, ObjectMeta.Bounded]
    | some x => simpa [Draft.finish, hmeta] using hdraft.1 x hmeta

/-- Every object that is read has one metadata and a generation within 64 bits. -/
theorem Decoded.sound {m : Manifest} (h : m.Decoded) : m.Sound := by
  obtain ⟨depth, cs, rest, hread⟩ := h
  exact gives_sound depth cs m rest hread

/-! ## Records of objects -/

/-- Whether a record is an object's, whichever way it is shaped, and holds the object without what
manages its fields. -/
structure Shapes (m : Manifest) (r : Record) : Prop where
  record : r = m.record
  again : Record.ofRaw r.raw = r
  bare : Record.metaField? r.raw "managedFields" = none
  fields : ∀ field, field ≠ "managedFields" →
    Record.metaField? r.raw field = Record.metaField? m.toJson field
  members : ∀ key, key ≠ "metadata" → r.raw.get? key = m.toJson.get? key
  raw : r.raw = m.unmanaged.toJson

theorem Sound.shapes {m : Manifest} (h : m.Sound) : m.Shapes m.record := by
  have hraw : m.record.raw = m.unmanaged.toJson := h.withoutManagers_toJson
  have hfield : ∀ field, Record.metaField? m.record.raw field =
      if field = "managedFields" then none else Record.metaField? m.toJson field := by
    intro field
    rw [hraw, h.unmanaged.metaField?_toJson, h.metaField?_toJson]
    exact (congrArg (Json.get? field) m.metadata.toJson_unmanaged).trans
      (Json.member?_filter_ne field "managedFields" _)
  refine ⟨rfl, ?_, ?_, fun field hne => ?_, fun key hne => ?_, hraw⟩
  · have hsame : { m.unmanaged.record with raw := m.unmanaged.toJson } = m.record := by
      rw [← hraw]
      rfl
    rw [hraw, h.unmanaged.ofRaw_toJson, hsame]
  · rw [hfield, if_pos rfl]
  · rw [hfield, if_neg hne]
  · have hstripped := Json.member?_map key stripped (Json.sortMembers
      (m.typeMembers ++ [("metadata", m.metadata.toJson)] ++ m.rest))
    have hid : stripped key = id := funext fun v => if_neg hne
    rw [hid, Option.map_id] at hstripped
    have hobject : m.record.raw = .object _ := withoutManagers_object _
    rw [hobject]
    exact hstripped

end Manifest

/-! ## Reports -/

namespace WatchLine

/-- A report is read with the record of the object that it carries. -/
theorem content_of_report {kind : ChangeKind} (hkind : kind ∈ [.added, .modified, .deleted])
    {depth : Nat} {cs rest : List Char} {m : Manifest}
    (hread : Manifest.reader depth cs = .ok (m, rest)) :
    content kind depth cs = .ok (.ofRecord kind m.record, rest) := by
  cases kind with
  | added => simp [content, Json.mapReader, hread]
  | modified => simp [content, Json.mapReader, hread]
  | deleted => simp [content, Json.mapReader, hread]
  | bookmark => simp at hkind
  | error => simp at hkind

/-- Whether an event carries the record of an object that was read, if it is a report. -/
def Carrying (e : Change) : Prop :=
  e.isReport = true → ∃ m : Manifest, m.Decoded ∧ e = .ofRecord e.kind m.record

theorem gives_content (kind : ChangeKind) (d : Nat) (cs : List Char) :
    Gives Carrying (content kind d cs) := by
  have hobject : Gives Manifest.Decoded (Manifest.reader d cs) :=
    fun m rest h => ⟨d, cs, rest, h⟩
  cases kind with
  | added => exact hobject.map fun m hm _ => ⟨m, hm, rfl⟩
  | modified => exact hobject.map fun m hm _ => ⟨m, hm, rfl⟩
  | deleted => exact hobject.map fun m hm _ => ⟨m, hm, rfl⟩
  | bookmark => exact gives_mapped _ _ fun _ => nofun
  | error => exact gives_mapped _ _ fun _ => nofun

theorem carrying_of_read? {line : String} {e : Change} (h : read? line = some (.ok e)) :
    Carrying e := by
  unfold read? at h
  split at h
  · next hwhole =>
    cases h
    exact Json.of_whole (Json.gives_taggedValue gives_content _ _) hwhole
  · cases h
  · split at h <;> cases h

theorem exists_of_objectOf {response : Response} {r : Record}
    (h : Cluster.objectOf response = .ok (some r)) :
    ∃ m : Manifest, m.Decoded ∧ r = m.record := by
  unfold Cluster.objectOf at h
  split at h
  · simp only at h
    split at h <;> cases h
  split at h
  · next m hwhole =>
    cases h
    have hdecoded : Gives Manifest.Decoded (Manifest.reader Json.depthLimit response.body.toList) :=
      fun m rest h => ⟨_, _, rest, h⟩
    exact ⟨m, Json.of_whole hdecoded hwhole, rfl⟩
  · cases h

/-- Every object is read as a report of each kind, every report on a watch carries an object, and so
does the answer to a single read. Their records are what is shaped from their own raw objects, and
these are the objects without the managers. -/
theorem reports_reshaped :
    (∀ kind ∈ [ChangeKind.added, .modified, .deleted], ∀ depth cs m rest,
      Manifest.reader depth cs = .ok (m, rest) →
        ∃ e, content kind depth cs = .ok (e, rest) ∧ e.kind = kind ∧
          e.version = e.object.version ∧ m.Shapes e.object) ∧
    (∀ body e, .ok e ∈ readAll body → e.isReport = true →
      ∃ m : Manifest, m.Decoded ∧ e.version = e.object.version ∧ m.Shapes e.object) ∧
    (∀ response r, Cluster.objectOf response = .ok (some r) →
      ∃ m : Manifest, m.Decoded ∧ m.Shapes r) := by
  refine ⟨fun kind hkind depth cs m rest hread => ?_, fun body e he hreport => ?_,
    fun response r hr => ?_⟩
  · have hm : m.Decoded := ⟨depth, cs, rest, hread⟩
    exact ⟨_, content_of_report hkind hread, rfl, rfl, hm.sound.shapes⟩
  · obtain ⟨line, -, hline⟩ := List.mem_filterMap.mp he
    obtain ⟨m, hm, heq⟩ := carrying_of_read? hline hreport
    rw [heq]
    exact ⟨m, hm, rfl, hm.sound.shapes⟩
  · obtain ⟨m, hm, rfl⟩ := exists_of_objectOf hr
    exact ⟨m, hm, hm.sound.shapes⟩

/-- An object that says who manages its fields, and more than metadata. -/
theorem reports_reshaped_managed :
    let m : Manifest :=
      { type := none
        metadata := { ObjectMeta.empty with
          labels := some (.ofList [("app", "web")])
          managedFields := some [⟨none, none, none, some "kubectl", none, none, none⟩]
          name := some "a"
          resourceVersion := some "7" }
        rest := [("data", .object [("k", .int 1)])] }
    let text := ("\x7b\"metadata\":\x7b\"name\":\"a\",\"resourceVersion\":\"7\"," ++
      "\"labels\":\x7b\"app\":\"web\"\x7d," ++
      "\"managedFields\":[\x7b\"manager\":\"kubectl\"\x7d]\x7d,\"data\":\x7b\"k\":1\x7d\x7d").toList
    ∃ e, content .added 4 text = .ok (e, []) ∧ e.version = "7" ∧
      m.Shapes e.object ∧ Record.ofRaw e.object.raw = e.object ∧
      (Record.metaField? m.toJson "managedFields").isSome = true ∧
      Record.metaField? e.object.raw "managedFields" = none := by
  intro m text
  have hread : Manifest.reader 4 text = .ok (m, []) := by decide +kernel
  obtain ⟨e, he, -, hversion, hshapes⟩ := reports_reshaped.1 .added (by simp) 4 text m [] hread
  have hseven : e.version = "7" := by
    rw [hversion, hshapes.record]
    rfl
  exact ⟨e, he, hseven, hshapes, hshapes.again, by decide +kernel, hshapes.bare⟩

end WatchLine

end SharedWatch
