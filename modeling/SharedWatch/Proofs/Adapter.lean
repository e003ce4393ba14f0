import SharedWatch.Proofs.Admission
import SharedWatch.Proofs.Reports

/-!
A cache that an adapter keeps in step with a watch.

Whatever bounds the cache has and whenever it loses an entry, each entry that it holds stands for a
report of its resource (`Mirrors.step`, `Mirrors.run`). It is the last report but for additions that
were refused as too large after it: `served_report`. Those leave the superseded record in place,
which a modification does not (`superseded_served`).

Without bounds nothing is lost, and the cache shows of each resource what a reader of all events
holds: `getRecord_iff_latest`.
-/

namespace SharedWatch

open Cached

/-! ## Applied events -/

/-- The resource of a key among those of its kind. -/
def ResourceId.resource (key : ResourceId) : ResourceName := ⟨key.ns, key.name⟩

namespace CacheMove

/-- The event that is applied under a kind, if the use is one. -/
def change? (kind : String) : CacheMove → Option Change
  | .apply _ k e => if k = kind then some e else none
  | _ => none

/-- Whether the record of an applied event has a property. -/
def Carries (p : Record → Prop) : CacheMove → Prop
  | .apply _ _ e => p e.object
  | _ => True

/-- Whether a value is stored past the adapter. -/
def isSet : CacheMove → Bool
  | .set .. => true
  | _ => false

/-- Whether an entry is taken out past the adapter. -/
def isDelete : CacheMove → Bool
  | .delete .. => true
  | _ => false

theorem Carries.imp {p q : Record → Prop} (hpq : ∀ r, p r → q r) {m : CacheMove}
    (h : m.Carries p) : m.Carries q := by
  cases m with
  | apply now kind e => exact hpq _ h
  | _ => trivial

end CacheMove

/-- The events applied under a kind, in order. -/
def changesOf (kind : String) (moves : List CacheMove) : List Change :=
  moves.filterMap (CacheMove.change? kind)

/-- The reports applied about the resource of a key, in order. -/
def reportsUnder (key : ResourceId) (moves : List CacheMove) : List Change :=
  reportsOf key.resource (changesOf key.kind moves)

theorem changesOf_append (kind : String) (p q : List CacheMove) :
    changesOf kind (p ++ q) = changesOf kind p ++ changesOf kind q := List.filterMap_append

theorem changesOf_apply (kind : String) (now : Nat) (k : String) (e : Change) :
    changesOf kind [.apply now k e] = if k = kind then [e] else [] := by
  simp only [changesOf, List.filterMap_cons, CacheMove.change?, List.filterMap_nil]
  by_cases h : k = kind <;> simp [h]

theorem changesOf_snoc {m : CacheMove} (h : ∀ kind, m.change? kind = none) (kind : String)
    (moves : List CacheMove) : changesOf kind (moves ++ [m]) = changesOf kind moves := by
  rw [changesOf_append, changesOf, changesOf, List.filterMap_cons, h]
  exact List.append_nil _

theorem carries_changesOf {p : Record → Prop} {moves : List CacheMove}
    (h : ∀ m ∈ moves, m.Carries p) {kind : String} {e : Change} (he : e ∈ changesOf kind moves) :
    p e.object := by
  obtain ⟨m, hm, hchange⟩ := List.mem_filterMap.mp he
  have hp := h m hm
  cases m with
  | apply now k a =>
    rw [CacheMove.change?] at hchange
    split at hchange
    · cases hchange
      exact hp
    · cases hchange
  | _ => cases hchange

/-- An event is about a key's resource if the key is that of its object. -/
theorem key_eq_iff {e : Change} {kind : String} {key : ResourceId} :
    e.object.key kind = key ↔ kind = key.kind ∧ e.resource = key.resource := by
  obtain ⟨k, ns, name⟩ := key
  simp [Record.key, Change.resource, Record.resource, ResourceId.resource]

theorem reportsUnder_snoc_apply (key : ResourceId) (moves : List CacheMove) (now : Nat)
    (kind : String) (e : Change) :
    reportsUnder key (moves ++ [.apply now kind e]) =
      if e.isReport = true ∧ e.object.key kind = key then reportsUnder key moves ++ [e]
      else reportsUnder key moves := by
  rw [reportsUnder, changesOf_append, changesOf_apply, reportsOf_append]
  by_cases hkind : kind = key.kind
  · rw [if_pos hkind, reportsOf_singleton]
    by_cases hx : e.resource = key.resource
    · by_cases hr : e.isReport = true <;> simp [key_eq_iff, hkind, hx, hr, reportsUnder]
    · simp [key_eq_iff, hx, reportsUnder]
  · simp [key_eq_iff, hkind, reportsUnder]

theorem reportsUnder_snoc {m : CacheMove} (h : ∀ kind, m.change? kind = none)
    (key : ResourceId) (moves : List CacheMove) :
    reportsUnder key (moves ++ [m]) = reportsUnder key moves := by
  rw [reportsUnder, changesOf_snoc h, reportsUnder]

/-! ## What entries stand for -/

/-- Whether a cache refuses the record for its own cost. -/
def CacheSettings.excludes (settings : CacheSettings) (r : Record) : Bool :=
  Cache.refuses settings (r.toJson.compact.utf8ByteSize + entryOverhead)

/-- A text is that of a reported object that was stored, and every later report is an addition that
was refused. -/
def Stands (settings : CacheSettings) (reports : List Change) (text : String) : Prop :=
  ∃ before e after, reports = before ++ e :: after ∧ e.kind ≠ .deleted ∧
    settings.excludes e.object = false ∧ text = e.object.toJson.compact ∧
    ∀ a ∈ after, a.kind = .added ∧ settings.excludes a.object = true

namespace Stands
variable {settings : CacheSettings} {reports : List Change} {text : String}

theorem stored (reports : List Change) {e : Change} (hkind : e.kind ≠ .deleted)
    (h : settings.excludes e.object = false) :
    Stands settings (reports ++ [e]) e.object.toJson.compact :=
  ⟨reports, e, [], rfl, hkind, h, rfl, fun _ ha => absurd ha List.not_mem_nil⟩

theorem refused (h : Stands settings reports text) {e : Change} (hkind : e.kind = .added)
    (he : settings.excludes e.object = true) : Stands settings (reports ++ [e]) text := by
  obtain ⟨before, a, after, rfl, ha, hstored, htext, hafter⟩ := h
  refine ⟨before, a, after ++ [e], by simp, ha, hstored, htext, fun b hb => ?_⟩
  rcases List.mem_append.mp hb with hb | hb
  · exact hafter b hb
  · rw [List.mem_singleton.mp hb]
    exact ⟨hkind, he⟩

/-- What stands is the last report, unless that is an addition that was refused. -/
theorem eq_last (h : Stands settings reports text) {e : Change} (he : reports.getLast? = some e)
    (hnot : ¬ (e.kind = .added ∧ settings.excludes e.object = true)) :
    e.kind ≠ .deleted ∧ text = e.object.toJson.compact := by
  obtain ⟨before, a, after, rfl, ha, -, htext, hafter⟩ := h
  cases after using List.reverseRecOn with
  | nil =>
    rw [List.getLast?_append, List.getLast?_singleton, Option.some_or] at he
    cases he
    exact ⟨ha, htext⟩
  | append_singleton after b _ =>
    have hlast : b = e := by
      rw [← List.cons_append, ← List.append_assoc, List.getLast?_concat] at he
      exact Option.some.inj he
    exact absurd (hlast ▸ hafter b (by simp)) hnot

end Stands

namespace Cache
variable {σ : StoreBounds → Type} [EntryStore σ] [LawfulStore σ]

/-- Every entry stands for a report about its key. -/
def Mirrors (c : Cache σ) (moves : List CacheMove) : Prop :=
  ∀ x ∈ c.retained, Stands c.settings (reportsUnder x.key moves) x.entry.text

namespace Mirrors
variable {c : Cache σ} {moves : List CacheMove}

theorem setText {now : Nat} {kind : String} {e : Change} (h : c.Mirrors moves)
    (hreport : e.isReport = true) (hkind : e.kind ≠ .deleted)
    (hrefused : c.settings.excludes e.object = true →
      e.kind = .added ∨ ∀ x ∈ c.retained, x.key ≠ e.object.key kind) :
    (c.setText now (e.object.key kind) e.object.toJson.compact).2.Mirrors
      (moves ++ [.apply now kind e]) := by
  intro x hx
  rw [settings_setText, reportsUnder_snoc_apply]
  cases hr : c.settings.excludes e.object with
  | true =>
    have heq : c.setText now (e.object.key kind) e.object.toJson.compact = (false, c) :=
      setText_of_refused hr
    rw [heq] at hx
    split
    · next hkey =>
      -- the old entry outlives a refused addition; a modification has taken it out before
      rcases hrefused hr with hadded | hnone
      · exact (h x hx).refused hadded hr
      · exact absurd hkey.2.symm (hnone x hx)
    · exact h x hx
  | false =>
    have hmem := (sublist_setText now (e.object.key kind) hr).subset hx
    -- whatever was lost, what is left is an old entry of another key or the new one
    rcases List.mem_append.mp hmem with hold | hnew
    · obtain ⟨hold, hne⟩ := mem_without.mp hold
      rw [if_neg fun hkey => hne hkey.2.symm]
      exact h x hold
    · rw [List.mem_singleton.mp hnew, if_pos ⟨hreport, rfl⟩]
      exact Stands.stored _ hkind hr

theorem apply (h : c.Mirrors moves) (now : Nat) (kind : String) (e : Change) :
    (c.apply now kind e).2.Mirrors (moves ++ [.apply now kind e]) := by
  have hsub := c.sublist_delete (e.object.key kind)
  have hdeleted : (c.delete (e.object.key kind)).Mirrors moves := fun x hx =>
    h x (mem_without.mp (hsub.subset hx)).1
  have hgone : ∀ x ∈ (c.delete (e.object.key kind)).retained, x.key ≠ e.object.key kind :=
    fun x hx => (mem_without.mp (hsub.subset hx)).2
  rw [Cache.apply]
  cases hk : e.kind with
  | added =>
    exact h.setText (by simp [Change.isReport, hk]) (by simp [hk]) fun _ => .inl hk
  | modified =>
    exact hdeleted.setText (by simp [Change.isReport, hk]) (by simp [hk]) fun _ => .inr hgone
  | deleted =>
    intro x hx
    rw [reportsUnder_snoc_apply, if_neg fun hkey => hgone x hx hkey.2.symm]
    exact hdeleted x hx
  | bookmark =>
    intro x hx
    rw [reportsUnder_snoc_apply, if_neg (by simp [Change.isReport, hk])]
    exact h x hx
  | error =>
    intro x hx
    rw [reportsUnder_snoc_apply, if_neg (by simp [Change.isReport, hk])]
    exact h x hx

theorem step (h : c.Mirrors moves) {m : CacheMove} (hm : m.isSet = false) :
    (c.step m).Mirrors (moves ++ [m]) := by
  cases m with
  | set now key value => cases hm
  | apply now kind e => exact h.apply now kind e
  | get now key =>
    intro x hx
    rw [reportsUnder_snoc fun _ => rfl]
    exact h x (StoreBounds.mem_of_mem_touch ((c.leaves_getText now key).sublist.subset hx))
  | delete key =>
    intro x hx
    rw [reportsUnder_snoc fun _ => rfl]
    exact h x (mem_without.mp ((c.sublist_delete key).subset hx)).1
  | sync now =>
    intro x hx
    rw [reportsUnder_snoc fun _ => rfl]
    exact h x ((c.leaves_expire now).sublist.subset hx)

theorem run (settings : CacheSettings) {moves : List CacheMove}
    (hm : ∀ m ∈ moves, m.isSet = false) :
    ((new settings : Cache σ).run moves).Mirrors moves := by
  induction moves using List.reverseRecOn with
  | nil => exact fun x hx => absurd (retained_new (σ := σ) settings ▸ hx) List.not_mem_nil
  | append_singleton moves m ih =>
    rw [Cache.run, List.foldl_append]
    exact (ih fun n hn => hm n (List.mem_append_left _ hn)).step (hm m (by simp))

end Mirrors

/-! ## What is served -/

/-- A record that is read was made from a text that stands for a report. -/
theorem Mirrors.exists_text {c : Cache σ} {moves : List CacheMove} (h : c.Mirrors moves) {now : Nat}
    {key : ResourceId} {r : Record} (hread : (c.getRecord now key).1 = some r) :
    ∃ text, Stands c.settings (reportsUnder key moves) text ∧
      Json.whole (Record.reader Json.depthLimit) text = .ok r := by
  rw [getRecord, get_fst] at hread
  obtain ⟨text, htext, hwhole⟩ := Option.bind_eq_some_iff.mp hread
  obtain ⟨x, hx, rfl⟩ := Option.map_eq_some_iff.mp (held_of_getText htext)
  have hkey := key_of_lookup hx
  subst hkey
  refine ⟨x.entry.text, h x (mem_of_lookup hx), ?_⟩
  cases hw : Json.whole (Record.reader Json.depthLimit) x.entry.text with
  | error e => rw [hw] at hwhole; cases hwhole
  | ok s => rw [hw] at hwhole; cases hwhole; rfl

/-- Whatever bounds a cache has that only an adapter fills, and whatever it loses: a record that is
read is the object of a report about its key, but for floating-point numbers of its raw object. It
is the last report but for additions, each refused as too large. So if the last report is none of
those, nothing or its object is read, and nothing after a deletion. -/
theorem served_report (settings : CacheSettings) {moves : List CacheMove}
    (hmoves : ∀ m ∈ moves, m.isSet = false)
    (hcanonical : ∀ m ∈ moves, m.Carries Record.Canonical)
    (key : ResourceId) (now : Nat) :
    let read := (((new settings : Cache σ).run moves).getRecord now key).1
    (∀ r, read = some r → ∃ before e after, reportsUnder key moves = before ++ e :: after ∧
      (e.kind = .added ∨ e.kind = .modified) ∧ r.Resembles e.object ∧
      (e.object.raw.Integral → r = e.object) ∧
      ∀ a ∈ after, a.kind = .added ∧ settings.excludes a.object = true) ∧
    (∀ e, (reportsUnder key moves).getLast? = some e →
      (e.kind = .added → settings.excludes e.object = false) →
      read = none ∨ e.kind ≠ .deleted ∧
        ∃ r, read = some r ∧ r.Resembles e.object ∧ (e.object.raw.Integral → r = e.object)) := by
  intro read
  have hmirrors : ((new settings : Cache σ).run moves).Mirrors moves := .run settings hmoves
  have hsettings : ((new settings : Cache σ).run moves).settings = settings :=
    settings_run _ moves
  have hreports : ∀ e ∈ reportsUnder key moves, e.isReport = true ∧ e.object.Canonical := by
    intro e he
    obtain ⟨hmem, hreport, -⟩ := mem_reportsOf.mp he
    exact ⟨hreport, carries_changesOf hcanonical hmem⟩
  have hstands : ∀ r, read = some r → ∃ text, Stands settings (reportsUnder key moves) text ∧
      Json.whole (Record.reader Json.depthLimit) text = .ok r := fun r hr =>
    hsettings ▸ hmirrors.exists_text hr
  constructor
  · intro r hr
    obtain ⟨text, ⟨before, e, after, heq, hkind, -, rfl, hafter⟩, hwhole⟩ := hstands r hr
    obtain ⟨hreport, he⟩ := hreports e (by simp [heq])
    obtain ⟨hresembles, hexact⟩ := Json.resembles_of_whole he hwhole
    refine ⟨before, e, after, heq, ?_, hresembles, hexact, hafter⟩
    cases hk : e.kind <;> simp_all [Change.isReport]
  · intro e he hfits
    cases hr : read with
    | none => exact .inl rfl
    | some r =>
      obtain ⟨text, hstand, hwhole⟩ := hstands r hr
      have hnot : ¬ (e.kind = .added ∧ settings.excludes e.object = true) := fun h =>
        absurd (hfits h.1) (by simp [h.2])
      obtain ⟨hkind, rfl⟩ := hstand.eq_last he hnot
      have hcanon := (hreports e (List.mem_of_getLast? he)).2
      exact .inr ⟨hkind, r, rfl, Json.resembles_of_whole hcanon hwhole⟩

/-- An addition that is refused as too large leaves the superseded record to be read. -/
theorem superseded_served :
    let a (version : String) : Record := { Record.empty with ns := "default", name := "a", version }
    let moves : List CacheMove :=
      [.apply 0 "v1/ConfigMap" (.ofRecord .added (a "9")),
        .apply 1 "v1/ConfigMap" (.ofRecord .added (a "10"))]
    let key : ResourceId := ⟨"v1/ConfigMap", "default", "a"⟩
    (reportsUnder key moves).getLast? = some (.ofRecord .added (a "10")) ∧
      (((new ⟨16, 0, 147, .zero⟩ : Cache).run moves).getRecord 2 key).1 = some (a "9") := by
  intro a moves key
  have htext : (((new ⟨16, 0, 147, .zero⟩ : Cache).run moves).getText 2 key).1 =
      some (a "9").toJson.compact := by decide +kernel
  refine ⟨by decide, getRecord_of_text htext ?_ (by decide) (by decide)⟩
  exact ⟨by decide, by decide, by decide⟩

/-- Nothing is read after a deletion, though an addition before it was refused. -/
theorem served_report_afterDeletion :
    let a (version : String) : Record := { Record.empty with ns := "default", name := "a", version }
    let moves : List CacheMove :=
      [.apply 0 "v1/ConfigMap" (.ofRecord .added (a "9")),
        .apply 1 "v1/ConfigMap" (.ofRecord .added (a "10")),
        .get 2 ⟨"v1/ConfigMap", "default", "a"⟩,
        .apply 3 "v1/ConfigMap" (.ofRecord .deleted (a "10"))]
    (((new ⟨16, 0, 147, .zero⟩ : Cache).run moves).getRecord 4 ⟨"v1/ConfigMap", "default", "a"⟩).1 =
      none := by
  intro a moves
  have hcanonical : ∀ m ∈ moves, m.Carries Record.Canonical := by
    simp only [moves, List.forall_mem_cons, List.not_mem_nil, false_implies, implies_true,
      and_true]
    exact ⟨⟨by decide, by decide, by decide⟩, ⟨by decide, by decide, by decide⟩, trivial,
      ⟨by decide, by decide, by decide⟩⟩
  have hserved := served_report (σ := Shelf) ⟨16, 0, 147, .zero⟩ (by decide) hcanonical
    ⟨"v1/ConfigMap", "default", "a"⟩ 4
  rcases hserved.2 (.ofRecord .deleted (a "10")) (by decide) (by decide) with hnone | ⟨hkind, -⟩
  · exact hnone
  · exact absurd rfl hkind

/-! ## Without bounds -/

/-- A cache that is sound, with no budget and no lifetime. -/
structure Unbounded (c : Cache σ) : Prop where
  sound : Sound c
  budget : c.settings.budget = 0
  lasting : c.settings.lifetime.total = 0

namespace Unbounded
variable {c : Cache σ}

/-- Nothing is lost. -/
theorem lookup_eq (h : c.Unbounded) {now : Nat} {xs ys : List Cached}
    (hleaves : c.settings.bounds.Leaves now xs ys) (hd : Distinct xs) (key : ResourceId) :
    lookup key ys = lookup key xs :=
  CacheSettings.lookup_of_lasting h.lasting hleaves hd
    (CacheSettings.holds_of_unbounded h.budget xs) key

theorem step (h : c.Unbounded) (m : CacheMove) : (c.step m).Unbounded :=
  ⟨h.sound.step m, (settings_step c m).symm ▸ h.budget, (settings_step c m).symm ▸ h.lasting⟩

/-- A text that is looked up stays where it is. -/
theorem held_getText (h : c.Unbounded) (now : Nat) (key other : ResourceId) :
    (c.getText now key).2.held other = c.held other := by
  have hperm := c.settings.bounds.perm_touch now key h.sound.distinct
  have hlookup : lookup other (c.getText now key).2.retained =
      lookup other (c.settings.bounds.touch now key c.retained) :=
    h.lookup_eq (c.leaves_getText now key)
      ((hperm.map Cached.key).nodup_iff.mpr h.sound.distinct) other
  rw [held, hlookup, StoreBounds.lookup_touch, held]

theorem held_expire (h : c.Unbounded) (now : Nat) (key : ResourceId) :
    (c.expire now).held key = c.held key := by
  rw [held, h.lookup_eq (c.leaves_expire now) h.sound.distinct, held]

theorem held_delete (h : c.Unbounded) (key other : ResourceId) :
    (c.delete key).held other = if key = other then none else c.held other := by
  obtain ⟨now, hleaves⟩ := LawfulStore.invalidate_leaves c.store key
  have hlookup : lookup other (c.delete key).retained = lookup other (without key c.retained) :=
    h.lookup_eq hleaves (h.sound.distinct.sublist (without_sublist key _)) other
  rw [held, hlookup, lookup_without, held]
  split <;> rfl

/-- A stored text takes the place of the one under its key, and nothing else changes. -/
theorem held_setText (h : c.Unbounded) {now : Nat} {key : ResourceId} {text : String}
    (hr : refuses c.settings (costOf text) = false) (other : ResourceId) :
    (c.setText now key text).2.held other = if key = other then some text else c.held other := by
  have hlookup : lookup other (c.setText now key text).2.retained =
      if key = other then some (fresh now key text) else lookup other c.retained :=
    (h.lookup_eq (leaves_setText now key hr h.sound.distinct)
      (h.sound.distinct.replace (fresh now key text)) other).trans
      (lookup_replace other _ (fresh now key text))
  rw [held, hlookup, held]
  split <;> rfl

end Unbounded

/-- The bounds are off, and the cache holds of every resource the text of what a reader of all its
reports holds. -/
structure Shows (c : Cache σ) (moves : List CacheMove) : Prop where
  unbounded : c.Unbounded
  held : ∀ key, c.held key =
    (view (changesOf key.kind moves) key.resource).map fun r => r.toJson.compact

/-- What a reader holds after one more event was applied. -/
theorem view_snoc_apply (key : ResourceId) (moves : List CacheMove) (now : Nat) (kind : String)
    (e : Change) :
    view (changesOf key.kind (moves ++ [.apply now kind e])) key.resource =
      if e.isReport = true ∧ e.object.key kind = key then e.outcome
      else view (changesOf key.kind moves) key.resource := by
  rw [changesOf_append, changesOf_apply]
  by_cases hkind : kind = key.kind
  · rw [if_pos hkind, view_snoc]
    simp [key_eq_iff, hkind]
  · rw [if_neg hkind, List.append_nil, if_neg fun h => hkind (key_eq_iff.mp h.2).1]

namespace Shows
variable {c : Cache σ} {moves : List CacheMove}

theorem apply (h : c.Shows moves) (now : Nat) (kind : String) {e : Change}
    (hfits : c.settings.excludes e.object = false) :
    (c.apply now kind e).2.Shows (moves ++ [.apply now kind e]) := by
  have hdeleted : (c.delete (e.object.key kind)).Unbounded :=
    h.unbounded.step (.delete (e.object.key kind))
  refine ⟨h.unbounded.step (.apply now kind e), fun key => ?_⟩
  rw [view_snoc_apply, Cache.apply]
  cases hk : e.kind with
  | added =>
    have hset : (c.setRecord now kind e.object).2.held key =
        if e.object.key kind = key then some e.object.toJson.compact else c.held key :=
      h.unbounded.held_setText hfits key
    rw [hset, h.held]
    by_cases hkey : e.object.key kind = key <;>
      simp [Change.isReport, Change.outcome, hk, hkey]
  | modified =>
    have hset : ((c.delete (e.object.key kind)).setRecord now kind e.object).2.held key =
        if e.object.key kind = key then some e.object.toJson.compact
        else (c.delete (e.object.key kind)).held key :=
      hdeleted.held_setText hfits key
    rw [hset, h.unbounded.held_delete, h.held]
    by_cases hkey : e.object.key kind = key <;>
      simp [Change.isReport, Change.outcome, hk, hkey]
  | deleted =>
    rw [h.unbounded.held_delete, h.held]
    by_cases hkey : e.object.key kind = key <;>
      simp [Change.isReport, Change.outcome, hk, hkey]
  | bookmark =>
    rw [if_neg (by simp [Change.isReport, hk])]
    exact h.held key
  | error =>
    rw [if_neg (by simp [Change.isReport, hk])]
    exact h.held key

theorem step (h : c.Shows moves) {m : CacheMove} (hset : m.isSet = false)
    (hdelete : m.isDelete = false)
    (hfits : m.Carries fun r => c.settings.excludes r = false) :
    (c.step m).Shows (moves ++ [m]) := by
  cases m with
  | set now key value => cases hset
  | delete key => cases hdelete
  | apply now kind e => exact h.apply now kind hfits
  | get now key =>
    refine ⟨h.unbounded.step (.get now key), fun other => ?_⟩
    rw [changesOf_snoc fun _ => rfl, ← h.held other]
    exact h.unbounded.held_getText now key other
  | sync now =>
    refine ⟨h.unbounded.step (.sync now), fun key => ?_⟩
    rw [changesOf_snoc fun _ => rfl, ← h.held key]
    exact h.unbounded.held_expire now key

theorem run {settings : CacheSettings} (hbudget : settings.budget = 0)
    (hlasting : settings.lifetime.total = 0) {moves : List CacheMove}
    (hmoves : ∀ m ∈ moves, m.isSet = false ∧ m.isDelete = false)
    (hfits : ∀ m ∈ moves, m.Carries fun r => settings.excludes r = false) :
    ((new settings : Cache σ).run moves).Shows moves := by
  induction moves using List.reverseRecOn with
  | nil =>
    refine ⟨⟨Sound.new settings, hbudget, hlasting⟩, fun key => ?_⟩
    rw [Cache.held, Cache.run, List.foldl_nil, retained_new]
    rfl
  | append_singleton moves m ih =>
    have hm := hmoves m (by simp)
    have hsettings := settings_run (new settings : Cache σ) moves
    rw [Cache.run, List.foldl_append]
    refine (ih (fun n hn => hmoves n (List.mem_append_left _ hn))
      fun n hn => hfits n (List.mem_append_left _ hn)).step hm.1 hm.2 ?_
    rw [hsettings]
    exact hfits m (by simp)

end Shows

/-- What a record needs to be kept and read back by a cache without bounds: integers only, no more
nesting than the reader allows, and a cost within its word. -/
structure Keepable (r : Record) : Prop where
  canonical : r.Canonical
  integral : r.raw.Integral
  depth : r.toJson.depth ≤ Json.depthLimit
  cost : r.toJson.compact.utf8ByteSize + entryOverhead < Text.word32

theorem Keepable.fits {r : Record} (h : Keepable r) {settings : CacheSettings}
    (hlimit : settings.itemLimit = 0) : settings.excludes r = false := by
  have hcost := h.cost
  simp [CacheSettings.excludes, refuses, hlimit]
  omega

/-- A cache without bounds that only an adapter fills is what its events make, one after another: a
record is read exactly if it is the object of the last report about its key, an addition or a
modification. A bookmark or an error changes nothing, and only they are answered `false`. The part
of the cache for one kind shows the same under its names. -/
theorem getRecord_iff_latest (settings : CacheSettings) (hbudget : settings.budget = 0)
    (hlimit : settings.itemLimit = 0) (hlasting : settings.lifetime.total = 0)
    {moves : List CacheMove} (hmoves : ∀ m ∈ moves, m.isSet = false ∧ m.isDelete = false)
    (hkeepable : ∀ m ∈ moves, m.Carries Keepable) :
    let c : Cache σ := (new settings).run moves
    (∀ key now r, (c.getRecord now key).1 = some r ↔
      ∃ e, latest key.resource (changesOf key.kind moves) = some e ∧
        (e.kind = .added ∨ e.kind = .modified) ∧ e.object = r) ∧
    (∀ now kind e, ((c.apply now kind e).1 = false ↔ e.kind = .bookmark ∨ e.kind = .error) ∧
      ((c.apply now kind e).1 = false → (c.apply now kind e).2 = c)) ∧
    (∀ {α : Type} (reader : Nat → Json.Reader α) kind ns name now,
      ((CacheSection.mk c kind).get now reader ns name).1 =
        (c.get now reader ⟨kind, ns, name⟩).1) := by
  intro c
  have hshows : c.Shows moves := .run hbudget hlasting hmoves fun m hm =>
    (hkeepable m hm).imp fun r hr => hr.fits hlimit
  have hkept : ∀ (key : ResourceId) e, latest key.resource (changesOf key.kind moves) = some e →
      e.isReport = true ∧ Keepable e.object := by
    intro key e he
    obtain ⟨hmem, hreport, -⟩ := latest_mem he
    exact ⟨hreport, carries_changesOf hkeepable hmem⟩
  have hread : ∀ (key : ResourceId) now, (c.getRecord now key).1 =
      (latest key.resource (changesOf key.kind moves)).bind Change.outcome := by
    intro key now
    rw [getRecord, get_fst, getText_of_lasting hshows.unbounded.lasting, hshows.held, view_eq]
    cases he : latest key.resource (changesOf key.kind moves) with
    | none => rfl
    | some e =>
      obtain ⟨-, hk⟩ := hkept key e he
      rw [Option.bind_some, Change.outcome]
      split
      · rfl
      · rw [Option.map_some, Option.bind_some,
          Json.whole_record hk.canonical hk.integral hk.depth]
        rfl
  refine ⟨fun key now r => ?_, fun now kind e => ?_, fun _ _ _ _ _ => rfl⟩
  · rw [hread, Option.bind_eq_some_iff]
    refine exists_congr fun e => and_congr_right fun he => ?_
    have hreport := (hkept key e he).1
    cases hk : e.kind <;> simp [Change.outcome, Change.isReport, hk] at hreport ⊢
  · rw [Cache.apply]
    cases e.kind <;> simp

/-- Two kinds share a cache: a deletion under one leaves the record under the other. -/
theorem getRecord_iff_latest_twoKinds :
    let a (version : String) : Record :=
      { Record.empty with ns := "default", name := "a", version, raw := .object [("n", .int 1)] }
    let moves : List CacheMove :=
      [.apply 0 "v1/Secret" (.ofRecord .added (a "1")),
        .apply 1 "v1/ConfigMap" (.ofRecord .added (a "2")), .sync 2,
        .apply 3 "v1/Secret" (.ofRecord .modified (a "3")),
        .apply 4 "v1/ConfigMap" (.ofRecord .deleted (a "4")),
        .apply 5 "v1/Secret" (.bookmark "5")]
    let c : Cache := (new ⟨16, 0, 0, .zero⟩).run moves
    (c.getRecord 6 ⟨"v1/Secret", "default", "a"⟩).1 = some (a "3") ∧
      (c.getRecord 6 ⟨"v1/ConfigMap", "default", "a"⟩).1 = none := by
  intro a moves c
  have hraw : (Json.object [("n", .int 1)]).Canonical := by decide
  have hint : (Json.object [("n", .int 1)]).Integral := by decide
  have ha : ∀ version, (a version).toJson.compact.utf8ByteSize + entryOverhead < Text.word32 →
      Keepable (a version) := fun version hcost =>
    have hdepth : (a version).toJson.depth = 2 := rfl
    ⟨⟨by simp [a, Record.empty], by simp [a, Record.empty], hraw⟩, hint,
      hdepth.trans_le (by decide), hcost⟩
  have hkeepable : ∀ m ∈ moves, m.Carries Keepable := by
    simp only [moves, List.forall_mem_cons, List.not_mem_nil, false_implies, implies_true,
      and_true]
    refine ⟨ha "1" (by decide +kernel), ha "2" (by decide +kernel), trivial,
      ha "3" (by decide +kernel), ha "4" (by decide +kernel), ?_⟩
    exact ⟨⟨by decide, by decide, by decide⟩, by decide, by decide, by decide +kernel⟩
  have hlatest := getRecord_iff_latest (σ := Shelf) ⟨16, 0, 0, .zero⟩ rfl rfl (by decide)
    (by decide) hkeepable
  refine ⟨(hlatest.1 _ 6 (a "3")).mpr ⟨_, rfl, .inr rfl, rfl⟩, ?_⟩
  refine Option.eq_none_iff_forall_ne_some.mpr fun r hr => ?_
  obtain ⟨e, he, hkind, -⟩ := (hlatest.1 _ 6 r).mp hr
  cases he
  rcases hkind with h | h <;> cases h

end Cache

end SharedWatch
