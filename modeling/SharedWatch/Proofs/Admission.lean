import SharedWatch.Proofs.RecordText
import SharedWatch.Proofs.Retention
import SharedWatch.Store.Adapter

/-!
What a cache admits, and what it counts.

The store of a cache is any lawful one, so between two uses it may have lost what its bounds end,
and its figures may be behind. `Sound` is kept by every use (`Sound.step`, `Sound.run`): no key
stands twice, the entries are within the budget, none of them was refused, and each is counted with
the length of its text and the overhead. Where the store has settled (`Settled`), as it has after
every accepted `set` under a budget, the figures of the cache follow: `accounts_balance`. At other
times they may not be true (`figures_behind`).

The answer to `set` tells only whether the value was refused for its own cost. A value within the
item limit but beyond the whole budget is accepted and not kept: `set_answer` says what each answer
promises, `oversized_set_lost` shows the gap.
-/

namespace SharedWatch

open Cached

/-- One use of a cache. -/
inductive CacheMove where
  | set (now : Nat) (key : ResourceId) (value : Json)
  | get (now : Nat) (key : ResourceId)
  | delete (key : ResourceId)
  | apply (now : Nat) (kind : String) (e : Change)
  | sync (now : Nat)

/-! ## Bounds -/

namespace CacheSettings
variable {settings : CacheSettings}

theorem holds_bounds (hpos : 0 < settings.budget) (xs : List Cached) :
    settings.bounds.holds xs = true ↔ total xs ≤ settings.budget := by
  simp [bounds, StoreBounds.holds, Nat.ne_of_gt hpos]

theorem holds_of_unbounded (h : settings.budget = 0) (xs : List Cached) :
    settings.bounds.holds xs = true := by
  simp [bounds, StoreBounds.holds, h]

theorem serves_of_lasting (h : settings.lifetime.total = 0) (now : Nat) (x : Cached) :
    settings.bounds.serves now x = true := by
  simp [bounds, StoreBounds.serves, h]

theorem found_of_lasting (h : settings.lifetime.total = 0) (now : Nat) (key : ResourceId)
    (xs : List Cached) : settings.bounds.found now key xs = lookup key xs := by
  rw [StoreBounds.found]
  cases lookup key xs with
  | none => rfl
  | some x => exact Option.filter_some_pos (serves_of_lasting h now x)

/-- Without a lifetime nothing within the budget is lost. -/
theorem lookup_of_lasting (h : settings.lifetime.total = 0) {now : Nat} {xs ys : List Cached}
    (hleaves : settings.bounds.Leaves now xs ys) (hd : Distinct xs)
    (hholds : settings.bounds.holds xs = true) (key : ResourceId) :
    lookup key ys = lookup key xs := by
  have hfound := hleaves.found_eq hd hholds key
  rwa [found_of_lasting h, found_of_lasting h] at hfound

/-- An entry is served when it is stored. -/
theorem serves_new (settings : CacheSettings) (now : Nat) (key : ResourceId)
    (entry : CacheEntry) : settings.bounds.serves now ⟨key, entry, now⟩ = true := by
  rw [StoreBounds.serves]
  cases hl : settings.bounds.lifetime with
  | none => rfl
  | some n =>
    rw [bounds, Option.ite_none_left_eq_some, Option.some.injEq] at hl
    have hpos : 0 < n := hl.2 ▸ Nat.pos_of_ne_zero hl.1
    exact decide_eq_true (Nat.lt_add_of_pos_right hpos)

end CacheSettings

namespace Cache
variable {σ : StoreBounds → Type} [EntryStore σ]

/-- The cache after one use. -/
def step (c : Cache σ) : CacheMove → Cache σ
  | .set now key value => (c.set now key value).2
  | .get now key => (c.getText now key).2
  | .delete key => c.delete key
  | .apply now kind e => (c.apply now kind e).2
  | .sync now => c.expire now

def run (c : Cache σ) (moves : List CacheMove) : Cache σ := moves.foldl step c

/-! ## Storing -/

theorem setText_of_refused {c : Cache σ} {now : Nat} {key : ResourceId} {text : String}
    (h : refuses c.settings (costOf text) = true) : c.setText now key text = (false, c) := by
  rw [setText, if_pos h]

theorem setText_of_admitted {c : Cache σ} {now : Nat} {key : ResourceId} {text : String}
    (h : refuses c.settings (costOf text) = false) :
    c.setText now key text = (true, if 0 < c.settings.budget
      then (c.insertText now key text).expire now else c.insertText now key text) := by
  rw [setText, if_neg (by rw [h]; exact Bool.false_ne_true)]
  rfl

theorem setText_fst (c : Cache σ) (now : Nat) (key : ResourceId) (text : String) :
    (c.setText now key text).1 = !refuses c.settings (costOf text) := by
  cases hr : refuses c.settings (costOf text) with
  | true => rw [setText_of_refused hr]; rfl
  | false => rw [setText_of_admitted hr]; rfl

theorem admitted_of_accepted {c : Cache σ} {now : Nat} {key : ResourceId} {text : String}
    (h : (c.setText now key text).1 = true) : refuses c.settings (costOf text) = false := by
  rw [setText_fst] at h
  simpa using h

/-! ## Settings -/

@[simp] theorem settings_setText (c : Cache σ) (now : Nat) (key : ResourceId) (text : String) :
    (c.setText now key text).2.settings = c.settings := by
  cases hr : refuses c.settings (costOf text) with
  | true => rw [setText_of_refused hr]
  | false =>
    rw [setText_of_admitted hr]
    simp only
    split <;> rfl

@[simp] theorem settings_step (c : Cache σ) (m : CacheMove) :
    (c.step m).settings = c.settings := by
  cases m with
  | set now key value => exact settings_setText c now key value.compact
  | get now key => rfl
  | delete key => rfl
  | apply now kind e =>
    rw [step, apply]
    cases e.kind with
    | added => exact settings_setText c now _ _
    | modified => exact settings_setText (c.delete _) now _ _
    | deleted => rfl
    | bookmark => rfl
    | error => rfl
  | sync now => rfl

@[simp] theorem settings_run (c : Cache σ) (moves : List CacheMove) :
    (c.run moves).settings = c.settings := by
  induction moves generalizing c with
  | nil => rfl
  | cons m moves ih => exact (ih (c.step m)).trans (settings_step c m)

/-- What is read under a key is what its reader makes of the whole text. -/
theorem get_fst {α : Type} (c : Cache σ) (now : Nat) (r : Nat → Json.Reader α)
    (key : ResourceId) : (c.get now r key).1 =
      (c.getText now key).1.bind fun s => (Json.whole (r Json.depthLimit) s).toOption := rfl

/-- A record with integers only is read from its text. -/
theorem getRecord_of_text {c : Cache σ} {now : Nat} {key : ResourceId} {r : Record}
    (h : (c.getText now key).1 = some r.toJson.compact) (hr : r.Canonical)
    (hint : r.raw.Integral) (hdepth : r.toJson.depth ≤ Json.depthLimit) :
    (c.getRecord now key).1 = some r := by
  rw [getRecord, get_fst, h, Option.bind_some, Json.whole_record hr hint hdepth]
  rfl

/-! ## What is retained -/

variable [LawfulStore σ]

/-- The entries of a cache, the least recently used first. -/
def retained (c : Cache σ) : List Cached := LawfulStore.entries c.store

/-- The text held under a key, whether or not it is still served. -/
def held (c : Cache σ) (key : ResourceId) : Option String :=
  (lookup key c.retained).map fun x => x.entry.text

/-- What the text of a key costs: its bytes and the overhead; nothing without an entry. -/
def spent (c : Cache σ) (key : ResourceId) : Nat :=
  ((c.held key).map fun text => text.utf8ByteSize + entryOverhead).getD 0

/-- The keys that have an entry. -/
def keys (c : Cache σ) : Finset ResourceId := (c.retained.map Cached.key).toFinset

/-- What the texts of all keys cost. -/
def bytesHeld (c : Cache σ) : Nat := ∑ key ∈ c.keys, c.spent key

theorem retained_new (settings : CacheSettings) : (new settings : Cache σ).retained = [] :=
  LawfulStore.entries_build _

theorem held_eq_some {c : Cache σ} {key : ResourceId} {text : String}
    (h : c.held key = some text) : ∃ x ∈ c.retained, x.key = key ∧ x.entry.text = text := by
  obtain ⟨x, hx, htext⟩ := Option.map_eq_some_iff.mp h
  exact ⟨x, mem_of_lookup hx, key_of_lookup hx, htext⟩

theorem mem_keys {c : Cache σ} {key : ResourceId} :
    key ∈ c.keys ↔ ∃ text, c.held key = some text := by
  simp only [keys, List.mem_toFinset, List.mem_map]
  constructor
  · rintro ⟨x, hx, rfl⟩
    cases h : lookup x.key c.retained with
    | none => exact absurd (List.find?_eq_none.mp h x hx) (by simp)
    | some y => exact ⟨y.entry.text, by rw [held, h, Option.map_some]⟩
  · rintro ⟨text, htext⟩
    obtain ⟨x, hx, hkey, -⟩ := held_eq_some htext
    exact ⟨x, hx, hkey⟩

theorem card_keys {c : Cache σ} (h : Distinct c.retained) : c.keys.card = c.retained.length := by
  rw [keys, List.toFinset_card_of_nodup h, List.length_map]

theorem spent_of_held_eq_none {c : Cache σ} {key : ResourceId} (h : c.held key = none) :
    c.spent key = 0 := by
  rw [spent, h]
  rfl

theorem spent_of_held {c : Cache σ} {key : ResourceId} {text : String}
    (h : c.held key = some text) : c.spent key = text.utf8ByteSize + entryOverhead := by
  rw [spent, h]
  rfl

theorem bytesHeld_eq (c : Cache σ) (key : ResourceId) :
    c.bytesHeld = c.spent key + ∑ k ∈ c.keys.erase key, c.spent k := by
  by_cases hkey : key ∈ c.keys
  · exact (Finset.add_sum_erase _ _ hkey).symm
  · have hnone : c.held key = none := Option.eq_none_iff_forall_ne_some.mpr fun text htext =>
      hkey (mem_keys.mpr ⟨text, htext⟩)
    rw [spent_of_held_eq_none hnone, Nat.zero_add, Finset.erase_eq_of_notMem hkey, bytesHeld]

/-- Where two caches hold the same under all keys but one, their costs differ by its text. -/
theorem bytesHeld_of_others {c c' : Cache σ} {key : ResourceId}
    (h : ∀ other ≠ key, c'.held other = c.held other) :
    c'.bytesHeld + c.spent key = c.bytesHeld + c'.spent key := by
  have hkeys : c'.keys.erase key = c.keys.erase key := by
    ext k
    simp only [Finset.mem_erase, mem_keys]
    exact and_congr_right fun hne => by rw [h k hne]
  have hsum : ∑ k ∈ c'.keys.erase key, c'.spent k = ∑ k ∈ c.keys.erase key, c.spent k := by
    rw [hkeys]
    refine Finset.sum_congr rfl fun k hk => ?_
    rw [spent, h k (Finset.ne_of_mem_erase hk), spent]
  rw [bytesHeld_eq c' key, bytesHeld_eq c key, hsum]
  omega

/-! ## Settling -/

/-- The store of a cache has settled at a time. -/
structure Settled (c : Cache σ) (now : Nat) : Prop where
  holds : c.settings.bounds.holds c.retained = true
  serves : ∀ x ∈ c.retained, c.settings.bounds.serves now x = true
  count : c.stats.entries = c.retained.length
  weight : c.stats.bytes = total c.retained

theorem settled_expire (c : Cache σ) (now : Nat) : (c.expire now).Settled now where
  holds := LawfulStore.settle_holds c.store now
  serves := LawfulStore.settle_serves c.store now
  count := LawfulStore.count_settle c.store now
  weight := LawfulStore.weight_settle c.store now

theorem leaves_expire (c : Cache σ) (now : Nat) :
    c.settings.bounds.Leaves now c.retained (c.expire now).retained :=
  LawfulStore.settle_leaves c.store now

/-- The entry that a text is stored as. -/
def fresh (now : Nat) (key : ResourceId) (text : String) : Cached :=
  ⟨key, ⟨text, costOf text⟩, now⟩

section Accepted
variable {c : Cache σ} {now : Nat} {key : ResourceId} {text : String}

theorem fresh_notMem (now : Nat) (key : ResourceId) (text : String) (xs : List Cached) :
    fresh now key text ∉ without key xs := fun h => (mem_without.mp h).2 rfl

theorem leaves_insertText (c : Cache σ) (now : Nat) (key : ResourceId) (text : String) :
    c.settings.bounds.Leaves now (without key c.retained ++ [fresh now key text])
      (c.insertText now key text).retained :=
  LawfulStore.insert_leaves c.store now key ⟨text, costOf text⟩

/-- With a budget the store has settled when a text is accepted. -/
theorem settled_setText (now : Nat) (key : ResourceId) (hpos : 0 < c.settings.budget)
    (hr : refuses c.settings (costOf text) = false) :
    (c.setText now key text).2.Settled now := by
  rw [setText_of_admitted hr, if_pos hpos]
  exact settled_expire _ now

theorem sublist_setText (now : Nat) (key : ResourceId)
    (hr : refuses c.settings (costOf text) = false) :
    (c.setText now key text).2.retained.Sublist
      (without key c.retained ++ [fresh now key text]) := by
  have hinsert := (leaves_insertText c now key text).sublist
  rw [setText_of_admitted hr]
  simp only
  split
  · exact (leaves_expire _ now).sublist.trans hinsert
  · exact hinsert

theorem leaves_setText (now : Nat) (key : ResourceId)
    (hr : refuses c.settings (costOf text) = false) (hd : Distinct c.retained) :
    c.settings.bounds.Leaves now (without key c.retained ++ [fresh now key text])
      (c.setText now key text).2.retained := by
  have hinsert := leaves_insertText c now key text
  rw [setText_of_admitted hr]
  simp only
  split
  · exact hinsert.trans (leaves_expire (c.insertText now key text) now)
      (hd.replace (fresh now key text))
  · exact hinsert

/-- A text that the budget holds is the most recently used entry, at the cost of others. -/
theorem exists_retained_setText (now : Nat) (key : ResourceId)
    (hr : refuses c.settings (costOf text) = false)
    (hfits : c.settings.budget = 0 ∨ costOf text ≤ c.settings.budget) :
    ∃ kept, (c.setText now key text).2.retained = kept ++ [fresh now key text] ∧
      kept.Sublist (without key c.retained) := by
  have hserved : c.settings.bounds.serves now (fresh now key text) = true :=
    c.settings.serves_new now key _
  have hholds : c.settings.bounds.holds [fresh now key text] = true := by
    rcases Nat.eq_zero_or_pos c.settings.budget with hzero | hpos
    · exact CacheSettings.holds_of_unbounded hzero _
    · exact (CacheSettings.holds_bounds hpos _).mpr (hfits.resolve_left (Nat.ne_of_gt hpos))
  obtain ⟨kept, heq, hkept⟩ := (leaves_insertText c now key text).snoc
    (fresh_notMem now key text _) hserved hholds
  rw [setText_of_admitted hr]
  simp only
  split
  · -- settling does not move the new entry from the end either
    have hnew : fresh now key text ∉ kept := fun h => fresh_notMem now key text _ (hkept.subset h)
    have hexpire := heq ▸ leaves_expire (c.insertText now key text) now
    obtain ⟨left, hleft, hsub⟩ := hexpire.snoc hnew hserved hholds
    exact ⟨left, hleft, hsub.trans hkept⟩
  · exact ⟨kept, heq, hkept⟩

/-- A text that the budget holds is kept. -/
theorem held_setText (hr : refuses c.settings (costOf text) = false)
    (hfits : c.settings.budget = 0 ∨ costOf text ≤ c.settings.budget) :
    (c.setText now key text).2.held key = some text := by
  obtain ⟨kept, heq, hkept⟩ := exists_retained_setText now key hr hfits
  have hkey : (fresh now key text).key = key := rfl
  rw [held, heq, lookup_append, lookup_of_sublist_without hkept, lookup_singleton, if_pos hkey]
  rfl

/-- A text beyond the whole budget is not kept, and its key is free afterwards. -/
theorem held_setText_of_lt (hr : refuses c.settings (costOf text) = false)
    (hpos : 0 < c.settings.budget) (hlt : c.settings.budget < costOf text) :
    (c.setText now key text).2.held key = none := by
  have hsub := sublist_setText now key hr
  have hsettled : (c.setText now key text).2.Settled now := settled_setText now key hpos hr
  refine Option.eq_none_iff_forall_ne_some.mpr fun other hother => ?_
  obtain ⟨x, hx, hkey, -⟩ := held_eq_some hother
  rcases List.mem_append.mp (hsub.subset hx) with hold | hnew
  · exact (mem_without.mp hold).2 hkey
  · have hone : [x].Sublist (c.setText now key text).2.retained := List.singleton_sublist.mpr hx
    have hfits := StoreBounds.holds_of_sublist hone hsettled.holds
    rw [settings_setText, CacheSettings.holds_bounds hpos, List.mem_singleton.mp hnew] at hfits
    exact absurd hfits (Nat.not_le.mpr hlt)

end Accepted

theorem leaves_getText (c : Cache σ) (now : Nat) (key : ResourceId) :
    c.settings.bounds.Leaves now (c.settings.bounds.touch now key c.retained)
      (c.getText now key).2.retained :=
  LawfulStore.get_leaves c.store now key

theorem sublist_delete (c : Cache σ) (key : ResourceId) :
    (c.delete key).retained.Sublist (without key c.retained) :=
  (LawfulStore.invalidate_leaves c.store key).choose_spec.sublist

/-! ## The invariant -/

/-- Entries as a cache with these settings keeps them: no key stands twice, they are within the
budget, none of them was refused, and each counts what its text costs. -/
structure Kept (settings : CacheSettings) (xs : List Cached) : Prop where
  distinct : Distinct xs
  affordable : settings.bounds.holds xs = true
  admitted : ∀ x ∈ xs, refuses settings x.cost = false
  priced : ∀ x ∈ xs, x.cost = costOf x.entry.text

namespace Kept
variable {settings : CacheSettings} {xs ys : List Cached}

theorem nil (settings : CacheSettings) : Kept settings [] where
  distinct := List.nodup_nil
  affordable := settings.bounds.holds_evict []
  admitted := List.forall_mem_nil _
  priced := List.forall_mem_nil _

theorem sublist (h : Kept settings xs) (hs : ys.Sublist xs) : Kept settings ys where
  distinct := h.distinct.sublist hs
  affordable := StoreBounds.holds_of_sublist hs h.affordable
  admitted := fun x hx => h.admitted x (hs.subset hx)
  priced := fun x hx => h.priced x (hs.subset hx)

theorem perm (h : Kept settings xs) (hp : ys.Perm xs) : Kept settings ys where
  distinct := (hp.map Cached.key).nodup_iff.mpr h.distinct
  affordable := by
    rw [StoreBounds.holds, total_of_perm hp]
    exact h.affordable
  admitted := fun x hx => h.admitted x (hp.subset hx)
  priced := fun x hx => h.priced x (hp.subset hx)

end Kept

/-- What a cache retains is as it keeps it. -/
def Sound (c : Cache σ) : Prop := Kept c.settings c.retained

namespace Sound

theorem new (settings : CacheSettings) : Sound (new settings : Cache σ) := by
  rw [Sound, retained_new]
  exact Kept.nil settings

variable {c : Cache σ}

theorem setText (h : Sound c) (now : Nat) (key : ResourceId) (text : String) :
    Sound (c.setText now key text).2 := by
  cases hr : refuses c.settings (costOf text) with
  | true => rwa [setText_of_refused hr]
  | false =>
    have hs := sublist_setText now key hr
    have hmem : ∀ x ∈ (c.setText now key text).2.retained,
        x ∈ c.retained ∨ x = fresh now key text := fun x hx =>
      (List.mem_append.mp (hs.subset hx)).imp (fun h => (mem_without.mp h).1) List.mem_singleton.mp
    rw [Sound, settings_setText]
    refine ⟨(h.distinct.replace (fresh now key text)).sublist hs, ?_, fun x hx => ?_,
      fun x hx => ?_⟩
    · rcases Nat.eq_zero_or_pos c.settings.budget with hzero | hpos
      · exact CacheSettings.holds_of_unbounded hzero _
      · exact settings_setText c now key text ▸ (settled_setText now key hpos hr).holds
    · rcases hmem x hx with hold | rfl
      · exact h.admitted x hold
      · exact hr
    · rcases hmem x hx with hold | rfl
      · exact h.priced x hold
      · rfl

theorem getText (h : Sound c) (now : Nat) (key : ResourceId) : Sound (c.getText now key).2 :=
  (h.perm (c.settings.bounds.perm_touch now key h.distinct)).sublist
    (c.leaves_getText now key).sublist

theorem delete (h : Sound c) (key : ResourceId) : Sound (c.delete key) :=
  h.sublist ((c.sublist_delete key).trans (without_sublist key _))

theorem expire (h : Sound c) (now : Nat) : Sound (c.expire now) :=
  h.sublist (c.leaves_expire now).sublist

theorem apply (h : Sound c) (now : Nat) (kind : String) (e : Change) :
    Sound (c.apply now kind e).2 := by
  rw [Cache.apply]
  cases e.kind with
  | added => exact h.setText _ _ _
  | modified => exact (h.delete _).setText _ _ _
  | deleted => exact h.delete _
  | bookmark => exact h
  | error => exact h

theorem step (h : Sound c) (m : CacheMove) : Sound (c.step m) := by
  cases m with
  | set now key value => exact h.setText _ _ _
  | get now key => exact h.getText _ _
  | delete key => exact h.delete _
  | apply now kind e => exact h.apply _ _ _
  | sync now => exact h.expire now

theorem run (h : Sound c) (moves : List CacheMove) : Sound (c.run moves) := by
  induction moves generalizing c with
  | nil => exact h
  | cons m moves ih => exact ih (h.step m)

end Sound

/-! ## Reading -/

/-- The text that is read under a key is that of the entry which is served there. -/
theorem getText_fst (c : Cache σ) (now : Nat) (key : ResourceId) :
    (c.getText now key).1 =
      (c.settings.bounds.found now key c.retained).map fun x => x.entry.text := by
  change (EntryStore.get c.store now key).1.map CacheEntry.text = _
  rw [LawfulStore.get_fst, Option.map_map]
  rfl

/-- Without a lifetime a text is served as long as it is held. -/
theorem getText_of_lasting {c : Cache σ} (h : c.settings.lifetime.total = 0) (now : Nat)
    (key : ResourceId) : (c.getText now key).1 = c.held key := by
  rw [getText_fst, CacheSettings.found_of_lasting h, held]

/-- A text is only served while it is held. -/
theorem held_of_getText {c : Cache σ} {now : Nat} {key : ResourceId} {text : String}
    (h : (c.getText now key).1 = some text) : c.held key = some text := by
  rw [getText_fst] at h
  obtain ⟨x, hx, htext⟩ := Option.map_eq_some_iff.mp h
  rw [held, (StoreBounds.found_eq_some.mp hx).1, Option.map_some, htext]

/-- All that is held is served when the store has settled. -/
theorem Settled.getText {c : Cache σ} {now : Nat} (h : c.Settled now) (key : ResourceId) :
    (c.getText now key).1 = c.held key := by
  rw [getText_fst, held, StoreBounds.found]
  cases hx : lookup key c.retained with
  | none => rfl
  | some x => rw [Option.filter_some_pos (h.serves x (mem_of_lookup hx))]

/-! ## Answers -/

/-- A value is answered `false` exactly if it is refused for its own cost, and then nothing changes.
Answered `true`, it is read back from now on if the budget holds it: by any reader what that makes
of the value's text, so a text as it was, and a value or a record with integers only. If the budget
does not hold it, nothing is read under its key. -/
theorem set_answer (c : Cache σ) (hlasting : c.settings.lifetime.total = 0) (now later : Nat)
    (key : ResourceId) (value : Json) :
    let cost := value.compact.utf8ByteSize + entryOverhead
    let answer := (c.set now key value).1
    let next := (c.set now key value).2
    (answer = false ↔ refuses c.settings cost = true) ∧
    (answer = false → next = c) ∧
    (answer = true → c.settings.budget = 0 ∨ cost ≤ c.settings.budget →
      (∀ {α : Type} (r : Nat → Json.Reader α), (next.get later r key).1 =
        (Json.whole (r Json.depthLimit) value.compact).toOption) ∧
      (value.Canonical → value.Integral → value.depth ≤ Json.depthLimit →
        (next.get later Json.value key).1 = some value) ∧
      (∀ s, value = .text s → (next.get later (fun _ => Json.textValue) key).1 = some s) ∧
      (∀ r : Record, value = r.toJson → r.Canonical → r.raw.Integral →
        value.depth ≤ Json.depthLimit → (next.getRecord later key).1 = some r)) ∧
    (answer = true → 0 < c.settings.budget → c.settings.budget < cost →
      (next.getText later key).1 = none) := by
  intro cost answer next
  have hanswer : answer = !refuses c.settings cost := setText_fst c now key value.compact
  have hlast : next.settings.lifetime.total = 0 := by
    rw [show next.settings = c.settings from settings_setText c now key value.compact]
    exact hlasting
  refine ⟨by simp [hanswer], fun hfalse => ?_, fun htrue hfits => ?_, fun htrue hpos hlt => ?_⟩
  · have hr : refuses c.settings cost = true := by
      rw [hanswer] at hfalse
      simpa using hfalse
    exact congrArg Prod.snd (setText_of_refused hr)
  · have hr : refuses c.settings cost = false := admitted_of_accepted htrue
    have htext : (next.getText later key).1 = some value.compact :=
      (getText_of_lasting hlast later key).trans (held_setText hr hfits)
    refine ⟨fun r => ?_, fun hv hint hdepth => ?_, fun s hvalue => ?_,
      fun r hvalue hr hint hdepth => ?_⟩
    · rw [get_fst, htext, Option.bind_some]
    · rw [get_fst, htext, Option.bind_some, Json.whole_value hv hint hdepth]
      rfl
    · subst hvalue
      rw [get_fst, htext, Option.bind_some, Json.whole_compact (Json.reads_textValue s)]
      rfl
    · exact getRecord_of_text (hvalue ▸ htext) hr hint (hvalue ▸ hdepth)
  · have hr : refuses c.settings cost = false := admitted_of_accepted htrue
    rw [getText_of_lasting hlast]
    exact held_setText_of_lt hr hpos hlt

/-- What was promised of every accepted value fails: beyond the whole budget one is accepted and not
kept. -/
theorem oversized_set_lost :
    let c : Cache := new ⟨1, 25, 0, .zero⟩
    let key : ResourceId := ⟨"v1/ConfigMap", "default", "a"⟩
    let next := (c.set 0 key (.text "")).2
    c.settings.lifetime.total = 0 ∧ (c.set 0 key (.text "")).1 = true ∧
      (next.get 0 Json.value key).1 ≠ some (.text "") ∧ next.stats = ⟨0, 0⟩ := by
  decide +kernel

/-- A value that the budget holds is read back, quotes and line breaks included. -/
theorem set_answer_readBack :
    let c : Cache := new ⟨1, 100, 60, .zero⟩
    let key : ResourceId := ⟨"v1/ConfigMap", "default", "a"⟩
    let value : Json := .object [("k", .list [.int (-7), .text "a\"\n", .null])]
    ((c.set 0 key value).2.get 9 Json.value key).1 = some value := by
  intro c key value
  have hanswer := set_answer c (by decide) 0 9 key value
  have htrue : (c.set 0 key value).1 = true := by decide +kernel
  have hfits : value.compact.utf8ByteSize + entryOverhead ≤ c.settings.budget := by decide +kernel
  exact (hanswer.2.2.1 htrue (.inr hfits)).2.1 (by decide) (by decide) (by decide)

/-! ## Figures -/

theorem Sound.spent_eq {c : Cache σ} (h : Sound c) (key : ResourceId) :
    c.spent key = ((lookup key c.retained).map Cached.cost).getD 0 := by
  rw [spent, held, Option.map_map]
  cases hx : lookup key c.retained with
  | none => rfl
  | some x => exact (h.priced x (mem_of_lookup hx)).symm

/-- All entries count what the texts of their keys cost. -/
theorem Sound.total_eq {c : Cache σ} (h : Sound c) : total c.retained = c.bytesHeld := by
  rw [bytesHeld, keys, List.sum_toFinset _ h.distinct, List.map_map, total_eq_map_sum]
  refine congrArg List.sum (List.map_congr_left fun x hx => ?_)
  rw [Function.comp_apply, h.spent_eq, h.distinct.lookup hx]
  rfl

/-- The figures of a cache are true at a time: they are those of the texts that it holds, which are
the ones that are read, and the bytes are within the budget. -/
structure Accounts (c : Cache σ) (now : Nat) : Prop where
  bytes : c.stats.bytes = ∑ key ∈ c.keys, c.spent key
  entries : c.stats.entries = c.keys.card
  affordable : c.stats.bytes ≤ c.settings.budget
  read : ∀ key, (c.getText now key).1 = c.held key

theorem Sound.accounts {c : Cache σ} (h : Sound c) (hpos : 0 < c.settings.budget) {now : Nat}
    (hs : c.Settled now) : c.Accounts now where
  bytes := hs.weight.trans h.total_eq
  entries := hs.count.trans (card_keys h.distinct).symm
  affordable := hs.weight ▸ (CacheSettings.holds_bounds hpos _).mp hs.holds
  read := hs.getText

theorem Sound.accounts_setText {c : Cache σ} (h : Sound c) (hpos : 0 < c.settings.budget)
    (now : Nat) (key : ResourceId) {text : String}
    (hr : refuses c.settings (costOf text) = false) :
    (c.setText now key text).2.Accounts now :=
  (h.setText now key text).accounts (settings_setText c now key text ▸ hpos)
    (settled_setText now key hpos hr)

/-- Of entries that are left, a key has the text that it had, or none. -/
theorem held_of_sublist {c : Cache σ} {xs : List Cached} (hs : c.retained.Sublist xs)
    (hd : Distinct xs) (key : ResourceId) :
    c.held key = (lookup key xs).map (fun x => x.entry.text) ∨ c.held key = none := by
  rw [held]
  rcases hd.lookup_sublist hs key with hnone | hsame
  · exact .inr (by rw [hnone]; rfl)
  · exact .inl (by rw [hsame])

/-- A text took the place of what stood under a key. It is kept unless it alone exceeds the budget;
entries of other keys stayed or are gone, and while there is room all that were still served stayed.
Where all others stayed, the bytes grew by the new cost and shrank by the old one. -/
structure Replaced (before after : Cache σ) (now : Nat) (key : ResourceId) (text : String) :
    Prop where
  kept : text.utf8ByteSize + entryOverhead ≤ before.settings.budget → after.held key = some text
  lost : before.settings.budget < text.utf8ByteSize + entryOverhead → after.held key = none
  others : ∀ other ≠ key, after.held other = before.held other ∨ after.held other = none
  room : before.bytesHeld + (text.utf8ByteSize + entryOverhead) ≤
      before.settings.budget + before.spent key →
    ∀ other ≠ key, after.held other = (before.getText now other).1
  balance : after.held key = some text → (∀ other ≠ key, after.held other = before.held other) →
    after.stats.bytes + before.spent key =
      before.bytesHeld + (text.utf8ByteSize + entryOverhead)

theorem Sound.replaced {c : Cache σ} (h : Sound c) (hpos : 0 < c.settings.budget) {now : Nat}
    {key : ResourceId} {text : String} (ht : (c.setText now key text).1 = true) :
    Replaced c (c.setText now key text).2 now key text := by
  have hr : refuses c.settings (costOf text) = false := admitted_of_accepted ht
  have hd : Distinct (without key c.retained ++ [fresh now key text]) :=
    h.distinct.replace (fresh now key text)
  have hleaves := leaves_setText now key hr h.distinct
  have hother : ∀ other ≠ key, lookup other (without key c.retained ++ [fresh now key text]) =
      lookup other c.retained := fun other hne =>
    (lookup_replace other _ (fresh now key text)).trans (if_neg (Ne.symm hne))
  constructor
  · exact fun hfits => held_setText hr (.inr hfits)
  · exact fun hlt => held_setText_of_lt hr hpos hlt
  · intro other hne
    have hleft := held_of_sublist hleaves.sublist hd other
    rwa [hother other hne] at hleft
  · intro hroom other hne
    have htotal := h.distinct.total_without key
    rw [← h.spent_eq, h.total_eq] at htotal
    have hholds :
        c.settings.bounds.holds (without key c.retained ++ [fresh now key text]) = true := by
      rw [CacheSettings.holds_bounds hpos, total_append, total_singleton]
      change _ + (text.utf8ByteSize + entryOverhead) ≤ _
      omega
    rw [← (settled_setText now key hpos hr).getText, getText_fst, getText_fst, settings_setText,
      hleaves.found_eq hd hholds, StoreBounds.found, hother other hne]
    rfl
  · intro hown hothers
    have hbytes := bytesHeld_of_others hothers
    rw [spent_of_held hown] at hbytes
    exact (h.accounts_setText hpos now key hr).bytes ▸ hbytes

/-- The entry of a key was taken out. Entries of other keys stayed or are gone, and all stayed if
there is no lifetime. Where all others stayed, the whole cost of the entry was given back. -/
structure Freed (before after : Cache σ) (key : ResourceId) : Prop where
  own : after.held key = none
  others : ∀ other ≠ key, after.held other = before.held other ∨ after.held other = none
  lasting : before.settings.lifetime.total = 0 →
    ∀ other ≠ key, after.held other = before.held other
  balance : (∀ other ≠ key, after.held other = before.held other) →
    after.stats.bytes + before.spent key = before.bytesHeld

theorem Sound.freed {c : Cache σ} (h : Sound c) (hpos : 0 < c.settings.budget) (key : ResourceId)
    (now : Nat) : Freed c ((c.delete key).expire now) key := by
  have hsub : ((c.delete key).expire now).retained.Sublist (without key c.retained) :=
    (leaves_expire (c.delete key) now).sublist.trans (c.sublist_delete key)
  have hd : Distinct (without key c.retained) := h.distinct.sublist (without_sublist key _)
  have hother : ∀ other ≠ key, lookup other (without key c.retained) = lookup other c.retained :=
    fun other hne => (lookup_without key other _).trans (if_neg (Ne.symm hne))
  have hown : ((c.delete key).expire now).held key = none := by
    rw [held, lookup_of_sublist_without hsub]
    rfl
  refine ⟨hown, fun other hne => ?_, fun hlasting other hne => ?_, fun hothers => ?_⟩
  · have hleft := held_of_sublist hsub hd other
    rwa [hother other hne] at hleft
  · obtain ⟨time, hdelete⟩ := LawfulStore.invalidate_leaves c.store key
    have hholds := StoreBounds.holds_of_sublist (without_sublist key _) h.affordable
    have hdeleted : lookup other (c.delete key).retained = lookup other (without key c.retained) :=
      CacheSettings.lookup_of_lasting hlasting hdelete hd hholds other
    have hexpired : lookup other ((c.delete key).expire now).retained =
        lookup other (c.delete key).retained :=
      CacheSettings.lookup_of_lasting hlasting (leaves_expire (c.delete key) now)
        (h.delete key).distinct (h.delete key).affordable other
    rw [held, held, hexpired, hdeleted, hother other hne]
  · have hbytes := bytesHeld_of_others hothers
    have haccounts := ((h.delete key).expire now).accounts hpos (settled_expire (c.delete key) now)
    rw [spent_of_held_eq_none hown, Nat.add_zero] at hbytes
    exact haccounts.bytes ▸ hbytes

/-- Whatever uses a cache with a budget has had: its figures are true after every accepted `set`,
also of an applied event, and after every `expire`. At any time no entry is above the item limit,
and a text that is read is counted. A new text counts only its own cost in place of the old one's,
and a deletion gives the whole cost of the entry back. -/
theorem accounts_balance (settings : CacheSettings) (hpos : 0 < settings.budget)
    (moves : List CacheMove) :
    let c : Cache σ := (new settings).run moves
    (∀ now key value, (c.set now key value).1 = true → (c.set now key value).2.Accounts now) ∧
    (∀ now kind e, e.kind = .added ∨ e.kind = .modified →
      refuses settings (e.object.toJson.compact.utf8ByteSize + entryOverhead) = false →
      (c.apply now kind e).2.Accounts now) ∧
    (∀ now, (c.expire now).Accounts now) ∧
    (0 < settings.itemLimit → ∀ key ∈ c.keys, c.spent key ≤ settings.itemLimit) ∧
    (∀ now key text, (c.getText now key).1 = some text →
      key ∈ c.keys ∧ c.spent key = text.utf8ByteSize + entryOverhead) ∧
    (∀ now key value, (c.set now key value).1 = true →
      Replaced c (c.set now key value).2 now key value.compact) ∧
    (∀ now key, Freed c ((c.delete key).expire now) key) := by
  intro c
  have hsound : Sound c := (Sound.new settings).run moves
  have hsettings : c.settings = settings := settings_run (new settings) moves
  have hbudget : 0 < c.settings.budget := hsettings.symm ▸ hpos
  refine ⟨fun now key value htrue => ?_, fun now kind e hkind hr => ?_, fun now => ?_,
    fun hlimit key hkey => ?_, fun now key text htext => ?_,
    fun now key value htrue => hsound.replaced hbudget htrue,
    fun now key => hsound.freed hbudget key now⟩
  · exact hsound.accounts_setText hbudget now key (admitted_of_accepted htrue)
  · have hr : refuses c.settings (costOf e.object.toJson.compact) = false := hsettings.symm ▸ hr
    rw [apply]
    rcases hkind with hk | hk
    · rw [hk]
      exact hsound.accounts_setText hbudget now _ hr
    · rw [hk]
      exact (hsound.delete _).accounts_setText hbudget now _ hr
  · exact (hsound.expire now).accounts hbudget (settled_expire c now)
  · obtain ⟨text, hheld⟩ := mem_keys.mp hkey
    obtain ⟨x, hx, -⟩ := Option.map_eq_some_iff.mp hheld
    have hadmitted := hsound.admitted x (mem_of_lookup hx)
    rw [hsound.spent_eq, hx]
    rw [hsettings, refuses] at hadmitted
    simp [hlimit] at hadmitted
    exact hadmitted.1
  · have hheld := held_of_getText htext
    exact ⟨mem_keys.mpr ⟨text, hheld⟩, spent_of_held hheld⟩

/-- The figures are true after an overwrite, an eviction, a deletion and a resync. -/
theorem accounts_balance_eviction :
    let id (name : String) : ResourceId := ⟨"v1/ConfigMap", "default", name⟩
    let c : Cache := (new ⟨2, 60, 40, .zero⟩).run [
      .set 0 (id "a") (.text "x"), .set 1 (id "b") (.text "yy"), .set 2 (id "a") (.text "xxxx"),
      .get 3 (id "b"), .set 4 (id "c") (.null), .delete (id "d")]
    0 < 60 ∧ (c.expire 5).stats.bytes = ∑ key ∈ (c.expire 5).keys, (c.expire 5).spent key ∧
      (c.expire 5).stats = ⟨2, 56⟩ ∧ c.held (id "a") = none ∧
      c.spent (id "b") = 28 ∧
      ((c.delete (id "b")).expire 6).stats.bytes + c.spent (id "b") = c.bytesHeld := by
  intro id c
  obtain ⟨-, -, hexpire, -, -, -, hdelete⟩ := accounts_balance (σ := Shelf)
    ⟨2, 60, 40, .zero⟩ (by decide) [
    .set 0 (id "a") (.text "x"), .set 1 (id "b") (.text "yy"), .set 2 (id "a") (.text "xxxx"),
    .get 3 (id "b"), .set 4 (id "c") (.null), .delete (id "d")]
  have hfreed : Freed c ((c.delete (id "b")).expire 6) (id "b") := hdelete 6 (id "b")
  refine ⟨by decide, (hexpire 5).bytes, ?_, ?_, ?_, ?_⟩
  · decide +kernel
  · decide +kernel
  · decide +kernel
  · exact hfreed.balance (hfreed.lasting (by decide))

/-- Figures are only true once the store has settled: one that puts everything off still counts an
entry that was just deleted. -/
theorem figures_behind :
    let a : ResourceId := ⟨"v1/ConfigMap", "default", "a"⟩
    let c : Cache Backlog := (new ⟨1, 60, 0, .zero⟩).run [.set 0 a (.text "x"), .delete a]
    c.held a = none ∧ c.stats = ⟨1, 27⟩ ∧ (c.expire 1).stats = ⟨0, 0⟩ := by
  decide +kernel

end Cache

end SharedWatch
