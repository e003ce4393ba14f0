import Mathlib.Data.List.Perm.Basic
import SharedWatch.Sharing.Ledger

/-!
What a ledger answers after each operation.

`get?` is the one view of a ledger: `get?_record`, `get?_prune` and `get?_carry` say what each
operation does to it, and nothing below opens a list of entries again. `shows` is the part of the
view that a reader of live state gets, and `filter_live` ties it to the list of live records.
-/

namespace SharedWatch

theorem supersedes_iff {a b : String} {m n : Nat} (ha : counter? a = some m)
    (hb : counter? b = some n) : supersedes a b = true ↔ n < m := by
  simp [supersedes, ha, hb]

namespace Ledger

/-! ## Lists of entries -/

theorem find?_put (name x : ResourceName) (e : Entry) (entries : List (ResourceName × Entry)) :
    find? x (put name e entries) = if name = x then some e else find? x entries := by
  induction entries with
  | nil => simp [put, find?]
  | cons y rest ih =>
    obtain ⟨n, f⟩ := y
    simp only [put]
    by_cases hn : n = name
    · subst hn
      simp only [if_true, find?]
      split <;> rfl
    · simp only [if_neg hn, find?, ih]
      by_cases hx : n = x
      · subst hx
        simp [Ne.symm hn]
      · simp [hx]

theorem mem_of_find? {x : ResourceName} {e : Entry} {entries : List (ResourceName × Entry)}
    (h : find? x entries = some e) : (x, e) ∈ entries := by
  induction entries with
  | nil => simp [find?] at h
  | cons y rest ih =>
    obtain ⟨n, f⟩ := y
    simp only [find?] at h
    split at h
    · next hn =>
      simp only [Option.some.injEq] at h
      rw [← hn, ← h]
      exact List.mem_cons_self
    · exact List.mem_cons_of_mem _ (ih h)

theorem find?_eq_none {x : ResourceName} {entries : List (ResourceName × Entry)}
    (h : ∀ y ∈ entries, y.1 ≠ x) : find? x entries = none := by
  induction entries with
  | nil => rfl
  | cons y rest ih =>
    simp only [find?, if_neg (h y List.mem_cons_self)]
    exact ih fun z hz => h z (List.mem_cons_of_mem _ hz)

theorem find?_of_mem {x : ResourceName} {e : Entry} {entries : List (ResourceName × Entry)}
    (hd : entries.Pairwise (fun a b => a.1 ≠ b.1)) (h : (x, e) ∈ entries) :
    find? x entries = some e := by
  induction entries with
  | nil => simp at h
  | cons y rest ih =>
    obtain ⟨hy, hrest⟩ := List.pairwise_cons.mp hd
    rcases List.mem_cons.mp h with rfl | h
    · simp [find?]
    · have hne : y.1 ≠ x := hy _ h
      simp only [find?, if_neg hne]
      exact ih hrest h

/-- Filtering entries with distinct names filters what is found under each. -/
theorem find?_filter {p : Entry → Bool} {x : ResourceName} {entries : List (ResourceName × Entry)}
    (hd : entries.Pairwise (fun a b => a.1 ≠ b.1)) :
    find? x (entries.filter fun y => p y.2) = (find? x entries).filter p := by
  induction entries with
  | nil => rfl
  | cons y rest ih =>
    obtain ⟨n, f⟩ := y
    obtain ⟨hy, hrest⟩ := List.pairwise_cons.mp hd
    have ih := ih hrest
    by_cases hn : n = x
    · subst hn
      -- the names are distinct, so this entry is the only one to find
      have habs : find? n rest = none := find?_eq_none fun z hz => (hy z hz).symm
      rw [habs] at ih
      cases hp : p f <;> simp [Option.filter, hp, find?, ih]
    · cases hp : p f <;> simp [hp, find?, hn, ih]

/-! ## The view -/

theorem mem_entries {l : Ledger} {x : ResourceName} {e : Entry} :
    (x, e) ∈ l.entries ↔ l.get? x = some e :=
  ⟨find?_of_mem l.distinct, mem_of_find?⟩

theorem contains_iff {l : Ledger} {x : ResourceName} :
    l.contains x = true ↔ ∃ e, l.get? x = some e := by
  simp [contains, Option.isSome_iff_exists]

@[simp] theorem get?_empty (x : ResourceName) : empty.get? x = none := rfl

@[simp] theorem get?_record (l : Ledger) (name x : ResourceName) (e : Entry) :
    (l.record name e).get? x = if name = x then some e else l.get? x :=
  find?_put name x e l.entries

@[simp] theorem get?_prune (l : Ledger) (x : ResourceName) :
    l.prune.get? x = (l.get? x).filter (·.isLive) :=
  find?_filter l.distinct

theorem get?_foldl_record (entries : List (ResourceName × Entry)) (l : Ledger) (x : ResourceName) :
    (entries.foldl (fun l y => if l.contains y.1 then l else l.record y.1 y.2) l).get? x =
      (l.get? x).or (find? x entries) := by
  induction entries generalizing l with
  | nil => simp [find?]
  | cons y rest ih =>
    obtain ⟨n, f⟩ := y
    rw [List.foldl_cons, ih]
    by_cases hn : n = x
    · subst hn
      cases hl : l.get? n with
      | none => simp [contains, hl, find?]
      | some g => simp [contains, hl]
    · by_cases hc : l.contains n = true <;> simp [hc, hn, find?]

/-- What is carried over never replaces what is known. -/
@[simp] theorem get?_carry (l older : Ledger) (x : ResourceName) :
    (l.carry older).get? x = (l.get? x).or (older.get? x) := get?_foldl_record older.entries l x

theorem get?_accept (l : Ledger) (kind : ChangeKind) (object : Record) (version : String)
    (x : ResourceName) :
    (l.accept kind object version).get? x =
      if l.accepts object.resource version = true ∧ object.resource = x then
        some ⟨version, kind, object⟩
      else l.get? x := by
  unfold accept
  by_cases ha : l.accepts object.resource version = true <;> simp [ha]

/-- An offered resource is known afterwards, whether the event was let through or not. -/
theorem contains_accept (l : Ledger) (kind : ChangeKind) (object : Record) (version : String)
    (x : ResourceName) :
    (l.accept kind object version).contains x = true ↔
      l.contains x = true ∨ object.resource = x := by
  simp only [contains, get?_accept]
  by_cases hx : object.resource = x
  · subst hx
    cases hl : l.get? object.resource with
    | none => simp [accepts, hl]
    | some e => by_cases ha : l.accepts object.resource version = true <;> simp [ha]
  · simp [hx]

theorem replayKind_eq (l : Ledger) (x : ResourceName) :
    l.replayKind x = .added ∨ l.replayKind x = .modified := by
  unfold replayKind
  split
  · split
    · exact Or.inr rfl
    · exact Or.inl rfl
  · exact Or.inl rfl

/-! ## Live state -/

/-- The live object of a resource. -/
def shows (l : Ledger) (x : ResourceName) : Option Record :=
  ((l.get? x).filter (·.isLive)).map (·.object)

theorem shows_eq_some {l : Ledger} {x : ResourceName} {r : Record} :
    l.shows x = some r ↔ ∃ e, l.get? x = some e ∧ e.isLive = true ∧ e.object = r := by
  simp [shows, Option.filter_eq_some_iff, and_assoc]

@[simp] theorem shows_empty (x : ResourceName) : empty.shows x = none := rfl

/-- Deleted resources are not shown, so forgetting them changes nothing. -/
@[simp] theorem shows_prune (l : Ledger) (x : ResourceName) : l.prune.shows x = l.shows x := by
  simp only [shows, get?_prune]
  cases l.get? x with
  | none => rfl
  | some e => cases he : e.isLive <;> simp [Option.filter, he]

theorem map_object_prune (l : Ledger) (x : ResourceName) :
    (l.prune.get? x).map (·.object) = l.shows x := by
  rw [get?_prune]
  rfl

/-- After pruning, what is known is what is shown. -/
theorem contains_prune (l : Ledger) (x : ResourceName) :
    l.prune.contains x = (l.shows x).isSome := by
  simp [contains, shows]

/-- Whether each entry holds an object of the resource that it stands under. -/
def Keyed (l : Ledger) : Prop := ∀ x e, l.get? x = some e → e.object.resource = x

/-- Of one resource, the live objects among entries with distinct names are what is found under its
name, once. -/
theorem filter_live_entries {entries : List (ResourceName × Entry)}
    (hd : entries.Pairwise (fun a b => a.1 ≠ b.1))
    (hobj : ∀ y ∈ entries, y.2.object.resource = y.1) (x : ResourceName) :
    ((entries.filter fun y => y.2.isLive).map (·.2.object)).filter
        (fun r => decide (r.resource = x)) =
      (((find? x entries).filter (·.isLive)).map (·.object)).toList := by
  induction entries with
  | nil => rfl
  | cons y rest ih =>
    obtain ⟨n, f⟩ := y
    obtain ⟨hy, hrest⟩ := List.pairwise_cons.mp hd
    have ih := ih hrest fun z hz => hobj z (List.mem_cons_of_mem _ hz)
    have hf : f.object.resource = n := hobj _ List.mem_cons_self
    by_cases hn : n = x
    · have habs : find? x rest = none :=
        find?_eq_none fun z hz => by rw [← hn]; exact (hy z hz).symm
      rw [habs] at ih
      cases hp : f.isLive
      · rw [List.filter_cons_of_neg (by simp [hp]), ih]
        simp [find?, hn, Option.filter, hp]
      · rw [List.filter_cons_of_pos (by simp [hp]), List.map_cons,
          List.filter_cons_of_pos (by simp [hf, hn]), ih]
        simp [find?, hn, Option.filter, hp]
    · have hfx : f.object.resource ≠ x := by rw [hf]; exact hn
      simp only [find?, if_neg hn, ← ih]
      cases hp : f.isLive
      · rw [List.filter_cons_of_neg (by simp [hp])]
      · rw [List.filter_cons_of_pos (by simp [hp]), List.map_cons,
          List.filter_cons_of_neg (by simp [hfx])]

/-- Of one resource, the live records hold what the ledger shows, once. -/
theorem filter_live {l : Ledger} (hk : l.Keyed) (x : ResourceName) :
    l.live.filter (fun r => decide (r.resource = x)) = (l.shows x).toList :=
  filter_live_entries l.distinct (fun y hy => hk y.1 y.2 (mem_entries.mp hy)) x

theorem mem_live {l : Ledger} (hk : l.Keyed) {r : Record} :
    r ∈ l.live ↔ l.shows r.resource = some r := by
  have h := filter_live hk r.resource
  constructor
  · intro hr
    have : r ∈ l.live.filter fun s => decide (s.resource = r.resource) := by simp [hr]
    rw [h] at this
    simpa using this
  · intro hs
    have : r ∈ (l.shows r.resource).toList := by simp [hs]
    rw [← h] at this
    exact (List.mem_filter.mp this).1

theorem live_pairwise {l : Ledger} (hk : l.Keyed) :
    l.live.Pairwise fun a b => a.resource ≠ b.resource := by
  have hdistinct : (l.entries.filter fun y => y.2.isLive).Pairwise fun a b => a.1 ≠ b.1 :=
    l.distinct.filter _
  apply List.pairwise_map.mpr
  refine hdistinct.imp_of_mem fun {a b} ha hb hne => ?_
  rw [hk a.1 a.2 (mem_entries.mp (List.mem_filter.mp ha).1),
    hk b.1 b.2 (mem_entries.mp (List.mem_filter.mp hb).1)]
  exact hne

theorem live_nodup {l : Ledger} (hk : l.Keyed) : l.live.Nodup :=
  (live_pairwise hk).imp fun hne hab => hne (congrArg Record.resource hab)

/-- Ledgers that show the same hold the same live records, in some order. -/
theorem live_perm {l m : Ledger} (hl : l.Keyed) (hm : m.Keyed) (h : ∀ x, l.shows x = m.shows x) :
    l.live.Perm m.live := by
  rw [List.perm_ext_iff_of_nodup (live_nodup hl) (live_nodup hm)]
  intro r
  rw [mem_live hl, mem_live hm, h]

end Ledger

end SharedWatch
