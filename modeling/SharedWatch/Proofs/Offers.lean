import Mathlib.Data.List.Pairwise
import SharedWatch.Proofs.Ledger
import SharedWatch.Proofs.Numeral
import SharedWatch.Proofs.Reports

/-!
Offers to a ledger, in any order.

What a ledger holds of a resource is the offer with the greatest number so far (`Peaks`), so a
ledger keeps a running maximum for each resource: a new offer is let through exactly if it exceeds
all before it (`Peaks.accepts_iff`).

Main statement: `offers_settle`. Where no two offers of a resource have one number, every order of
the offers ends with the same ledger.
-/

namespace SharedWatch

/-- What a ledger records of an event that it lets through. -/
def Change.entry (e : Change) : Entry := ⟨e.version, e.kind, e.object⟩

/-- Whether the version of every event spells a number of its word. -/
def Numbered (events : List Change) : Prop :=
  ∀ e ∈ events, Text.Spells e.version e.number ∧ e.number < Text.word64

theorem numbered_iff {events : List Change} :
    Numbered events ↔ ∀ e ∈ events, counter? e.version = some e.number :=
  forall₂_congr fun _ _ => counter?_eq_some_iff.symm

instance (events : List Change) : Decidable (Numbered events) :=
  decidable_of_iff _ numbered_iff.symm

/-- Whether the event is one of a resource's events and none of those has a greater number. -/
structure Peak (events : List Change) (x : ResourceName) (e : Change) : Prop where
  mem : e ∈ events
  resource : e.resource = x
  greatest : ∀ d ∈ events, d.resource = x → d.number ≤ e.number

theorem Peak.of_perm {events events' : List Change} (h : events.Perm events') {x : ResourceName}
    {e : Change} (he : Peak events x e) : Peak events' x e :=
  ⟨h.mem_iff.mp he.mem, he.resource, fun d hd => he.greatest d (h.mem_iff.mpr hd)⟩

/-- Two events differ in their numbers if they are about one resource. -/
def Change.Differs (a b : Change) : Prop := a.resource = b.resource → a.number ≠ b.number

instance (a b : Change) : Decidable (a.Differs b) :=
  inferInstanceAs (Decidable (_ → _))

theorem Change.Differs.symm {a b : Change} (h : a.Differs b) : b.Differs a :=
  fun heq => (h heq.symm).symm

instance : Std.Symm Change.Differs := ⟨fun _ _ => Change.Differs.symm⟩

/-- Where the numbers of a resource differ, it has one peak. -/
theorem Peak.eq {events : List Change} (hdiff : events.Pairwise Change.Differs) {x : ResourceName}
    {e e' : Change} (he : Peak events x e) (he' : Peak events x e') : e = e' := by
  by_contra hne
  have hnumber : e.number = e'.number :=
    Nat.le_antisymm (he'.greatest e he.mem he.resource) (he.greatest e' he'.mem he'.resource)
  exact hdiff.forall he.mem he'.mem hne (he.resource.trans he'.resource.symm) hnumber

namespace Ledger

/-! ## Runs of offers -/

/-- The ledger after an event was offered. -/
def offer (l : Ledger) (e : Change) : Ledger := l.accept e.kind e.object e.version

/-- The ledger after some events were offered, in order. -/
def offerAll (l : Ledger) (events : List Change) : Ledger := events.foldl offer l

/-- The events that a ledger lets through when they are offered in order. -/
def taken (l : Ledger) : List Change → List Change
  | [] => []
  | e :: rest =>
    if l.accepts e.resource e.version then e :: (l.offer e).taken rest else (l.offer e).taken rest

theorem offerAll_snoc (l : Ledger) (events : List Change) (e : Change) :
    l.offerAll (events ++ [e]) = (l.offerAll events).offer e := by
  simp [offerAll]

theorem taken_snoc (l : Ledger) (events : List Change) (e : Change) :
    l.taken (events ++ [e]) = l.taken events ++
      if (l.offerAll events).accepts e.resource e.version = true then [e] else [] := by
  induction events generalizing l with
  | nil => rfl
  | cons d rest ih =>
    have hrest : l.offerAll (d :: rest) = (l.offer d).offerAll rest := rfl
    rw [List.cons_append, taken, taken, ih, hrest]
    split <;> rfl

theorem taken_sublist (l : Ledger) (events : List Change) : (l.taken events).Sublist events := by
  induction events generalizing l with
  | nil => exact List.Sublist.slnil
  | cons e rest ih =>
    rw [taken]
    split
    · exact (ih _).cons_cons e
    · exact (ih _).cons e

theorem offer_of_refused {l : Ledger} {e : Change}
    (h : l.accepts e.resource e.version = false) : l.offer e = l := by
  have hrefused : ¬ l.accepts e.object.resource e.version = true := Bool.not_eq_true _ ▸ h
  exact if_neg hrefused

theorem get?_offer (l : Ledger) (e : Change) (x : ResourceName) :
    (l.offer e).get? x =
      if l.accepts e.resource e.version = true ∧ e.resource = x then some e.entry
      else l.get? x :=
  l.get?_accept e.kind e.object e.version x

/-! ## The greatest offers -/

/-- Whether a ledger holds, of each resource that was offered, an offer with the greatest number.
-/
structure Peaks (l : Ledger) (events : List Change) : Prop where
  known : ∀ x en, l.get? x = some en → ∃ e, Peak events x e ∧ en = e.entry
  unknown : ∀ x, l.get? x = none → ∀ e ∈ events, e.resource ≠ x

theorem peaks_empty : empty.Peaks [] := ⟨nofun, nofun⟩

namespace Peaks
variable {l : Ledger} {past : List Change} {e : Change}

theorem accepts_iff (h : l.Peaks past) (hnum : Numbered (past ++ [e])) :
    l.accepts e.resource e.version = true ↔
      ∀ d ∈ past, d.resource = e.resource → d.number < e.number := by
  have hcounters := numbered_iff.mp hnum
  have he : counter? e.version = some e.number := hcounters e (by simp)
  unfold accepts
  cases hget : l.get? e.resource with
  | none => simpa using fun d hd heq => absurd heq (h.unknown _ hget d hd)
  | some en =>
    obtain ⟨top, hpeak, rfl⟩ := h.known _ _ hget
    have htop : counter? top.entry.version = some top.number :=
      hcounters top (List.mem_append_left _ hpeak.mem)
    show supersedes e.version top.entry.version = true ↔ _
    rw [supersedes_iff he htop]
    constructor
    · intro hlt d hd hsame
      exact Nat.lt_of_le_of_lt (hpeak.greatest d hd hsame) hlt
    · intro hall
      exact hall top hpeak.mem hpeak.resource

/-- An offer that is refused is not greater than what is held of its resource. -/
theorem exists_ge_of_refused (h : l.Peaks past) (hnum : Numbered (past ++ [e]))
    (hrefused : l.accepts e.resource e.version = false) :
    ∃ d ∈ past, d.resource = e.resource ∧ e.number ≤ d.number := by
  have hnot := (h.accepts_iff hnum).not.mp (by simp [hrefused])
  simpa only [not_forall, Nat.not_lt, exists_prop] using hnot

theorem offer (h : l.Peaks past) (hnum : Numbered (past ++ [e])) :
    (l.offer e).Peaks (past ++ [e]) := by
  constructor
  · intro x en hen
    rw [get?_offer] at hen
    split at hen
    · next hit =>
      obtain ⟨haccepts, hx⟩ := hit
      have hless := (h.accepts_iff hnum).mp haccepts
      refine ⟨e, ⟨by simp, hx, ?_⟩, (Option.some.inj hen).symm⟩
      intro d hd hdx
      rcases List.mem_append.mp hd with hd | hd
      · exact Nat.le_of_lt (hless d hd (hdx.trans hx.symm))
      · exact Nat.le_of_eq (congrArg Change.number (List.mem_singleton.mp hd))
    · next hmiss =>
      obtain ⟨top, hpeak, rfl⟩ := h.known x en hen
      refine ⟨top, ⟨List.mem_append_left _ hpeak.mem, hpeak.resource, ?_⟩, rfl⟩
      intro d hd hdx
      rcases List.mem_append.mp hd with hd | hd
      · exact hpeak.greatest d hd hdx
      · -- the new offer was refused, so an earlier one is as great
        rw [List.mem_singleton.mp hd] at hdx ⊢
        have hrefused : l.accepts e.resource e.version = false := by
          simpa [hdx] using hmiss
        obtain ⟨d', hd', hsame, hle⟩ := h.exists_ge_of_refused hnum hrefused
        exact Nat.le_trans hle (hpeak.greatest d' hd' (hsame.trans hdx))
  · intro x hnone d hd
    rw [get?_offer] at hnone
    split at hnone
    · cases hnone
    · next hmiss =>
      rcases List.mem_append.mp hd with hd | hd
      · exact h.unknown x hnone d hd
      · rw [List.mem_singleton.mp hd]
        rintro rfl
        -- the first offer of a resource is let through
        have haccepts : l.accepts e.resource e.version = true := by simp [accepts, hnone]
        exact hmiss ⟨haccepts, rfl⟩

end Peaks

theorem Numbered.of_append {past more : List Change} (h : Numbered (past ++ more)) :
    Numbered past := fun e he => h e (List.mem_append_left _ he)

theorem offerAll_peaks {events : List Change} (h : Numbered events) :
    (empty.offerAll events).Peaks events := by
  induction events using List.reverseRecOn with
  | nil => exact peaks_empty
  | append_singleton past e ih =>
    rw [offerAll_snoc]
    exact (ih (Numbered.of_append h)).offer h

/-- What is let through of a resource grows. -/
theorem taken_increases {events : List Change} (h : Numbered events) :
    (empty.taken events).Pairwise fun a b => a.resource = b.resource → a.number < b.number := by
  induction events using List.reverseRecOn with
  | nil => exact List.Pairwise.nil
  | append_singleton past e ih =>
    have hpast := Numbered.of_append h
    rw [taken_snoc]
    refine List.pairwise_append.mpr ⟨ih hpast, ?_, ?_⟩
    · split
      · exact List.pairwise_singleton _ _
      · exact List.Pairwise.nil
    · intro a ha b hb
      split at hb
      · next haccepts =>
        rw [List.mem_singleton.mp hb]
        exact ((offerAll_peaks hpast).accepts_iff h).mp haccepts a ((taken_sublist _ _).subset ha)
      · cases hb

/-- Ledgers that answer alike hold the same entries. -/
theorem entries_perm {l m : Ledger} (h : ∀ x, l.get? x = m.get? x) : l.entries.Perm m.entries := by
  have hnodup : ∀ l : Ledger, l.entries.Nodup := fun l =>
    l.distinct.imp fun hne heq => hne (congrArg Prod.fst heq)
  refine (List.perm_ext_iff_of_nodup (hnodup l) (hnodup m)).mpr fun y => ?_
  obtain ⟨x, en⟩ := y
  rw [mem_entries, mem_entries, h x]

/-- Where the numbers of a resource differ, a ledger holds exactly the greatest offers. -/
theorem get?_offerAll_iff {events : List Change} (hnum : Numbered events)
    (hdiff : events.Pairwise Change.Differs) {x : ResourceName} {en : Entry} :
    (empty.offerAll events).get? x = some en ↔ ∃ e, Peak events x e ∧ en = e.entry := by
  have hpeaks := offerAll_peaks hnum
  refine ⟨hpeaks.known x en, ?_⟩
  rintro ⟨e, hpeak, rfl⟩
  cases hget : (empty.offerAll events).get? x with
  | none => exact absurd hpeak.resource (hpeaks.unknown x hget e hpeak.mem)
  | some en =>
    obtain ⟨e', hpeak', rfl⟩ := hpeaks.known x en hget
    rw [hpeak'.eq hdiff hpeak]

/-- Every order of offers with different numbers ends with the same entries, the greatest offer of
each resource; on the way an offer is let through exactly if it exceeds those before it, and a
refused one changes nothing. -/
theorem offers_settle {offers run : List Change} (hnum : Numbered offers)
    (hdiff : offers.Pairwise Change.Differs) (hrun : run.Perm offers) :
    (empty.offerAll run).entries.Perm (empty.offerAll offers).entries ∧
    (∀ x en, (empty.offerAll run).get? x = some en ↔ ∃ e, Peak offers x e ∧ en = e.entry) ∧
    ((empty.taken run).Pairwise fun a b => a.resource = b.resource → a.number < b.number) ∧
    (∀ before e after, run = before ++ e :: after →
      ((empty.offerAll before).accepts e.resource e.version = true ↔
        ∀ d ∈ before, d.resource = e.resource → d.number < e.number) ∧
      ((empty.offerAll before).accepts e.resource e.version = false →
        empty.offerAll (before ++ [e]) = empty.offerAll before)) ∧
    ∀ a b m n, Text.Spells a m → Text.Spells b n → m < Text.word64 → n < Text.word64 →
      (supersedes a b = true ↔ n < m) := by
  have hnum' : Numbered run := fun e he => hnum e (hrun.mem_iff.mp he)
  have hdiff' : run.Pairwise Change.Differs := hrun.symm.pairwise hdiff Change.Differs.symm
  have hget : ∀ x en, (empty.offerAll run).get? x = some en ↔
      ∃ e, Peak offers x e ∧ en = e.entry := by
    intro x en
    rw [get?_offerAll_iff hnum' hdiff']
    exact exists_congr fun e => and_congr_left fun _ => ⟨.of_perm hrun, .of_perm hrun.symm⟩
  have hsame : ∀ x, (empty.offerAll run).get? x = (empty.offerAll offers).get? x := fun x =>
    Option.ext fun en => (hget x en).trans (get?_offerAll_iff hnum hdiff).symm
  refine ⟨entries_perm hsame, hget, taken_increases hnum', ?_, ?_⟩
  · rintro before e after rfl
    have hsofar : Numbered (before ++ [e]) := fun d hd => hnum' d (by
      rw [List.append_cons]
      exact List.mem_append_left _ hd)
    refine ⟨(offerAll_peaks (Numbered.of_append hsofar)).accepts_iff hsofar, fun hrefused => ?_⟩
    rw [offerAll_snoc]
    exact offer_of_refused hrefused
  · intro a b m n ha hb hm hn
    exact supersedes_iff_of_spells ha hb hm hn

/-- Offers of two resources under several spellings, the greatest of the first one a deletion. -/
def mingled : List Change :=
  let r : String → String → Record := fun name version => { Record.empty with name, version }
  [.ofRecord .added (r "a" "+9"), .ofRecord .modified (r "b" "007"),
    .ofRecord .deleted (r "a" "010"), .ofRecord .modified (r "a" "8")]

theorem offers_settle_mingled :
    Numbered mingled ∧ mingled.Pairwise Change.Differs ∧ mingled.reverse.Perm mingled ∧
      (empty.offerAll mingled.reverse).entries.Perm (empty.offerAll mingled).entries ∧
      (empty.offerAll mingled).size = 2 := by
  have hnum : Numbered mingled := by decide
  have hdiff : mingled.Pairwise Change.Differs := by decide
  have hperm : mingled.reverse.Perm mingled := List.reverse_perm mingled
  exact ⟨hnum, hdiff, hperm, (offers_settle hnum hdiff hperm).1, by decide⟩

end Ledger

end SharedWatch
