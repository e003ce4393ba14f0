import Mathlib.Data.List.Induction
import SharedWatch.Resource.Change
import SharedWatch.Sharing.Version

/-!
Sequences of events, read as reports about resources.

`view` folds a sequence the way its reader does: an addition or a modification sets a resource, a
deletion removes it. `latest` is the last report of a resource, and `view_eq` says that nothing
else matters to the fold.

`Orderly` is what is asked of a server: versions are counters, the versions of one resource never
decrease, and one version of a resource is one state of it. In an orderly sequence the latest
report of a resource has the greatest version (`Orderly.le_latest`).
-/

namespace SharedWatch

namespace Change

/-- The resource that the event is about. -/
def resource (e : Change) : ResourceName := e.object.resource

/-- Whether the event reports a state of a resource. -/
def isReport (e : Change) : Bool :=
  match e.kind with
  | .added => true
  | .modified => true
  | .deleted => true
  | .bookmark => false
  | .error => false

/-- The number that the event's version stands for; zero when it is no counter. -/
def number (e : Change) : Nat := (counter? e.version).getD 0

/-- The state in which the event leaves its resource: an object, or nothing after a deletion. -/
def outcome (e : Change) : Option Record := if e.kind = .deleted then none else some e.object

/-- Two events describe the same state of a resource: one object, and both or none is a deletion. -/
def SameState (a b : Change) : Prop :=
  a.object = b.object ∧ (a.kind = .deleted ↔ b.kind = .deleted)

instance (a b : Change) : Decidable (a.SameState b) :=
  inferInstanceAs (Decidable (_ ∧ _))

@[simp] theorem retyped_object (e : Change) (kind : ChangeKind) :
    (e.retyped kind).object = e.object := rfl

theorem number_eq {e : Change} {n : Nat} (h : counter? e.version = some n) : e.number = n := by
  simp [number, h]

theorem SameState.symm {a b : Change} (h : a.SameState b) : b.SameState a := ⟨h.1.symm, h.2.symm⟩

theorem SameState.trans {a b c : Change} (h : a.SameState b) (h' : b.SameState c) :
    a.SameState c := ⟨h.1.trans h'.1, h.2.trans h'.2⟩

theorem SameState.outcome_eq {a b : Change} (h : a.SameState b) : a.outcome = b.outcome := by
  unfold outcome
  by_cases hb : b.kind = .deleted
  · rw [if_pos (h.2.mpr hb), if_pos hb]
  · rw [if_neg fun ha => hb (h.2.mp ha), if_neg hb, h.1]

end Change

/-! ## The reader's fold -/

/-- What a reader holds of each resource. -/
abbrev View := ResourceName → Option Record

namespace View

/-- The view after one more event. -/
def absorb (v : View) (e : Change) : View :=
  match e.kind with
  | .added => fun x => if x = e.resource then some e.object else v x
  | .modified => fun x => if x = e.resource then some e.object else v x
  | .deleted => fun x => if x = e.resource then none else v x
  | .bookmark => v
  | .error => v

theorem absorb_apply (v : View) (e : Change) (x : ResourceName) :
    v.absorb e x = if e.isReport = true ∧ e.resource = x then e.outcome else v x := by
  unfold absorb Change.isReport Change.outcome
  cases hk : e.kind <;> simp [eq_comm]

end View

/-- The view of a reader who has read the events and nothing else. -/
def view (events : List Change) : View := events.foldl View.absorb fun _ => none

@[simp] theorem view_nil (x : ResourceName) : view [] x = none := rfl

theorem view_snoc (events : List Change) (e : Change) (x : ResourceName) :
    view (events ++ [e]) x =
      if e.isReport = true ∧ e.resource = x then e.outcome else view events x := by
  simp only [view, List.foldl_append, List.foldl_cons, List.foldl_nil]
  exact View.absorb_apply _ e x

theorem view_append_of_noReport {events more : List Change} (h : ∀ e ∈ more, e.isReport = false)
    (x : ResourceName) : view (events ++ more) x = view events x := by
  induction more generalizing events with
  | nil => simp
  | cons e rest ih =>
    have he : e.isReport = false := h e List.mem_cons_self
    rw [List.append_cons, ih fun f hf => h f (List.mem_cons_of_mem _ hf), view_snoc]
    simp [he]

/-! ## The latest report -/

/-- The reports of a resource among some events, in order. -/
def reportsOf (x : ResourceName) (events : List Change) : List Change :=
  events.filter fun e => e.isReport && decide (e.resource = x)

@[simp] theorem reportsOf_nil (x : ResourceName) : reportsOf x [] = [] := rfl

@[simp] theorem reportsOf_append (x : ResourceName) (p q : List Change) :
    reportsOf x (p ++ q) = reportsOf x p ++ reportsOf x q := List.filter_append ..

theorem reportsOf_singleton (x : ResourceName) (e : Change) :
    reportsOf x [e] = if e.isReport = true ∧ e.resource = x then [e] else [] := by
  simp [reportsOf, List.filter_cons]

theorem mem_reportsOf {x : ResourceName} {events : List Change} {e : Change} :
    e ∈ reportsOf x events ↔ e ∈ events ∧ e.isReport = true ∧ e.resource = x := by
  simp [reportsOf]

/-- The last report of a resource. -/
def latest (x : ResourceName) (events : List Change) : Option Change :=
  (reportsOf x events).getLast?

@[simp] theorem latest_nil (x : ResourceName) : latest x [] = none := rfl

theorem latest_snoc (x : ResourceName) (events : List Change) (e : Change) :
    latest x (events ++ [e]) =
      if e.isReport = true ∧ e.resource = x then some e else latest x events := by
  unfold latest
  rw [reportsOf_append, reportsOf_singleton]
  split <;> simp

theorem latest_mem {x : ResourceName} {events : List Change} {a : Change}
    (h : latest x events = some a) : a ∈ events ∧ a.isReport = true ∧ a.resource = x :=
  mem_reportsOf.mp (List.mem_of_getLast? h)

theorem view_eq (events : List Change) (x : ResourceName) :
    view events x = (latest x events).bind Change.outcome := by
  induction events using List.reverseRecOn with
  | nil => rfl
  | append_singleton events e ih =>
    rw [view_snoc, latest_snoc, ih]
    split <;> rfl

/-- What a reader holds of a resource was its latest report, and no deletion. -/
theorem exists_latest_of_view {events : List Change} {x : ResourceName} {r : Record}
    (h : view events x = some r) :
    ∃ a, latest x events = some a ∧ a.kind ≠ .deleted ∧ a.object = r := by
  rw [view_eq] at h
  obtain ⟨a, ha, hr⟩ := Option.bind_eq_some_iff.mp h
  unfold Change.outcome at hr
  split at hr
  · cases hr
  · next hk => exact ⟨a, ha, hk, Option.some.inj hr⟩

/-! ## Orderly sequences -/

/-- The events of a server that keeps its promises about each resource. -/
structure Orderly (events : List Change) : Prop where
  counted : ∀ e ∈ events, e.isReport = true → ∃ n, counter? e.version = some n
  ascending : events.Pairwise fun a b => a.isReport = true → b.isReport = true →
    a.resource = b.resource → a.number ≤ b.number
  /-- One version of a resource is one state of it. -/
  same : events.Pairwise fun a b => a.isReport = true → b.isReport = true →
    a.resource = b.resource → a.number = b.number → a.SameState b

theorem orderly_iff (events : List Change) :
    Orderly events ↔
      (∀ e ∈ events, e.isReport = true → (counter? e.version).isSome = true) ∧
      (events.Pairwise fun a b => a.isReport = true → b.isReport = true →
        a.resource = b.resource → a.number ≤ b.number) ∧
      events.Pairwise fun a b => a.isReport = true → b.isReport = true →
        a.resource = b.resource → a.number = b.number → a.SameState b := by
  simp only [Option.isSome_iff_exists]
  exact ⟨fun h => ⟨h.counted, h.ascending, h.same⟩, fun h => ⟨h.1, h.2.1, h.2.2⟩⟩

instance (events : List Change) : Decidable (Orderly events) :=
  decidable_of_iff' _ (orderly_iff events)

/-- An event that may come after others. -/
structure Admits (past : List Change) (e : Change) : Prop where
  counted : ∃ n, counter? e.version = some n
  ascending : ∀ a ∈ past, a.isReport = true → a.resource = e.resource → a.number ≤ e.number
  same : ∀ a ∈ past, a.isReport = true → a.resource = e.resource → a.number = e.number →
    a.SameState e

namespace Orderly

theorem nil : Orderly [] := ⟨by simp, .nil, .nil⟩

theorem sublist {events fewer : List Change} (h : Orderly events) (hs : fewer.Sublist events) :
    Orderly fewer where
  counted := fun e he => h.counted e (hs.subset he)
  ascending := h.ascending.sublist hs
  same := h.same.sublist hs

theorem of_append {past more : List Change} (h : Orderly (past ++ more)) : Orderly past :=
  h.sublist (List.sublist_append_left past more)

theorem admits {past more : List Change} {e : Change} (h : Orderly (past ++ e :: more))
    (he : e.isReport = true) : Admits past e where
  counted := h.counted e (by simp) he
  ascending := fun a ha hr hx =>
    (List.pairwise_append.mp h.ascending).2.2 a ha e List.mem_cons_self hr he hx
  same := fun a ha hr hx =>
    (List.pairwise_append.mp h.same).2.2 a ha e List.mem_cons_self hr he hx

theorem snoc {past : List Change} {e : Change} (h : Orderly past)
    (he : e.isReport = true → Admits past e) : Orderly (past ++ [e]) where
  counted := by
    intro a ha hr
    rcases List.mem_append.mp ha with ha | ha
    · exact h.counted a ha hr
    · rw [List.mem_singleton.mp ha] at hr ⊢
      exact (he hr).counted
  ascending := by
    refine List.pairwise_append.mpr ⟨h.ascending, List.pairwise_singleton _ _, ?_⟩
    intro a ha b hb hra hrb hx
    rw [List.mem_singleton.mp hb] at hrb hx ⊢
    exact (he hrb).ascending a ha hra hx
  same := by
    refine List.pairwise_append.mpr ⟨h.same, List.pairwise_singleton _ _, ?_⟩
    intro a ha b hb hra hrb hx
    rw [List.mem_singleton.mp hb] at hrb hx ⊢
    exact (he hrb).same a ha hra hx

/-- The latest report of a resource has the greatest version. -/
theorem le_latest {events : List Change} (h : Orderly events) {x : ResourceName} {a b : Change}
    (ha : latest x events = some a) (hb : b ∈ events) (hr : b.isReport = true)
    (hx : b.resource = x) : b.number ≤ a.number := by
  induction events using List.reverseRecOn with
  | nil => simp at hb
  | append_singleton past e ih =>
    rw [latest_snoc] at ha
    split at ha
    · next he =>
      -- the last event is the latest report, and came after all others
      cases ha
      rcases List.mem_append.mp hb with hb | hb
      · exact (h.admits he.1).ascending b hb hr (hx.trans he.2.symm)
      · have hba : b = a := List.mem_singleton.mp hb
        exact Nat.le_of_eq (congrArg Change.number hba)
    · next he =>
      rcases List.mem_append.mp hb with hb | hb
      · exact ih h.of_append ha hb
      · rw [List.mem_singleton.mp hb] at hr hx
        exact absurd ⟨hr, hx⟩ he

end Orderly

end SharedWatch
