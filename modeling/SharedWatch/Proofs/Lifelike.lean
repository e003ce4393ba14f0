import SharedWatch.Proofs.Reports

/-!
Sequences of events whose kinds tell the truth.

In a lifelike sequence an addition is of a resource that its reader does not hold, and every other
report is of one that it holds. So every resource is added, modified some times and deleted, again
and again (`Lifelike.cyclic`).
-/

namespace SharedWatch

/-- Whether kinds tell the truth, some `odd` reports apart: an addition is of a resource that the
reader does not hold, every other report is of one that it holds. -/
def LifelikeBut (odd : Change → Prop) (events : List Change) : Prop :=
  ∀ before e after, events = before ++ e :: after → e.isReport = true →
    (e.kind = .added ↔ view before e.resource = none) ∨ odd e

/-- Whether kinds tell the truth. -/
def Lifelike (events : List Change) : Prop := LifelikeBut (fun _ => False) events

theorem view_append_of_unreported {x : ResourceName} {more : List Change}
    (h : reportsOf x more = []) (events : List Change) :
    view (events ++ more) x = view events x := by
  rw [view_eq, view_eq, latest, latest, reportsOf_append, h, List.append_nil]

namespace LifelikeBut
variable {odd odd' : Change → Prop} {events more : List Change}

theorem of_prefix (h : LifelikeBut odd events) (hp : more <+: events) : LifelikeBut odd more := by
  obtain ⟨rest, rfl⟩ := hp
  intro before e after hsplit
  exact h before e (after ++ rest) (by simp [hsplit])

theorem mono (h : LifelikeBut odd events) (ho : ∀ e, odd e → odd' e) : LifelikeBut odd' events :=
  fun before e after hsplit he => (h before e after hsplit he).imp_right (ho e)

/-- Reports of different resources may be added if each tells the truth by itself. -/
theorem append (h : LifelikeBut odd events) (hsingle : ∀ x, (reportsOf x more).length ≤ 1)
    (hmore : ∀ e ∈ more, e.isReport = true →
      (e.kind = .added ↔ view events e.resource = none) ∨ odd e) :
    LifelikeBut odd (events ++ more) := by
  intro before e after hsplit he
  -- what is split off lies in the old events, or in the new ones after others of them
  rcases List.append_eq_append_iff.mp hsplit with ⟨earlier, rfl, hlater⟩ | ⟨rest, hearlier, hrest⟩
  · have hnone : reportsOf e.resource earlier = [] := by
      have hlength := hsingle e.resource
      rw [hlater, ← List.singleton_append, reportsOf_append, reportsOf_append, reportsOf_singleton,
        if_pos ⟨he, rfl⟩] at hlength
      simp only [List.length_append, List.length_singleton] at hlength
      exact List.length_eq_zero_iff.mp (by omega)
    rw [view_append_of_unreported hnone]
    exact hmore e (by simp [hlater]) he
  · cases rest with
    | nil =>
      rw [List.append_nil] at hearlier
      rw [← hearlier]
      exact hmore e (by rw [← List.nil_append more, ← hrest]; simp) he
    | cons f rest =>
      obtain ⟨rfl, -⟩ := List.cons.inj hrest
      exact h before e rest hearlier he

theorem nil : LifelikeBut odd [] := by
  intro before e after hsplit
  simp at hsplit

theorem snoc (h : LifelikeBut odd events) {e : Change}
    (he : e.isReport = true → (e.kind = .added ↔ view events e.resource = none) ∨ odd e) :
    LifelikeBut odd (events ++ [e]) := by
  refine h.append (fun x => ?_) fun f hf => ?_
  · rw [reportsOf_singleton]
    split <;> simp
  · rw [List.mem_singleton.mp hf]
    exact he

end LifelikeBut

/-- The kinds that a resource goes through from its addition to its deletion. -/
def lifetime (edits : Nat) : List ChangeKind :=
  .added :: List.replicate edits .modified ++ [.deleted]

/-- Whether kinds are those of a resource that is added, modified and deleted again and again, up to
some point. -/
def Cyclic (kinds : List ChangeKind) : Prop :=
  ∃ counts : List Nat, kinds <+: counts.flatMap lifetime

/-- Where a resource is in its lifetimes after some events. -/
inductive Lives (events : List Change) (x : ResourceName) : Prop where
  | gone (counts : List Nat) (hview : view events x = none)
      (hkinds : (reportsOf x events).map (·.kind) = counts.flatMap lifetime)
  | there (counts : List Nat) (edits : Nat) (hview : view events x ≠ none)
      (hkinds : (reportsOf x events).map (·.kind) =
        counts.flatMap lifetime ++ .added :: List.replicate edits .modified)

theorem Lifelike.lives {events : List Change} (h : Lifelike events) (x : ResourceName) :
    Lives events x := by
  induction events using List.reverseRecOn with
  | nil => exact .gone [] rfl rfl
  | append_singleton events e ih =>
    have hbefore := ih (h.of_prefix (List.prefix_append events [e]))
    by_cases hx : e.isReport = true ∧ e.resource = x
    swap
    · have hsame : reportsOf x (events ++ [e]) = reportsOf x events := by
        rw [reportsOf_append, reportsOf_singleton, if_neg hx, List.append_nil]
      have hview : view (events ++ [e]) x = view events x := by rw [view_snoc, if_neg hx]
      cases hbefore with
      | gone counts hnone hkinds => exact .gone counts (hview.trans hnone) (hsame ▸ hkinds)
      | there counts edits hsome hkinds =>
        exact .there counts edits (hview ▸ hsome) (hsame ▸ hkinds)
    obtain ⟨he, rfl⟩ := hx
    have htrue := (h events e [] rfl he).resolve_right id
    have hkinds' : (reportsOf e.resource (events ++ [e])).map (·.kind) =
        (reportsOf e.resource events).map (·.kind) ++ [e.kind] := by
      rw [reportsOf_append, reportsOf_singleton, if_pos ⟨he, rfl⟩, List.map_append]
      rfl
    have hview' : view (events ++ [e]) e.resource = e.outcome := by
      rw [view_snoc, if_pos ⟨he, rfl⟩]
    cases hbefore with
    | gone counts hnone hkinds =>
      have hadded := htrue.mpr hnone
      refine .there counts 0 ?_ ?_
      · rw [hview', Change.outcome, hadded]
        simp
      · rw [hkinds', hkinds, hadded]
        rfl
    | there counts edits hsome hkinds =>
      have hadded : e.kind ≠ .added := fun hk => hsome (htrue.mp hk)
      cases hk : e.kind with
      | added => exact absurd hk hadded
      | bookmark => simp [Change.isReport, hk] at he
      | error => simp [Change.isReport, hk] at he
      | modified =>
        refine .there counts (edits + 1) ?_ ?_
        · rw [hview', Change.outcome, hk]
          simp
        · rw [hkinds', hkinds, hk, List.replicate_succ']
          simp
      | deleted =>
        refine .gone (counts ++ [edits]) ?_ ?_
        · rw [hview', Change.outcome, hk]
          simp
        · rw [hkinds', hkinds, hk]
          simp [lifetime]

/-- In a lifelike sequence every resource is added, modified and deleted in turn. -/
theorem Lifelike.cyclic {events : List Change} (h : Lifelike events) (x : ResourceName) :
    Cyclic ((reportsOf x events).map (·.kind)) := by
  cases h.lives x with
  | gone counts _ hkinds => exact ⟨counts, hkinds ▸ List.prefix_refl _⟩
  | there counts edits _ hkinds =>
    refine ⟨counts ++ [edits], [.deleted], ?_⟩
    simp [hkinds, lifetime]

end SharedWatch
