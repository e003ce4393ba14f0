import SharedWatch.Proofs.Resync

/-!
What a filtered subscriber sees of a resource that goes.

A filter is asked about the object that an event carries. A deletion carries the last object that
the server had, or, if it is made up at a bookmark, the last one that was known; its labels may have
changed since the subscriber was shown the resource.

Main statement: `deletion_shown_iff`. A subscriber that holds a resource is sent its deletion
exactly if it wants the object that the deletion carries; otherwise the resource stays in its view
(`relabelled_stays`).
-/

namespace SharedWatch

namespace Chain

/-- All that a run sends, in order. -/
def output (c : Chain) : List ChainOp → List Delivery
  | [] => []
  | op :: rest => c.sends op ++ (c.apply op).output rest

theorem output_snoc (c : Chain) (ops : List ChainOp) (op : ChainOp) :
    c.output (ops ++ [op]) = c.output ops ++ (c.run ops).sends op := by
  induction ops generalizing c with
  | nil => simp [output, run]
  | cons o rest ih =>
    have hrun : c.run (o :: rest) = (c.apply o).run rest := rfl
    simp only [List.cons_append, output, ih, hrun, List.append_assoc]

/-- Whether an event is the end of a resource for the subscribers of a generation, and with which
deletion. -/
inductive Ends (c : Chain) (g : Generation) (e : Change) (x : ResourceName) : Change → Prop where
  /-- The ledger lets a deletion through. -/
  | told (hk : e.kind = .deleted) (hx : e.resource = x)
      (haccepts : g.ledger.accepts x e.version = true) : Ends c g e x e
  /-- A bookmark completes a replay that did not bring what the ledger shows. -/
  | unseen (r : Record) (hk : e.kind = .bookmark) (hreplay : c.head.resumed = false)
      (holder : c.ancestors ≠ []) (hshows : g.ledger.shows x = some r)
      (hunseen : c.head.ledger.contains x = false) :
      Ends c g e x (.atVersion .deleted r e.version)

theorem Ends.kind_eq {c : Chain} {g : Generation} {e d : Change} {x : ResourceName}
    (h : c.Ends g e x d) : d.kind = .deleted := by
  cases h with
  | told hk _ _ => exact hk
  | unseen _ _ _ _ _ _ => rfl

/-- Whoever has a subscriber is the oldest generation. -/
theorem Gathered.eq_oldest {c : Chain} (h : c.Gathered) {g : Generation} (hg : g ∈ c.generations)
    {s : Subscriber} (hs : s ∈ g.subscribers) : g = c.oldest := by
  rw [c.generations_eq] at hg
  rcases List.mem_append.mp hg with hnewer | holdest
  · rw [h.newer_empty g hnewer] at hs
    cases hs
  · exact List.mem_singleton.mp holdest

end Chain

namespace Coherent
variable {past : List Change} {c : Chain}

/-- Of a resource that ends, a subscriber is sent the deletion if it wants the object that this
carries, and nothing else. -/
theorem reportsOf_ends (h : Coherent past c) (hg : c.Gathered) {s : Subscriber}
    (hs : s ∈ c.oldest.subscribers) {e d : Change} {x : ResourceName}
    (hends : c.Ends c.oldest e x d) :
    reportsOf x (eventsFor s.id (c.sends (.dispatch e))) =
      if s.filter.accepts d.object = true then [d] else [] := by
  cases hends with
  | told hk hx haccepts =>
    have he : e.isReport = true := by simp [Change.isReport, hk]
    have hkind : c.oldest.kindOf (c.lastOffer e) e = .deleted :=
      (c.oldest.kindOf_deleted_iff (c.lastOffer_eq e)).mpr hk
    have hsame : e.retyped (c.oldest.kindOf (c.lastOffer e) e) = e := by
      rw [hkind, ← hk]
      rfl
    subst hx
    rw [hg.eventsFor_report hs he, haccepts, hsame]
    by_cases hwants : s.filter.accepts e.object = true
    · rw [if_pos ⟨rfl, hwants⟩, if_pos hwants, reportsOf_singleton, if_pos ⟨he, rfl⟩]
    · rw [if_neg fun hh => hwants hh.2, if_neg hwants, reportsOf_nil]
  | unseen r hk hreplay holder hshows hunseen =>
    have hfull : ¬ (c.head.resumed = true ∨ c.ancestors = []) := by simp [hreplay, holder]
    have hmark : reportsOf x (if s.filter.bookmarks = true then [e] else []) = [] := by
      split
      · rw [reportsOf_singleton, if_neg (by simp [Chain.isReport_of_bookmark hk])]
      · rfl
    rw [hg.eventsFor_bookmark hs hk, reportsOf_append, hmark, List.append_nil,
      h.reportsOf_farewells hg hs e.version hfull, hshows]
    by_cases hwants : s.filter.accepts r = true <;>
      simp [hunseen, hwants, Change.atVersion]

end Coherent

namespace Chain

/-- A subscriber that holds a resource is sent the deletion that ends it exactly if its filter
accepts the object that the deletion carries, and only then does the resource leave its view. -/
theorem deletion_shown_iff (n : Nat) {ops : List ChainOp} (horderly : Orderly (dispatched ops))
    {c : Chain} (hc : (first n).run ops = c) {g : Generation} (hg : g ∈ c.generations)
    {s : Subscriber} (hs : s ∈ g.subscribers) {x : ResourceName} {a : Change}
    (hlast : latest x (eventsFor s.id ((first n).output ops)) = some a) (hheld : a.kind ≠ .deleted)
    {e d : Change} (hends : c.Ends g e x d) :
    reportsOf x (eventsFor s.id (c.sends (.dispatch e))) =
        (if s.filter.accepts d.object = true then [d] else []) ∧
      (view (eventsFor s.id ((first n).output (ops ++ [.dispatch e]))) x = none ↔
        s.filter.accepts d.object = true) := by
  have hcoherent : Coherent (dispatched ops) c := hc ▸ run_coherent n horderly
  have hgathered : c.Gathered := hc ▸ run_gathered n ops
  have holdest := hgathered.eq_oldest hg hs
  subst holdest
  have hsent := hcoherent.reportsOf_ends hgathered hs hends
  refine ⟨hsent, ?_⟩
  rw [view_eq, latest, output_snoc, eventsFor_append, reportsOf_append, hc, hsent]
  by_cases hwants : s.filter.accepts d.object = true
  · simp [hwants, Change.outcome, hends.kind_eq]
  · rw [if_neg hwants, List.append_nil, show (reportsOf x _).getLast? = some a from hlast]
    simp [Change.outcome, hheld, hwants]

/-- A resource in a state in which it belongs to an application. -/
def belonging (version app : String) : Record :=
  { Record.empty with name := "a", version, labels := TextMap.empty.insert "app" app }

/-- Somebody follows the resources of an application, and one of them exists. -/
def followApp : List ChainOp :=
  [.attach ⟨7, ⟨[("app", "web")], [], false⟩⟩, .dispatch (.ofRecord .added (belonging "1" "web"))]

theorem deletion_shown_iff_followApp :
    let gone : Change := .ofRecord .deleted (belonging "2" "web")
    let moved : Change := .ofRecord .deleted (belonging "2" "db")
    reportsOf ⟨"", "a"⟩ (eventsFor 7 (((first 1).run followApp).sends (.dispatch gone))) = [gone] ∧
    view (eventsFor 7 ((first 1).output (followApp ++ [.dispatch moved]))) ⟨"", "a"⟩ ≠ none := by
  intro gone moved
  have horderly : Orderly (dispatched followApp) := by decide
  have hthere : ⟨7, ⟨[("app", "web")], [], false⟩⟩ ∈
      ((first 1).run followApp).oldest.subscribers := by decide
  have hlast : latest ⟨"", "a"⟩ (eventsFor 7 ((first 1).output followApp)) =
      some (.ofRecord .added (belonging "1" "web")) := by decide
  have hgone : ((first 1).run followApp).Ends ((first 1).run followApp).oldest gone ⟨"", "a"⟩
      gone := .told rfl (by decide) (by decide)
  have hmoved : ((first 1).run followApp).Ends ((first 1).run followApp).oldest moved ⟨"", "a"⟩
      moved := .told rfl (by decide) (by decide)
  refine ⟨?_, ?_⟩
  · rw [(deletion_shown_iff 1 horderly rfl (oldest_mem _) hthere hlast (by decide) hgone).1]
    exact if_pos (by decide)
  · rw [Ne, (deletion_shown_iff 1 horderly rfl (oldest_mem _) hthere hlast (by decide) hmoved).2]
    decide

/-- A resource that was given to another application before it was deleted stays in the view: its
deletion is let through, and is sent to nobody. -/
theorem relabelled_stays :
    let moved : Change := .ofRecord .deleted (belonging "2" "db")
    Orderly (dispatched (followApp ++ [.dispatch moved])) ∧
    ((first 1).run followApp).oldest.subscribers = [⟨7, ⟨[("app", "web")], [], false⟩⟩] ∧
    (latest ⟨"", "a"⟩ (eventsFor 7 ((first 1).output followApp))).map (·.kind) = some .added ∧
    ((first 1).run followApp).oldest.ledger.accepts moved.resource moved.version = true ∧
    ((first 1).run followApp).sends (.dispatch moved) = [] := by decide

end Chain

end SharedWatch
