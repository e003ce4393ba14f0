import SharedWatch.Proofs.Operations

/-!
What a subscriber without requirements reads is what the chain shows.

Everything that a dispatched event changes in the oldest ledger is sent to those who want every
resource, and nothing else is: `Coherent.view_dispatch`. A new subscriber starts from what the
ledger shows: `Coherent.view_primed`.
-/

namespace SharedWatch

/-- Whether a subscriber wants every resource. -/
def Filter.IsOpen (f : Filter) : Prop := f.labels = [] ∧ f.annotations = []

theorem Filter.IsOpen.accepts {f : Filter} (h : f.IsOpen) (r : Record) : f.accepts r = true := by
  simp [Filter.accepts, h.1, h.2]

namespace Coherent
variable {past : List Change} {c : Chain}

theorem view_primed (h : Coherent past c) {f : Filter} (hf : f.IsOpen) (x : ResourceName) :
    view (c.primed f) x = c.oldest.ledger.shows x := by
  rw [view_eq, latest, h.reportsOf_primed]
  cases c.oldest.ledger.shows x with
  | none => rfl
  | some r =>
    simp [hf.accepts, Change.outcome, Change.ofRecord]

/-- The deletions that a bookmark makes up are of the resources that the oldest ledger shows and the
newest one does not know. -/
theorem farewell_iff (h : Coherent past c) (hg : c.Gathered) {s : Subscriber}
    (hs : s ∈ c.oldest.subscribers) (hf : s.filter.IsOpen) (version : String)
    (hfull : ¬ (c.head.resumed = true ∨ c.ancestors = [])) (x : ResourceName) :
    (∃ d ∈ eventsFor s.id (c.farewells version), d.resource = x) ↔
      (c.oldest.ledger.shows x).isSome = true ∧ c.head.ledger.contains x = false := by
  rw [hg.eventsFor_farewells hs, if_neg hfull]
  have hresource : ∀ n r, c.oldest.ledger.shows n = some r → r.resource = n := by
    intro n r hn
    obtain ⟨en, hget, -, rfl⟩ := Ledger.shows_eq_some.mp hn
    exact h.keyed c.oldest_mem n en hget
  constructor
  · rintro ⟨d, hd, hx⟩
    obtain ⟨⟨n, r⟩, hmem, rfl⟩ := List.mem_map.mp hd
    obtain ⟨hknown, hvanished⟩ := List.mem_filter.mp hmem
    have hshows := Ledger.mem_known.mp hknown
    have hnx : n = x := (hresource n r hshows).symm.trans hx
    subst hnx
    simp only [Bool.and_eq_true, Bool.not_eq_true'] at hvanished
    exact ⟨by rw [hshows]; rfl, hvanished.1⟩
  · rintro ⟨hshows, hcontains⟩
    obtain ⟨r, hr⟩ := Option.isSome_iff_exists.mp hshows
    refine ⟨_, List.mem_map.mpr ⟨(x, r), ?_, rfl⟩, hresource x r hr⟩
    refine List.mem_filter.mpr ⟨Ledger.mem_known.mpr hr, ?_⟩
    simp [hcontains, hf.accepts]

theorem view_report (h : Coherent past c) (hg : c.Gathered) {s : Subscriber}
    (hs : s ∈ c.oldest.subscribers) (hf : s.filter.IsOpen) {e : Change} (he : e.isReport = true)
    (ha : Admits past e) {events : List Change}
    (hview : ∀ x, view events x = c.oldest.ledger.shows x) (x : ResourceName) :
    view (events ++ eventsFor s.id (c.sends (.dispatch e))) x =
      (c.apply (.dispatch e)).oldest.ledger.shows x := by
  rw [hg.eventsFor_report hs he, Chain.apply, (c.dispatch_report he).1, h.shows_relay he ha]
  by_cases haccepts : c.oldest.ledger.accepts e.resource e.version = true
  · have hoffer := c.lastOffer_eq e
    have hreport := Generation.kindOf_isReport c.oldest he hoffer
    have houtcome : (e.retyped (c.oldest.kindOf (c.lastOffer e) e)).outcome = e.outcome :=
      Change.SameState.outcome_eq ⟨rfl, c.oldest.kindOf_deleted_iff hoffer⟩
    rw [if_pos ⟨haccepts, hf.accepts _⟩, view_snoc, hreport, houtcome, hview]
    show (if true = true ∧ e.resource = x then e.outcome else c.oldest.ledger.shows x) = _
    simp
  · -- what is refused is known already
    rw [if_neg fun hh => haccepts hh.1, List.append_nil, hview]
    by_cases hx : e.resource = x
    · subst hx
      obtain ⟨hcontains, a, hla, -, hsame⟩ := h.refused c.oldest_mem ha haccepts
      rw [if_pos rfl, h.shows_eq c.oldest_mem, if_pos hcontains, view_eq, hla]
      exact hsame.outcome_eq
    · rw [if_neg hx]

theorem view_bookmark (h : Coherent past c) (hg : c.Gathered) {s : Subscriber}
    (hs : s ∈ c.oldest.subscribers) (hf : s.filter.IsOpen) {e : Change} (he : e.kind = .bookmark)
    {events : List Change} (hview : ∀ x, view events x = c.oldest.ledger.shows x)
    (x : ResourceName) :
    view (events ++ eventsFor s.id (c.sends (.dispatch e))) x =
      (c.apply (.dispatch e)).oldest.ledger.shows x := by
  have hmark : ∀ f ∈ if s.filter.bookmarks = true then [e] else [], f.isReport = false := by
    intro f hmem
    split at hmem
    · rw [List.mem_singleton.mp hmem]
      exact Chain.isReport_of_bookmark he
    · simp at hmem
  rw [hg.eventsFor_bookmark hs he, ← List.append_assoc, view_append_of_noReport hmark, Chain.apply,
    (c.dispatch_bookmark he).1, h.shows_checkpoint]
  by_cases hfull : c.head.resumed = true ∨ c.ancestors = []
  · rw [hg.eventsFor_farewells hs, if_pos hfull, List.append_nil, hview, Chain.kept hfull]
  · have hdeleted : ∀ d ∈ eventsFor s.id (c.farewells e.version), d.kind = .deleted := by
      intro d hd
      rw [hg.eventsFor_farewells hs, if_neg hfull] at hd
      obtain ⟨y, -, rfl⟩ := List.mem_map.mp hd
      rfl
    rw [view_append_deletions hdeleted, if_neg fun hr => hfull (Or.inl hr)]
    simp only [h.farewell_iff hg hs hf e.version hfull x]
    rw [hview, h.shows_eq c.head_mem]
    cases hhead : c.head.ledger.contains x with
    | true =>
      rw [if_neg fun hh => Bool.noConfusion hh.2, if_pos rfl, h.shows_eq c.oldest_mem,
        if_pos (h.covered c.head c.head_mem x hhead)]
    | false =>
      rw [if_neg Bool.false_ne_true]
      split
      · rfl
      · next hnone => simpa using hnone

/-- Whoever reads what the chain shows still does so after what it is sent of any event. -/
theorem view_dispatch (h : Coherent past c) (hg : c.Gathered) {s : Subscriber}
    (hs : s ∈ c.oldest.subscribers) (hf : s.filter.IsOpen) {e : Change}
    (ha : e.isReport = true → Admits past e) {events : List Change}
    (hview : ∀ x, view events x = c.oldest.ledger.shows x) (x : ResourceName) :
    view (events ++ eventsFor s.id (c.sends (.dispatch e))) x =
      (c.apply (.dispatch e)).oldest.ledger.shows x := by
  rcases Chain.isReport_cases e with he | he | he
  · exact h.view_report hg hs hf he (ha he) hview x
  · exact h.view_bookmark hg hs hf he hview x
  · rw [hg.eventsFor_error hs he, Chain.apply, (c.dispatch_error he).1,
      view_append_of_noReport (by simp [Chain.isReport_of_error he]), hview]

end Coherent

end SharedWatch
