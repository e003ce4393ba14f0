import SharedWatch.Proofs.Chain

/-!
What the ledgers of a chain know of the events that were dispatched to it.

Every generation is offered every event since its session began. If the server is orderly, an
entry of any ledger therefore always stands for the latest report of its resource: a report with
a greater version replaces it, and one with the same version describes the same state. This is
`Coherent`, and it makes the ledgers of a chain differ in one thing only, in which resources they
know. The oldest ledger knows all that any other knows (`Coherent.covered`).

Main statements: `Coherent` is kept by every operation of a chain; `Coherent.shows_eq` reads the
state of a resource off the dispatched events, and `Coherent.shows_merged` says what a bookmark
keeps.
-/

namespace SharedWatch

/-- An entry stands for an event of its resource. -/
structure Reflects (en : Entry) (a : Change) : Prop where
  counted : counter? en.version = some a.number
  object : en.object = a.object
  live : en.isLive = true ↔ a.kind ≠ .deleted

namespace Reflects

theorem of_sameState {en : Entry} {a b : Change} (h : Reflects en a) (hn : a.number = b.number)
    (hs : a.SameState b) : Reflects en b where
  counted := hn ▸ h.counted
  object := h.object.trans hs.1
  live := h.live.trans (not_congr hs.2)

theorem outcome_eq {en : Entry} {a : Change} (h : Reflects en a) :
    ((some en).filter (·.isLive)).map (·.object) = a.outcome := by
  unfold Change.outcome
  by_cases ha : a.kind = .deleted
  · have hl : en.isLive = false := by
      have := mt h.live.mp (not_not.mpr ha)
      simpa using this
    simp [ha, hl, Option.filter]
  · simp [ha, h.live.mpr ha, h.object, Option.filter]

end Reflects

/-- Every ledger of the chain holds the latest reports, and the oldest knows all resources. -/
structure Coherent (past : List Change) (c : Chain) : Prop where
  orderly : Orderly past
  reflects : ∀ g ∈ c.generations, ∀ x en, g.ledger.get? x = some en →
    ∃ a, latest x past = some a ∧ Reflects en a
  covered : ∀ g ∈ c.generations, ∀ x, g.ledger.contains x = true →
    c.oldest.ledger.contains x = true

namespace Chain

/-- The ledger that a bookmark leaves, before deleted resources are forgotten. -/
def merged (c : Chain) : Ledger :=
  if c.head.resumed then c.ancestors.foldl (fun l g => l.carry g.ledger) c.head.ledger
  else c.head.ledger

theorem get?_foldl_carry (gs : List Generation) (l : Ledger) (x : ResourceName) :
    (gs.foldl (fun l g => l.carry g.ledger) l).get? x =
      (l.get? x).or (gs.findSome? (·.ledger.get? x)) := by
  induction gs generalizing l with
  | nil => simp
  | cons g rest ih =>
    rw [List.foldl_cons, ih, Ledger.get?_carry, Option.or_assoc, List.findSome?_cons]
    cases g.ledger.get? x <;> simp

theorem get?_merged (c : Chain) (x : ResourceName) :
    c.merged.get? x =
      if c.head.resumed = true then c.generations.findSome? (·.ledger.get? x)
      else c.head.ledger.get? x := by
  unfold merged generations
  by_cases hr : c.head.resumed = true
  · rw [if_pos hr, if_pos hr, get?_foldl_carry, List.findSome?_cons]
    cases c.head.ledger.get? x <;> simp
  · rw [if_neg hr, if_neg hr]

theorem mem_merged {c : Chain} {x : ResourceName} {en : Entry} (hen : c.merged.get? x = some en) :
    ∃ g ∈ c.generations, g.ledger.get? x = some en := by
  rw [get?_merged] at hen
  split at hen
  · exact List.exists_of_findSome?_eq_some hen
  · exact ⟨c.head, c.head_mem, hen⟩

end Chain

namespace Coherent
variable {past : List Change} {c : Chain}

theorem keyed (h : Coherent past c) {g : Generation} (hg : g ∈ c.generations) :
    g.ledger.Keyed := by
  intro x en hen
  obtain ⟨a, ha, hr⟩ := h.reflects g hg x en hen
  rw [hr.object]
  exact (latest_mem ha).2.2

/-- A ledger shows the last reported state of what it knows. -/
theorem shows_eq (h : Coherent past c) {g : Generation} (hg : g ∈ c.generations)
    (x : ResourceName) :
    g.ledger.shows x = if g.ledger.contains x = true then view past x else none := by
  unfold Ledger.shows Ledger.contains
  cases hen : g.ledger.get? x with
  | none => rfl
  | some en =>
    obtain ⟨a, ha, hr⟩ := h.reflects g hg x en hen
    simp [hr.outcome_eq, view_eq, ha]

/-- What a ledger lets through: a report of a resource that it does not know, or a version later
than all before. -/
theorem accepts_iff (h : Coherent past c) {g : Generation} (hg : g ∈ c.generations) {e : Change}
    (he : Admits past e) :
    g.ledger.accepts e.resource e.version = true ↔
      g.ledger.contains e.resource = true → ∀ a, latest e.resource past = some a →
        a.number < e.number := by
  obtain ⟨n, hn⟩ := he.counted
  rw [Change.number_eq hn]
  unfold Ledger.accepts Ledger.contains
  cases hen : g.ledger.get? e.resource with
  | none => simp
  | some en =>
    obtain ⟨a, ha, hr⟩ := h.reflects g hg _ en hen
    simp [ha, supersedes_iff hn hr.counted]

/-- A refused report describes the state that was reported last. -/
theorem refused (h : Coherent past c) {g : Generation} (hg : g ∈ c.generations) {e : Change}
    (he : Admits past e) (hr : ¬ g.ledger.accepts e.resource e.version = true) :
    g.ledger.contains e.resource = true ∧
      ∃ a, latest e.resource past = some a ∧ a.number = e.number ∧ a.SameState e := by
  rw [h.accepts_iff hg he] at hr
  push Not at hr
  obtain ⟨hcontains, a, ha, hge⟩ := hr
  obtain ⟨hmem, hra, hax⟩ := latest_mem ha
  have hle := he.ascending a hmem hra hax
  have heq : a.number = e.number := by omega
  exact ⟨hcontains, a, ha, heq, he.same a hmem hra hax heq⟩

theorem of_lineage (h : Coherent past c) {c' : Chain} (heq : c'.lineage = c.lineage) :
    Coherent past c' := by
  refine ⟨h.orderly, ?_, ?_⟩
  · intro g' hg' x en hen
    obtain ⟨g, hg, hl⟩ := Chain.exists_of_lineage heq hg'
    exact h.reflects g hg x en (hl ▸ hen)
  · intro g' hg' x hx
    obtain ⟨g, hg, hl⟩ := Chain.exists_of_lineage heq hg'
    rw [Chain.oldest_of_lineage heq]
    exact h.covered g hg x (hl ▸ hx)

theorem first (id : Nat) : Coherent [] (.first id) := by
  refine ⟨.nil, ?_, ?_⟩ <;> intro g hg x
  · intro en hen
    simp only [Chain.generations, Chain.first, List.mem_singleton] at hg
    subst hg
    simp [Generation.new] at hen
  · intro hx
    simp only [Chain.generations, Chain.first, List.mem_singleton] at hg
    subst hg
    exact hx

theorem advance (h : Coherent past c) (id : Nat) (resumed : Bool) :
    Coherent past (c.advance id resumed) := by
  refine ⟨h.orderly, ?_, ?_⟩ <;> intro g hg x <;> rw [Chain.generations_advance] at hg
  · intro en hen
    rcases List.mem_cons.mp hg with rfl | hg
    · simp [Generation.new] at hen
    · exact h.reflects g hg x en hen
  · intro hx
    rw [(c.oldest_advance id resumed).2]
    rcases List.mem_cons.mp hg with rfl | hg
    · simp [Generation.new, Ledger.contains] at hx
    · exact h.covered g hg x hx

theorem attachOldest (h : Coherent past c) (s : Subscriber) :
    Coherent past (c.attachOldest s) := h.of_lineage (c.lineage_attachOldest s)

theorem detach (h : Coherent past c) (id : Nat) :
    Coherent past (c.detach id) := h.of_lineage (c.lineage_detach id)

theorem skip (h : Coherent past c) {e : Change} (he : e.isReport = false) :
    Coherent (past ++ [e]) c := by
  refine ⟨h.orderly.snoc (by simp [he]), ?_, h.covered⟩
  intro g hg x en hen
  rw [latest_snoc, if_neg (by simp [he])]
  exact h.reflects g hg x en hen

/-- A report replaces the entry of its resource in every ledger, or describes the same state. -/
theorem relay (h : Coherent past c) {e : Change} (he : e.isReport = true) (ha : Admits past e) :
    Coherent (past ++ [e]) (c.relay e).1 := by
  refine ⟨h.orderly.snoc fun _ => ha, ?_, ?_⟩
  · intro g' hg' x en hen
    obtain ⟨g, hg, how, hhow, rfl⟩ := Chain.mem_relay hg'
    rw [Generation.offer_fst, Ledger.get?_accept] at hen
    rw [latest_snoc]
    by_cases hx : e.resource = x
    · rw [if_pos ⟨he, hx⟩]
      refine ⟨e, rfl, ?_⟩
      split at hen
      · cases hen
        obtain ⟨n, hn⟩ := ha.counted
        refine ⟨by rw [Change.number_eq hn]; exact hn, rfl, ?_⟩
        simpa [Entry.isLive] using not_congr (g.kindOf_deleted_iff hhow)
      · next hrefused =>
        subst hx
        obtain ⟨a, hla, hr⟩ := h.reflects g hg _ en hen
        -- refused although known: the entry already describes this state
        obtain ⟨-, b, hlb, heq, hsame⟩ := h.refused hg ha fun hacc => hrefused ⟨hacc, rfl⟩
        rw [hla] at hlb
        cases hlb
        exact hr.of_sameState heq hsame
    · rw [if_neg fun hh => hx hh.2]
      rw [if_neg fun hh => hx hh.2] at hen
      exact h.reflects g hg x en hen
  · intro g' hg' x hx
    obtain ⟨g, hg, how, -, rfl⟩ := Chain.mem_relay hg'
    rw [Generation.offer_fst, Ledger.contains_accept] at hx
    rw [Chain.oldest_relay, Generation.offer_fst, Ledger.contains_accept]
    exact hx.imp_left (h.covered g hg x)

/-- What the oldest ledger shows after a report is what the report says of its resource. -/
theorem shows_relay (h : Coherent past c) {e : Change} (he : e.isReport = true)
    (ha : Admits past e) (x : ResourceName) :
    (c.relay e).1.oldest.ledger.shows x =
      if e.resource = x then e.outcome else c.oldest.ledger.shows x := by
  have hcontains : (c.relay e).1.oldest.ledger.contains x = true ↔
      c.oldest.ledger.contains x = true ∨ e.resource = x := by
    rw [Chain.oldest_relay, Generation.offer_fst]
    exact Ledger.contains_accept _ _ _ _ x
  rw [(h.relay he ha).shows_eq (Chain.oldest_mem _), h.shows_eq c.oldest_mem, view_snoc]
  by_cases hx : e.resource = x
  · rw [if_pos (hcontains.mpr (Or.inr hx)), if_pos ⟨he, hx⟩, if_pos hx]
  · rw [if_neg (show ¬ (e.isReport = true ∧ e.resource = x) from fun hh => hx hh.2), if_neg hx]
    by_cases hc : c.oldest.ledger.contains x = true
    · rw [if_pos (hcontains.mpr (Or.inl hc)), if_pos hc]
    · rw [if_neg fun hh => (hcontains.mp hh).elim hc hx, if_neg hc]

/-! ## Bookmarks -/

theorem contains_merged (h : Coherent past c) (x : ResourceName) :
    c.merged.contains x =
      if c.head.resumed = true then c.oldest.ledger.contains x else c.head.ledger.contains x := by
  have hget := c.get?_merged x
  by_cases hr : c.head.resumed = true
  · rw [if_pos hr] at hget ⊢
    rw [Bool.eq_iff_iff]
    constructor
    · intro hx
      obtain ⟨en, hen⟩ := Ledger.contains_iff.mp hx
      obtain ⟨g, hg, hgx⟩ := Chain.mem_merged hen
      exact h.covered g hg x (Ledger.contains_iff.mpr ⟨en, hgx⟩)
    · intro hx
      obtain ⟨en, hen⟩ := Ledger.contains_iff.mp hx
      unfold Ledger.contains
      rw [hget, List.findSome?_isSome_iff]
      exact ⟨c.oldest, c.oldest_mem, by simp [hen]⟩
  · rw [if_neg hr] at hget ⊢
    simp [Ledger.contains, hget]

/-- After a resumed session a bookmark keeps all that the oldest ledger shows; after a full replay
it keeps what the newest one shows. -/
theorem shows_merged (h : Coherent past c) (x : ResourceName) :
    c.merged.shows x =
      if c.head.resumed = true then c.oldest.ledger.shows x else c.head.ledger.shows x := by
  have hview : ∀ l : Ledger, (∀ en, l.get? x = some en → ∃ g ∈ c.generations,
      g.ledger.get? x = some en) →
      l.shows x = if l.contains x = true then view past x else none := by
    intro l hl
    cases hen : l.get? x with
    | none => simp [Ledger.shows, Ledger.contains, hen]
    | some en =>
      obtain ⟨g, hg, hgx⟩ := hl en hen
      have := h.shows_eq hg x
      simp only [Ledger.shows, Ledger.contains, hgx, hen] at this ⊢
      exact this
  rw [hview c.merged fun en => Chain.mem_merged, h.contains_merged, h.shows_eq c.oldest_mem,
    h.shows_eq c.head_mem]
  split <;> rfl

theorem checkpoint (h : Coherent past c) (e : Change) : Coherent past (c.checkpoint e).1 := by
  have hget : ∀ x en, (c.checkpoint e).1.head.ledger.get? x = some en →
      c.merged.get? x = some en := by
    intro x en hen
    have hen : c.merged.prune.get? x = some en := hen
    rw [Ledger.get?_prune] at hen
    exact (Option.filter_eq_some_iff.mp hen).1
  refine ⟨h.orderly, ?_, ?_⟩ <;> intro g hg x
  · intro en hen
    rw [List.mem_singleton.mp hg] at hen
    obtain ⟨g', hg', hgx⟩ := Chain.mem_merged (hget x en hen)
    exact h.reflects g' hg' x en hgx
  · intro hx
    rw [List.mem_singleton.mp hg] at hx
    exact hx

theorem shows_checkpoint (h : Coherent past c) (e : Change) (x : ResourceName) :
    (c.checkpoint e).1.oldest.ledger.shows x =
      if c.head.resumed = true then c.oldest.ledger.shows x else c.head.ledger.shows x := by
  rw [← h.shows_merged]
  exact c.merged.shows_prune x

/-- After a bookmark the chain knows what it shows, and nothing else. -/
theorem contains_checkpoint (h : Coherent past c) (e : Change) (x : ResourceName) :
    (c.checkpoint e).1.oldest.ledger.contains x =
      (if c.head.resumed = true then c.oldest.ledger.shows x
        else c.head.ledger.shows x).isSome := by
  rw [← h.shows_merged]
  exact c.merged.contains_prune x

/-- The snapshot of a chain holds what its oldest ledger shows. -/
theorem mem_snapshot (h : Coherent past c) {r : Record} :
    r ∈ c.snapshot ↔ c.oldest.ledger.shows r.resource = some r :=
  Ledger.mem_live (h.keyed c.oldest_mem)

end Coherent

end SharedWatch
