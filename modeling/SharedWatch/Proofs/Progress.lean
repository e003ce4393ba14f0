import SharedWatch.Proofs.Dominance

/-!
What a fold remembers of how far its subscribers have got.

The newest ledger starts empty, so it lets through whatever its session sends first, an old version
as well as a new one, and the fold prefers its entries. If the session has brought a version that
the older generations had passed (`Chain.Rewinds`), the fold goes back to it, and later versions
that a subscriber was sent already are sent to it once more (`stale_replay_repeats`).

Main statement: `folds_keep_progress_iff`. In every run of counters in any order, the folds remember
the versions and refuse what was refused exactly if no session brings a resource in an earlier
version than the oldest generation knows.
-/

namespace SharedWatch

namespace Chain

/-- What a bookmark at this point would remember: of each resource that it keeps, no version earlier
than one that an older generation held, so that every subscriber is taken over and is not sent what
its generation refused. -/
structure KeepsProgress (c : Chain) : Prop where
  versions : ∀ b : Change, b.kind = .bookmark →
    ∀ x en, (c.dispatch b).1.head.ledger.get? x = some en →
      ∀ g ∈ c.ancestors, ∀ old, g.ledger.get? x = some old → old.number ≤ en.number
  refusals : ∀ b : Change, b.kind = .bookmark →
    ∀ g ∈ c.generations, ∀ s ∈ g.subscribers,
      s ∈ (c.dispatch b).1.head.subscribers ∧
      ∀ x version, (∃ n, counter? version = some n) → g.ledger.accepts x version = false →
        (c.dispatch b).1.head.ledger.contains x = true →
        (c.dispatch b).1.head.ledger.accepts x version = false

/-- Whether an event brings a resource to the newest generation in a version that the oldest one has
passed. -/
structure Rewinds (c : Chain) (e : Change) : Prop where
  report : e.isReport = true
  live : e.kind ≠ .deleted
  taken : c.head.ledger.accepts e.resource e.version = true
  passed : ∃ old ∈ c.oldest.ledger.get? e.resource, e.number < old.number

instance (c : Chain) (e : Change) : Decidable (c.Rewinds e) :=
  decidable_of_iff
    (e.isReport = true ∧ e.kind ≠ .deleted ∧ c.head.ledger.accepts e.resource e.version = true ∧
      ∃ old ∈ c.oldest.ledger.get? e.resource, e.number < old.number)
    ⟨fun ⟨report, live, taken, passed⟩ => ⟨report, live, taken, passed⟩,
      fun ⟨report, live, taken, passed⟩ => ⟨report, live, taken, passed⟩⟩

/-- Live entries of all generations hold the version that the oldest ledger holds. -/
def Level (c : Chain) : Prop :=
  ∀ g ∈ c.generations, ∀ x en, g.ledger.get? x = some en → en.isLive = true →
    ∀ old, c.oldest.ledger.get? x = some old → old.number = en.number

variable {c : Chain}

/-! ## Level chains fold well -/

/-- What a fold of a level chain keeps has the version of the oldest ledger, which is ahead of all.
-/
theorem Level.le_folded (h : c.Level) (hl : c.Layered) {b : Change} {x : ResourceName} {en : Entry}
    (hen : (c.checkpoint b).1.head.ledger.get? x = some en) {g : Generation}
    (hg : g ∈ c.generations) {old : Entry} (hold : g.ledger.get? x = some old) :
    old.number ≤ en.number := by
  obtain ⟨hlive, g', hg', hget⟩ := exists_of_folded hen
  obtain ⟨last, hlast, hle⟩ := hl.oldest_leads hg x old hold
  rw [← h g' hg' x en hget hlive last hlast]
  exact hle

theorem Level.keepsProgress (h : c.Level) (hl : c.Layered) (hg : c.Gathered) :
    c.KeepsProgress := by
  constructor
  · intro b hb x en hen g hgc old hold
    rw [(c.dispatch_bookmark hb).1] at hen
    exact h.le_folded hl hen (List.mem_cons_of_mem _ hgc) hold
  · intro b hb g hgc s hs
    rw [(c.dispatch_bookmark hb).1]
    refine ⟨?_, fun x version hn hrefused hcontains => ?_⟩
    · rw [hg.checkpoint_subscribers]
      exact hg.mem_oldest hgc hs
    · obtain ⟨n, hn⟩ := hn
      obtain ⟨old, hold, hle⟩ := ((hl.counts g hgc).refuses_iff hn).mp hrefused
      obtain ⟨en, hen⟩ := Ledger.contains_iff.mp hcontains
      have hcounts : (c.checkpoint b).1.head.ledger.Counts :=
        (hl.checkpoint b).counts _ (head_mem _)
      have hprogress : old.number ≤ en.number := h.le_folded hl hen hgc hold
      exact (hcounts.refuses_iff hn).mpr ⟨en, hen, Nat.le_trans hle hprogress⟩

/-! ## What keeps a chain level -/

namespace Level

theorem of_single (h : c.ancestors = []) : c.Level := by
  intro g hg x en hen _ old hold
  have hgen : c.generations = [c.head] := by rw [generations, h]
  rw [hgen] at hg
  rw [List.mem_singleton.mp hg] at hen
  rw [oldest_of_single h, hen] at hold
  cases hold
  rfl

theorem of_lineage (h : c.Level) {c' : Chain} (heq : c'.lineage = c.lineage) : c'.Level := by
  intro g' hg' x en hen hlive old hold
  obtain ⟨g, hg, hsame⟩ := exists_of_lineage heq hg'
  rw [oldest_of_lineage heq] at hold
  rw [← hsame] at hen
  exact h g hg x en hen hlive old hold

theorem advance (h : c.Level) (id : Nat) (resumed : Bool) : (c.advance id resumed).Level := by
  intro g hg x en hen hlive old hold
  rw [(c.oldest_advance id resumed).2] at hold
  rcases List.mem_cons.mp hg with rfl | hg
  · cases hen
  · exact h g hg x en hen hlive old hold

/-- A report that does not rewind takes whoever lets it through to the version of the oldest. -/
theorem relay (h : c.Level) (hl : c.Layered) {e : Change} (he : e.isReport = true) {n : Nat}
    (hn : counter? e.version = some n) (hstill : ¬ c.Rewinds e) : (c.relay e).1.Level := by
  intro g' hg' x en hen hlive old hold
  obtain ⟨g, hg, how, hhow, rfl⟩ := mem_relay hg'
  have hcounts : g.ledger.Counts := hl.counts g hg
  have holdest : c.oldest.ledger.Counts := hl.counts _ c.oldest_mem
  rw [Generation.offer_fst, Ledger.get?_accept] at hen
  rw [oldest_relay, Generation.offer_fst, Ledger.get?_accept] at hold
  split at hen
  · next hit =>
    obtain ⟨htaken, rfl⟩ := hit
    cases hen
    rw [Entry.number_mk hn]
    split at hold
    · cases hold
      exact Entry.number_mk hn _ _
    · next hmiss =>
      have hrefused : c.oldest.ledger.accepts e.object.resource e.version = false := by
        simpa using hmiss
      obtain ⟨last, hlast, hle⟩ := (holdest.refuses_iff hn).mp hrefused
      rw [hold] at hlast
      cases hlast
      -- the newest generation is behind this one, so it takes the event as well
      have hhead : c.head.ledger.accepts e.resource e.version = true :=
        (hl.leads_head hg).accepts hcounts (hl.counts _ c.head_mem) hn htaken
      have hkind : e.kind ≠ .deleted := by
        intro hk
        simp [Entry.isLive, (g.kindOf_deleted_iff hhow).mpr hk] at hlive
      by_contra hne
      have hpassed : e.number < old.number := by
        rw [Change.number_eq hn]
        omega
      exact hstill ⟨he, hkind, hhead, old, hold, hpassed⟩
  · next hmiss =>
    split at hold
    · next hit =>
      -- what the oldest takes nobody refuses
      obtain ⟨htaken, rfl⟩ := hit
      have haccepts : g.ledger.accepts e.object.resource e.version = true :=
        (hl.oldest_leads hg).accepts holdest hcounts hn htaken
      exact absurd ⟨haccepts, rfl⟩ hmiss
    · exact h g hg x en hen hlive old hold

theorem apply (h : c.Level) (hl : c.Layered) {op : ChainOp}
    (hop : Counted (dispatched [op])) (hstill : ∀ e, op = .dispatch e → ¬ c.Rewinds e) :
    (c.apply op).Level := by
  cases op with
  | advance id resumed => exact h.advance id resumed
  | attach s => exact h.of_lineage (c.lineage_attachOldest s)
  | detach id => exact h.of_lineage (c.lineage_detach id)
  | dispatch e =>
    simp only [Chain.apply]
    rcases isReport_cases e with he | he | he
    · obtain ⟨n, hn⟩ := hop e (by simp [dispatched_singleton, ChainOp.event?]) he
      rw [(c.dispatch_report he).1]
      exact h.relay hl he hn (hstill e rfl)
    · rw [(c.dispatch_bookmark he).1]
      exact of_single rfl
    · rw [(c.dispatch_error he).1]
      exact h

end Level

theorem run_level (n : Nat) {ops : List ChainOp} (hcounted : Counted (dispatched ops))
    (hstill : ∀ before e, before ++ [.dispatch e] <+: ops → ¬ ((first n).run before).Rewinds e) :
    ((first n).run ops).Level := by
  induction ops using List.reverseRecOn with
  | nil => exact .of_single rfl
  | append_singleton ops op ih =>
    rw [dispatched_append] at hcounted
    have hbefore := ih hcounted.of_append fun before e hp =>
      hstill before e (hp.trans (List.prefix_append _ _))
    rw [run_snoc]
    refine hbefore.apply (run_layered n hcounted.of_append) ?_ ?_
    · exact fun e he => hcounted e (List.mem_append_right _ he)
    · rintro e rfl
      exact hstill ops e (List.prefix_refl _)

/-! ## What makes a fold forget -/

theorem get?_merged_of_head {x : ResourceName} {en : Entry}
    (h : c.head.ledger.get? x = some en) : c.merged.get? x = some en := by
  rw [get?_merged]
  split
  · rw [generations, List.findSome?_cons, h]
  · exact h

/-- After an event that rewinds, a fold goes back to it. -/
theorem Rewinds.not_keepsProgress {e : Change} (h : c.Rewinds e) (hl : c.Layered) {n : Nat}
    (hn : counter? e.version = some n) : ¬ (c.dispatch e).1.KeepsProgress := by
  obtain ⟨old, hold, hpassed⟩ := h.passed
  rw [Change.number_eq hn] at hpassed
  rw [(c.dispatch_report h.report).1]
  have hoff : c.ancestors ≠ [] := by
    intro hsingle
    rw [oldest_of_single hsingle] at hold
    have hlt := ((hl.counts _ c.head_mem).accepts_iff hn).mp h.taken old hold
    omega
  have hhead : (c.relay e).1.head.ledger.get? e.resource = some ⟨e.version, e.kind, e.object⟩ := by
    show (c.head.offer (.fresh e.kind) e).1.ledger.get? e.resource = _
    rw [Generation.offer_fst, Ledger.get?_accept, if_pos ⟨h.taken, rfl⟩]
    rfl
  have hlast : (c.relay e).1.oldest.ledger.get? e.resource = some old := by
    have hrefused : c.oldest.ledger.accepts e.object.resource e.version = false :=
      ((hl.counts _ c.oldest_mem).refuses_iff hn).mpr ⟨old, hold, Nat.le_of_lt hpassed⟩
    rw [oldest_relay, Generation.offer_fst, Ledger.get?_accept, if_neg (by simp [hrefused])]
    exact hold
  have hmember : (c.relay e).1.oldest ∈ (c.relay e).1.ancestors := by
    have hoff' : (c.relay e).1.ancestors ≠ [] := by simpa [Chain.relay] using hoff
    obtain ⟨front, hfront, -⟩ := exists_front hoff'
    rw [hfront]
    simp
  intro hkeeps
  have hfolded : ((c.relay e).1.dispatch (.bookmark "")).1.head.ledger.get? e.resource =
      some ⟨e.version, e.kind, e.object⟩ := by
    rw [(dispatch_bookmark _ rfl).1, get?_checkpoint, get?_merged_of_head hhead]
    exact Option.filter_eq_some_iff.mpr ⟨rfl, by simpa [Entry.isLive] using h.live⟩
  have hle := hkeeps.versions _ rfl _ _ hfolded _ hmember old hlast
  rw [Entry.number_mk hn] at hle
  omega

/-- In a run whose versions are counters, in any order, every fold keeps progress exactly if no
event takes the newest generation to a version that the oldest has passed. -/
theorem folds_keep_progress_iff (n : Nat) {ops : List ChainOp}
    (hcounted : Counted (dispatched ops)) :
    (∀ before, before <+: ops → ((first n).run before).KeepsProgress) ↔
      ∀ before e, before ++ [.dispatch e] <+: ops → ¬ ((first n).run before).Rewinds e := by
  constructor
  · intro hkeeps before e hp hrewinds
    have hpast : Counted (dispatched before ++ dispatched [.dispatch e]) := by
      obtain ⟨rest, rfl⟩ := hp
      rw [dispatched_append, dispatched_append] at hcounted
      exact hcounted.of_append
    obtain ⟨m, hm⟩ := hpast e (by simp [dispatched_singleton, ChainOp.event?]) hrewinds.report
    have hafter := hkeeps _ hp
    rw [run_snoc] at hafter
    exact hrewinds.not_keepsProgress (run_layered n hpast.of_append) hm hafter
  · intro hstill before hp
    have hpast : Counted (dispatched before) := by
      obtain ⟨rest, rfl⟩ := hp
      rw [dispatched_append] at hcounted
      exact hcounted.of_append
    have hlevel := run_level n hpast fun start e hq => hstill start e (hq.trans hp)
    exact hlevel.keepsProgress (run_layered n hpast) (run_gathered n before)

/-- A version comes late once more, and a new session replays the resource as it is. -/
def repeatedVersions : List ChainOp :=
  let a : String → Record := fun version => { Record.empty with name := "a", version }
  [.attach ⟨7, .everything⟩, .dispatch (.ofRecord .added (a "10")),
    .dispatch (.ofRecord .modified (a "5")), .advance 2 false,
    .dispatch (.ofRecord .added (a "10"))]

theorem folds_keep_progress_iff_repeatedVersions :
    Counted (dispatched repeatedVersions) ∧
      ∀ before, before <+: repeatedVersions → ((first 1).run before).KeepsProgress := by
  have hcounted : Counted (dispatched repeatedVersions) := by
    intro e he _
    simp only [repeatedVersions, dispatched, ChainOp.event?, List.filterMap] at he
    simp only [List.mem_cons, List.not_mem_nil, or_false] at he
    rcases he with rfl | rfl | rfl <;> exact ⟨_, rfl⟩
  refine ⟨hcounted, (folds_keep_progress_iff 1 hcounted).mpr fun before e hp => ?_⟩
  obtain ⟨rest, hrest⟩ := hp
  rw [List.append_assoc, List.singleton_append] at hrest
  rcases before with _ | ⟨o₁, _ | ⟨o₂, _ | ⟨o₃, _ | ⟨o₄, _ | ⟨o₅, more⟩⟩⟩⟩⟩ <;>
    first | cases hrest | simp [repeatedVersions] at hrest
  · decide
  · decide
  · decide

/-- A new session replays a resource as it was before. -/
def staleReplay : List ChainOp :=
  let a : String → Record := fun version => { Record.empty with name := "a", version }
  [.attach ⟨7, .everything⟩, .dispatch (.ofRecord .added (a "10")), .advance 2 false,
    .dispatch (.ofRecord .added (a "5"))]

/-- The fold keeps the replayed version, and the subscriber is sent the later one again. -/
theorem stale_replay_repeats :
    let a : Record := { Record.empty with name := "a", version := "10" }
    let c := (first 1).run staleReplay
    let folded := (c.dispatch (.bookmark "20")).1
    eventsFor 7 (c.sends (.dispatch (.ofRecord .modified a))) = [] ∧
      (folded.head.ledger.get? a.resource).map (·.version) = some "5" ∧
      eventsFor 7 (folded.sends (.dispatch (.ofRecord .modified a))) =
        [.ofRecord .modified a] ∧
      ¬ c.KeepsProgress := by
  refine ⟨by decide, by decide, by decide, fun h => ?_⟩
  exact absurd (h.versions (.bookmark "20") rfl ⟨"", "a"⟩ _ rfl _ (List.mem_singleton_self _) _ rfl)
    (by decide)

end Chain

end SharedWatch
