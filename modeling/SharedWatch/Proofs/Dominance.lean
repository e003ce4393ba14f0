import SharedWatch.Proofs.Operations

/-!
Older generations are ahead of newer ones.

Every event is offered to all generations, so what a ledger has let through was offered to the
ledgers before it as well; each of them took it, or had this version or a later one already. Nothing
is asked of the server but that its versions are counters: they may come in any order and repeat.

Main statement: `Chain.run_layered`. In every run a ledger knows all resources that a newer ledger
knows, none of them in an earlier version (`Ledger.Leads`).
-/

namespace SharedWatch

/-- The number that the version of an entry stands for; zero when it is no counter. -/
def Entry.number (en : Entry) : Nat := (counter? en.version).getD 0

theorem Entry.number_eq {en : Entry} {n : Nat} (h : counter? en.version = some n) :
    en.number = n := by
  simp [number, h]

theorem Entry.number_mk {version : String} {n : Nat} (h : counter? version = some n)
    (kind : ChangeKind) (object : Record) : (⟨version, kind, object⟩ : Entry).number = n := by
  simp [number, h]

/-- Whether the versions of all reports are counters. -/
def Counted (events : List Change) : Prop :=
  ∀ e ∈ events, e.isReport = true → ∃ n, counter? e.version = some n

theorem Counted.of_append {past more : List Change} (h : Counted (past ++ more)) : Counted past :=
  fun e he => h e (List.mem_append_left _ he)

namespace Ledger

/-! ## Versions in one ledger -/

/-- Whether all versions in a ledger are counters. -/
def Counts (l : Ledger) : Prop := ∀ x en, l.get? x = some en → ∃ n, counter? en.version = some n

section Offered
variable {l : Ledger} {kind : ChangeKind} {object : Record} {version : String} {n : Nat}

theorem Counts.accepts_iff (h : l.Counts) (hn : counter? version = some n) {x : ResourceName} :
    l.accepts x version = true ↔ ∀ en, l.get? x = some en → en.number < n := by
  unfold accepts
  cases hx : l.get? x with
  | none => simp
  | some en =>
    obtain ⟨m, hm⟩ := h x en hx
    simp [supersedes_iff hn hm, Entry.number_eq hm]

theorem Counts.refuses_iff (h : l.Counts) (hn : counter? version = some n) {x : ResourceName} :
    l.accepts x version = false ↔ ∃ en, l.get? x = some en ∧ n ≤ en.number := by
  rw [← Bool.not_eq_true, h.accepts_iff hn]
  simp only [not_forall, Nat.not_lt, exists_prop]

theorem Counts.accept (h : l.Counts) (hn : counter? version = some n) :
    (l.accept kind object version).Counts := by
  intro x en hen
  rw [get?_accept] at hen
  split at hen
  · cases hen
    exact ⟨n, hn⟩
  · exact h x en hen

/-- Offers never take a resource back. -/
theorem Counts.le_accept (h : l.Counts) (hn : counter? version = some n) {x : ResourceName}
    {en : Entry} (hen : l.get? x = some en) :
    ∃ en', (l.accept kind object version).get? x = some en' ∧ en.number ≤ en'.number := by
  rw [get?_accept]
  split
  · next hit =>
    obtain ⟨haccepts, rfl⟩ := hit
    have hlt : en.number < n := (h.accepts_iff hn).mp haccepts en hen
    refine ⟨_, rfl, ?_⟩
    rw [Entry.number_mk hn]
    omega
  · exact ⟨en, hen, Nat.le_refl _⟩

/-- An offered version is reached, whether it was let through or not. -/
theorem Counts.reached (h : l.Counts) (hn : counter? version = some n) :
    ∃ en, (l.accept kind object version).get? object.resource = some en ∧ n ≤ en.number := by
  rw [get?_accept]
  cases haccepts : l.accepts object.resource version with
  | true => exact ⟨_, if_pos ⟨rfl, rfl⟩, Nat.le_of_eq (Entry.number_mk hn kind object).symm⟩
  | false =>
    obtain ⟨en, hen, hle⟩ := (h.refuses_iff hn).mp haccepts
    exact ⟨en, by simp [hen], hle⟩

end Offered

/-! ## Two ledgers -/

/-- Whether a ledger knows each resource that another knows, in no earlier version. -/
def Leads (older newer : Ledger) : Prop :=
  ∀ x en, newer.get? x = some en → ∃ old, older.get? x = some old ∧ en.number ≤ old.number

theorem leads_refl (l : Ledger) : l.Leads l := fun _ en hen => ⟨en, hen, Nat.le_refl _⟩

theorem leads_empty (l : Ledger) : l.Leads .empty := nofun

/-- What a ledger lets through, those behind it let through as well. -/
theorem Leads.accepts {older newer : Ledger} (h : older.Leads newer) (holder : older.Counts)
    (hnewer : newer.Counts) {version : String} {n : Nat} (hn : counter? version = some n)
    {x : ResourceName} (htaken : older.accepts x version = true) :
    newer.accepts x version = true := by
  refine (hnewer.accepts_iff hn).mpr fun en hen => ?_
  obtain ⟨old, hold, hle⟩ := h x en hen
  have hlt := (holder.accepts_iff hn).mp htaken old hold
  omega

/-- A ledger stays ahead of another if both are offered an event, even under different kinds. -/
theorem Leads.accept {older newer : Ledger} (h : older.Leads newer) (holder : older.Counts)
    {version : String} {n : Nat} (hn : counter? version = some n) (kind kind' : ChangeKind)
    (object : Record) :
    (older.accept kind object version).Leads (newer.accept kind' object version) := by
  intro x en hen
  rw [get?_accept] at hen
  split at hen
  · next hit =>
    obtain ⟨-, rfl⟩ := hit
    cases hen
    rw [Entry.number_mk hn]
    exact holder.reached hn
  · obtain ⟨old, hold, hle⟩ := h x en hen
    have hkept : ∃ old', (older.accept kind object version).get? x = some old' ∧
        old.number ≤ old'.number := holder.le_accept hn hold
    obtain ⟨old', hold', hle'⟩ := hkept
    exact ⟨old', hold', Nat.le_trans hle hle'⟩

end Ledger

/-! ## The generations of a chain -/

namespace Chain

theorem get?_checkpoint (c : Chain) (b : Change) (x : ResourceName) :
    (c.checkpoint b).1.head.ledger.get? x = (c.merged.get? x).filter (·.isLive) :=
  c.merged.get?_prune x

/-- What a fold keeps is live in some generation. -/
theorem exists_of_folded {c : Chain} {b : Change} {x : ResourceName} {en : Entry}
    (h : (c.checkpoint b).1.head.ledger.get? x = some en) :
    en.isLive = true ∧ ∃ g ∈ c.generations, g.ledger.get? x = some en := by
  rw [get?_checkpoint] at h
  obtain ⟨hmerged, hlive⟩ := Option.filter_eq_some_iff.mp h
  exact ⟨hlive, mem_merged hmerged⟩

/-- The ledgers hold counters, and each is ahead of the newer ones. -/
structure Layered (c : Chain) : Prop where
  counts : ∀ g ∈ c.generations, g.ledger.Counts
  leads : c.generations.Pairwise fun newer older => older.ledger.Leads newer.ledger

namespace Layered
variable {c : Chain}

theorem first (n : Nat) : (Chain.first n).Layered :=
  ⟨fun g hg => by rw [List.mem_singleton.mp hg]; exact nofun, List.pairwise_singleton _ _⟩

/-- The oldest ledger is ahead of all. -/
theorem oldest_leads (h : c.Layered) {g : Generation} (hg : g ∈ c.generations) :
    c.oldest.ledger.Leads g.ledger := by
  have hleads := h.leads
  rw [c.generations_eq] at hg hleads
  rcases List.mem_append.mp hg with hnewer | holdest
  · exact (List.pairwise_append.mp hleads).2.2 g hnewer _ (List.mem_singleton_self _)
  · rw [List.mem_singleton.mp holdest]
    exact Ledger.leads_refl _

/-- All ledgers are ahead of the newest. -/
theorem leads_head (h : c.Layered) {g : Generation} (hg : g ∈ c.generations) :
    g.ledger.Leads c.head.ledger := by
  rcases List.mem_cons.mp hg with rfl | hg
  · exact Ledger.leads_refl _
  · exact (List.pairwise_cons.mp h.leads).1 g hg

theorem of_lineage (h : c.Layered) {c' : Chain} (heq : c'.lineage = c.lineage) : c'.Layered := by
  constructor
  · intro g' hg'
    obtain ⟨g, hg, hsame⟩ := exists_of_lineage heq hg'
    rw [← hsame]
    exact h.counts g hg
  · have hiff : ∀ d : Chain, d.lineage.Pairwise (fun newer older => older.2.Leads newer.2) ↔
        d.generations.Pairwise fun newer older => older.ledger.Leads newer.ledger :=
      fun d => List.pairwise_map
    rw [← hiff, heq, hiff]
    exact h.leads

theorem advance (h : c.Layered) (id : Nat) (resumed : Bool) : (c.advance id resumed).Layered := by
  constructor
  · intro g hg
    rcases List.mem_cons.mp hg with rfl | hg
    · exact nofun
    · exact h.counts g hg
  · exact List.pairwise_cons.mpr ⟨fun g _ => g.ledger.leads_empty, h.leads⟩

theorem relay (h : c.Layered) {e : Change} {n : Nat} (hn : counter? e.version = some n) :
    (c.relay e).1.Layered := by
  have hcounts := h.counts
  have hleads := h.leads
  constructor
  · intro g' hg'
    obtain ⟨g, hg, how, -, rfl⟩ := mem_relay hg'
    rw [Generation.offer_fst]
    exact (hcounts g hg).accept hn
  · obtain ⟨hhead, hancestors⟩ := List.pairwise_cons.mp hleads
    have hcounts' : ∀ g ∈ c.ancestors, g.ledger.Counts := fun g hg =>
      hcounts g (List.mem_cons_of_mem _ hg)
    rw [generations_relay, List.pairwise_cons, List.pairwise_map]
    refine ⟨fun g' hg' => ?_, hancestors.imp_of_mem fun {newer older} _ holder hlead => ?_⟩
    · obtain ⟨g, hg, rfl⟩ := List.mem_map.mp hg'
      rw [Generation.offer_fst, Generation.offer_fst]
      exact (hhead g hg).accept (hcounts' g hg) hn _ _ _
    · rw [Generation.offer_fst, Generation.offer_fst]
      exact hlead.accept (hcounts' older holder) hn _ _ _

theorem checkpoint (h : c.Layered) (b : Change) : (c.checkpoint b).1.Layered := by
  refine ⟨?_, List.pairwise_singleton _ _⟩
  intro g hg x en hen
  rw [List.mem_singleton.mp hg] at hen
  obtain ⟨-, g', hg', hget⟩ := exists_of_folded hen
  exact h.counts g' hg' x en hget

theorem apply (h : c.Layered) (op : ChainOp) (hop : Counted (dispatched [op])) :
    (c.apply op).Layered := by
  cases op with
  | advance id resumed => exact h.advance id resumed
  | attach s => exact h.of_lineage (c.lineage_attachOldest s)
  | detach id => exact h.of_lineage (c.lineage_detach id)
  | dispatch e =>
    simp only [Chain.apply]
    rcases isReport_cases e with he | he | he
    · obtain ⟨n, hn⟩ := hop e (by simp [dispatched_singleton, ChainOp.event?]) he
      rw [(c.dispatch_report he).1]
      exact h.relay hn
    · rw [(c.dispatch_bookmark he).1]
      exact h.checkpoint e
    · rw [(c.dispatch_error he).1]
      exact h

end Layered

theorem run_layered (n : Nat) {ops : List ChainOp} (h : Counted (dispatched ops)) :
    ((first n).run ops).Layered := by
  induction ops using List.reverseRecOn with
  | nil => exact .first n
  | append_singleton ops op ih =>
    rw [dispatched_append] at h
    rw [run_snoc]
    exact (ih h.of_append).apply op fun e he =>
      h e (List.mem_append_right _ he)

end Chain

end SharedWatch
