import SharedWatch.Proofs.Dominance

/-!
The oldest ledger of a chain knows most.

Here subscribers may join the newest generation as well as the oldest, and the events may be any, in
any order. What a ledger holds was dispatched (`go_recorded`), and the older of two ledgers is ahead
of the newer one (`go_layered`).

Main statement: `oldest_dominates`. Of two generations the older one knows every resource that the
newer one knows, in no smaller version, so the state that new subscribers start from has the
greatest version of each resource that stands anywhere in the chain.
-/

namespace SharedWatch

/-- One move of a chain whose newest generation may be joined too. -/
inductive ChainMove where
  | make (op : ChainOp)
  /-- A subscriber joins the newest generation. -/
  | attachHead (s : Subscriber)

namespace ChainMove

/-- The event that the move dispatches. -/
def event? : ChainMove → Option Change
  | .make op => op.event?
  | .attachHead _ => none

/-- The events that some moves dispatch, in order. -/
def events (moves : List ChainMove) : List Change := moves.filterMap event?

theorem events_append (p q : List ChainMove) : events (p ++ q) = events p ++ events q :=
  List.filterMap_append

end ChainMove

/-- Whether an entry was made for one of some events about its resource. -/
def Entry.MadeFor (en : Entry) (events : List Change) (x : ResourceName) : Prop :=
  ∃ e ∈ events, e.resource = x ∧ en.version = e.version ∧ en.object = e.object

theorem Entry.MadeFor.append {en : Entry} {events : List Change} {x : ResourceName}
    (h : en.MadeFor events x) (more : List Change) : en.MadeFor (events ++ more) x := by
  obtain ⟨e, he, hmade⟩ := h
  exact ⟨e, List.mem_append_left _ he, hmade⟩

/-- Whether a ledger knows each resource that another knows, in a version that is no smaller number.
-/
def Ledger.Dominates (older newer : Ledger) : Prop :=
  ∀ x en, newer.get? x = some en → ∃ old m n, older.get? x = some old ∧
    counter? en.version = some m ∧ counter? old.version = some n ∧ m ≤ n

theorem Ledger.Leads.dominates {older newer : Ledger} (h : older.Leads newer)
    (holder : older.Counts) (hnewer : newer.Counts) : older.Dominates newer := by
  intro x en hen
  obtain ⟨old, hold, hle⟩ := h x en hen
  obtain ⟨m, hm⟩ := hnewer x en hen
  obtain ⟨n, hn⟩ := holder x old hold
  rw [Entry.number_eq hm, Entry.number_eq hn] at hle
  exact ⟨old, m, n, hold, hm, hn, hle⟩

namespace Chain

/-- The chain after a move. -/
def move (c : Chain) : ChainMove → Chain
  | .make op => c.apply op
  | .attachHead s => c.attachHead s

/-- The chain after some moves, in order. -/
def go (c : Chain) (moves : List ChainMove) : Chain := moves.foldl move c

theorem go_snoc (c : Chain) (moves : List ChainMove) (m : ChainMove) :
    c.go (moves ++ [m]) = (c.go moves).move m := by
  simp [go]

/-! ## Where entries come from -/

/-- Whether all entries were made for some of the events. -/
def Recorded (c : Chain) (events : List Change) : Prop :=
  ∀ g ∈ c.generations, ∀ x en, g.ledger.get? x = some en → en.MadeFor events x

namespace Recorded
variable {c : Chain} {past : List Change}

theorem of_lineage (h : c.Recorded past) {c' : Chain} (heq : c'.lineage = c.lineage) :
    c'.Recorded past := by
  intro g' hg' x en hen
  obtain ⟨g, hg, hsame⟩ := exists_of_lineage heq hg'
  rw [← hsame] at hen
  exact h g hg x en hen

theorem advance (h : c.Recorded past) (id : Nat) (resumed : Bool) :
    (c.advance id resumed).Recorded past := by
  intro g hg x en hen
  rcases List.mem_cons.mp hg with rfl | hg
  · cases hen
  · exact h g hg x en hen

theorem relay (h : c.Recorded past) (e : Change) : (c.relay e).1.Recorded (past ++ [e]) := by
  intro g' hg' x en hen
  obtain ⟨g, hg, how, -, rfl⟩ := mem_relay hg'
  rw [Generation.offer_fst, Ledger.get?_accept] at hen
  split at hen
  · next hit =>
    cases hen
    exact ⟨e, by simp, hit.2, rfl, rfl⟩
  · exact (h g hg x en hen).append _

theorem checkpoint (h : c.Recorded past) (b : Change) : (c.checkpoint b).1.Recorded past := by
  intro g hg x en hen
  rw [List.mem_singleton.mp hg] at hen
  obtain ⟨-, g', hg', hget⟩ := exists_of_folded hen
  exact h g' hg' x en hget

theorem append (h : c.Recorded past) (more : List Change) : c.Recorded (past ++ more) :=
  fun g hg x en hen => (h g hg x en hen).append more

theorem dispatch (h : c.Recorded past) (e : Change) :
    (c.dispatch e).1.Recorded (past ++ [e]) := by
  rcases isReport_cases e with he | he | he
  · rw [(c.dispatch_report he).1]
    exact h.relay e
  · rw [(c.dispatch_bookmark he).1]
    exact (h.checkpoint e).append [e]
  · rw [(c.dispatch_error he).1]
    exact h.append [e]

theorem move (h : c.Recorded past) (m : ChainMove) :
    (c.move m).Recorded (past ++ ChainMove.events [m]) := by
  cases m with
  | attachHead s => exact (h.of_lineage (c.lineage_attachHead s)).append _
  | make op =>
    cases op with
    | advance id resumed => exact (h.advance id resumed).append _
    | attach s => exact (h.of_lineage (c.lineage_attachOldest s)).append _
    | detach id => exact (h.of_lineage (c.lineage_detach id)).append _
    | dispatch e => exact h.dispatch e

/-- Entries stand under the resources of their objects. -/
theorem keyed (h : c.Recorded past) {g : Generation} (hg : g ∈ c.generations) :
    g.ledger.Keyed := by
  intro x en hen
  obtain ⟨e, -, hx, -, hobject⟩ := h g hg x en hen
  rw [hobject]
  exact hx

end Recorded

theorem go_recorded (n : Nat) (moves : List ChainMove) :
    ((first n).go moves).Recorded (ChainMove.events moves) := by
  induction moves using List.reverseRecOn with
  | nil =>
    intro g hg x en hen
    rw [List.mem_singleton.mp hg] at hen
    cases hen
  | append_singleton moves m ih =>
    rw [go_snoc, ChainMove.events_append]
    exact ih.move m

/-! ## Older and newer ledgers -/

theorem Layered.move {c : Chain} (h : c.Layered) (m : ChainMove)
    (hm : Counted (ChainMove.events [m])) : (c.move m).Layered := by
  cases m with
  | make op => exact h.apply op hm
  | attachHead s => exact h.of_lineage (c.lineage_attachHead s)

theorem go_layered (n : Nat) {moves : List ChainMove} (h : Counted (ChainMove.events moves)) :
    ((first n).go moves).Layered := by
  induction moves using List.reverseRecOn with
  | nil => exact .first n
  | append_singleton moves m ih =>
    rw [ChainMove.events_append] at h
    rw [go_snoc]
    exact (ih h.of_append).move m fun e he => h e (List.mem_append_right _ he)

/-- The older of two generations dominates the newer one, the oldest dominates all, and each object
of the snapshot stands there in the greatest version that any generation has of its resource. -/
theorem oldest_dominates (n : Nat) {moves : List ChainMove}
    (h : Counted (ChainMove.events moves)) :
    let c := (first n).go moves
    (∀ newest newer older, c.generations = newest ++ newer :: older →
      ∀ g ∈ older, g.ledger.Dominates newer.ledger) ∧
    (∀ g ∈ c.generations, c.oldest.ledger.Dominates g.ledger) ∧
    ∀ r ∈ c.snapshot, ∃ last, c.oldest.ledger.get? r.resource = some last ∧ last.object = r ∧
      ∀ g ∈ c.generations, ∀ en, g.ledger.get? r.resource = some en →
        ∃ m k, counter? en.version = some m ∧ counter? last.version = some k ∧ m ≤ k := by
  intro c
  have hlayered : c.Layered := go_layered n h
  have holdest : ∀ g ∈ c.generations, c.oldest.ledger.Dominates g.ledger := fun g hg =>
    (hlayered.oldest_leads hg).dominates (hlayered.counts _ c.oldest_mem) (hlayered.counts g hg)
  refine ⟨?_, holdest, ?_⟩
  · intro newest newer older hsplit g hg
    have hleads := hlayered.leads
    have hcounts := hlayered.counts
    rw [hsplit] at hleads hcounts
    have hpair : g.ledger.Leads newer.ledger :=
      (List.pairwise_cons.mp (List.pairwise_append.mp hleads).2.1).1 g hg
    exact hpair.dominates (hcounts g (by simp [hg])) (hcounts newer (by simp))
  · intro r hr
    have hkeyed : c.oldest.ledger.Keyed := (go_recorded n moves).keyed c.oldest_mem
    have hshows : c.oldest.ledger.shows r.resource = some r := (Ledger.mem_live hkeyed).mp hr
    obtain ⟨last, hlast, -, hobject⟩ := Ledger.shows_eq_some.mp hshows
    refine ⟨last, hlast, hobject, fun g hg en hen => ?_⟩
    obtain ⟨old, m, k, hold, hm, hk, hle⟩ := holdest g hg _ en hen
    cases hlast.symm.trans hold
    exact ⟨m, k, hm, hk, hle⟩

/-- Sessions that bring old versions as well as new ones, with subscribers at both ends. -/
def backward : List ChainMove :=
  let r : String → String → Record := fun name version => { Record.empty with name, version }
  [.make (.attach ⟨7, .everything⟩), .make (.dispatch (.ofRecord .added (r "a" "9"))),
    .make (.advance 2 false), .attachHead ⟨8, .everything⟩,
    .make (.dispatch (.ofRecord .added (r "a" "5"))), .make (.advance 3 true), .make (.detach 8),
    .make (.dispatch (.ofRecord .deleted (r "a" "7"))), .make (.dispatch (.error "gone"))]

theorem oldest_dominates_backward :
    Counted (ChainMove.events backward) ∧ ((first 1).go backward).depth = 3 ∧
      ∀ g ∈ ((first 1).go backward).generations,
        ((first 1).go backward).oldest.ledger.Dominates g.ledger := by
  have hcounted : Counted (ChainMove.events backward) := by
    have hnumbers : ∀ e ∈ ChainMove.events backward,
        e.isReport = true → (counter? e.version).isSome = true := by decide
    exact fun e he hreport => Option.isSome_iff_exists.mp (hnumbers e he hreport)
  exact ⟨hcounted, by decide, (oldest_dominates 1 hcounted).2.1⟩

end Chain

end SharedWatch
