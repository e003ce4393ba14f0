import SharedWatch.Proofs.Operations

/-!
Resources that vanish while no session is watching.

A session that starts over replays everything that exists. What the generations before it knew to
exist and neither it nor a later session mentions has vanished (`Chain.Vanished`), and the bookmark
that folds the chain has to settle it.

Main statement: `vanished_settled`. If the newest session is itself the one that started over, each
subscriber who wants the resource is sent one deletion of it and the snapshot drops it. If a resumed
session came in between, nobody is told and the snapshot keeps the resource: the fold asks how the
newest session began, and not whether an older one that was never proved complete had started over.
-/

namespace SharedWatch

namespace Chain

/-- A resource existed with an object as the generations before the last full replay knew it, the
newest of them that knows it first; the replay has not mentioned it, and no session since has. Every
session since the replay was resumed, and the replay is not the oldest session. -/
inductive Vanished (c : Chain) (x : ResourceName) (r : Record) : Prop where
  | intro (since older : List Generation) (replay : Generation) (en : Entry)
      (hchain : c.generations = since ++ replay :: older)
      (hsince : ∀ g ∈ since, g.resumed = true) (hreplay : replay.resumed = false)
      (hknown : older.findSome? (·.ledger.get? x) = some en) (hlive : en.isLive = true)
      (hobject : en.object = r)
      (hunseen : ∀ g ∈ since ++ [replay], g.ledger.contains x = false)

namespace Vanished
variable {c : Chain} {x : ResourceName} {r : Record}

/-- The newest session has not mentioned the resource, and it is not the only one. -/
theorem head_unseen (h : c.Vanished x r) :
    c.head.ledger.contains x = false ∧ c.ancestors ≠ [] := by
  obtain ⟨since, older, replay, en, hchain, -, -, hknown, -, -, hunseen⟩ := h
  have holder : older ≠ [] := by
    rintro rfl
    simp at hknown
  cases since with
  | nil =>
    obtain ⟨rfl, rfl⟩ := List.cons.inj hchain
    exact ⟨hunseen _ (by simp), holder⟩
  | cons g rest =>
    obtain ⟨rfl, hancestors⟩ := List.cons.inj hchain
    refine ⟨hunseen _ (by simp), ?_⟩
    rw [hancestors]
    simp

/-- The oldest ledger shows the resource as it was last known. -/
theorem oldest_shows {past : List Change} (h : c.Vanished x r) (hc : Coherent past c) :
    c.oldest.ledger.shows x = some r := by
  obtain ⟨since, older, replay, en, hchain, -, -, hknown, hlive, hobject, -⟩ := h
  obtain ⟨g, hg, hget⟩ := List.exists_of_findSome?_eq_some hknown
  have hmem : g ∈ c.generations := by
    rw [hchain]
    simp [hg]
  have hcontains : g.ledger.contains x = true := Ledger.contains_iff.mpr ⟨en, hget⟩
  -- both ledgers show the state that was reported last
  calc c.oldest.ledger.shows x
      = view past x := by
        rw [hc.shows_eq c.oldest_mem, if_pos (hc.covered g hmem x hcontains)]
    _ = g.ledger.shows x := by rw [hc.shows_eq hmem, if_pos hcontains]
    _ = some r := Ledger.shows_eq_some.mpr ⟨en, hget, hlive, hobject⟩

end Vanished

end Chain

namespace Coherent
variable {past : List Change} {c : Chain}

theorem resource_of_shows (h : Coherent past c) {x : ResourceName} {r : Record}
    (hr : c.oldest.ledger.shows x = some r) : r.resource = x := by
  obtain ⟨en, hget, -, rfl⟩ := Ledger.shows_eq_some.mp hr
  exact h.keyed c.oldest_mem x en hget

/-- Of one resource, the deletions that a bookmark makes up for a subscriber: one, if the oldest
ledger shows an object that the subscriber wants and the newest session has not mentioned it. -/
theorem reportsOf_farewells (h : Coherent past c) (hg : c.Gathered) {s : Subscriber}
    (hs : s ∈ c.oldest.subscribers) (version : String)
    (hfull : ¬ (c.head.resumed = true ∨ c.ancestors = [])) (x : ResourceName) :
    reportsOf x (eventsFor s.id (c.farewells version)) =
      ((c.oldest.ledger.shows x).toList.filter fun r =>
          !c.head.ledger.contains x && s.filter.accepts r).map
        fun r => .atVersion .deleted r version := by
  have hlive : (c.oldest.ledger.known.filter fun y =>
        !c.head.ledger.contains y.1 && s.filter.accepts y.2).map
          (fun y => (Change.atVersion .deleted y.2 version)) =
      (c.oldest.ledger.live.filter fun r =>
        !c.head.ledger.contains r.resource && s.filter.accepts r).map
          fun r => .atVersion .deleted r version := by
    have hnames : ∀ y ∈ c.oldest.ledger.known, y.1 = y.2.resource := by
      intro y hy
      exact (h.resource_of_shows (Ledger.mem_known.mp hy)).symm
    have hrecords : c.oldest.ledger.live = c.oldest.ledger.known.map (·.2) := by
      simp [Ledger.live, Ledger.known]
    rw [hrecords, List.filter_map, List.map_map]
    refine congrArg _ (List.filter_congr ?_)
    intro y hy
    simp only [Function.comp_apply, hnames y hy]
  rw [hg.eventsFor_farewells hs, if_neg hfull, hlive]
  unfold reportsOf
  rw [List.filter_map, ← Ledger.filter_live (h.keyed c.oldest_mem) x, List.filter_filter,
    List.filter_filter]
  refine congrArg _ (List.filter_congr ?_)
  intro r _
  show (decide (r.resource = x) && _) = _
  by_cases hx : r.resource = x
  · subst hx
    exact Bool.and_comm _ _
  · simp [hx]

end Coherent

namespace Chain

/-- A bookmark settles a vanished resource exactly if the newest session is the one that started
over. Then every subscriber who wants its last known object is sent one deletion of it, at the
version of the bookmark, and the snapshot no longer holds it. After a resumed session nobody is
sent any deletion, and the snapshot holds the resource as before. -/
theorem vanished_settled (n : Nat) {ops : List ChainOp} (horderly : Orderly (dispatched ops))
    {c : Chain} (hc : (first n).run ops = c) {x : ResourceName} {r : Record}
    (hvanished : c.Vanished x r) {b : Change} (hb : b.kind = .bookmark) :
    (c.head.resumed = false →
      (∀ g ∈ c.generations, ∀ s ∈ g.subscribers,
        reportsOf x (eventsFor s.id (c.dispatch b).2.1) =
          if s.filter.accepts r = true then [.atVersion .deleted r b.version] else []) ∧
      ∀ q ∈ (c.dispatch b).1.snapshot, q.resource ≠ x) ∧
    (c.head.resumed = true →
      (∀ d ∈ (c.dispatch b).2.1, d.event.kind ≠ .deleted) ∧ r ∈ (c.dispatch b).1.snapshot) := by
  have hcoherent : Coherent (dispatched ops) c := hc ▸ run_coherent n horderly
  have hgathered : c.Gathered := hc ▸ run_gathered n ops
  obtain ⟨hunseen, hancestors⟩ := hvanished.head_unseen
  have hshows := hvanished.oldest_shows hcoherent
  have hsnapshot : ∀ q, q ∈ (c.dispatch b).1.snapshot ↔
      (if c.head.resumed = true then c.oldest.ledger.shows q.resource
        else c.head.ledger.shows q.resource) = some q := by
    intro q
    rw [(c.dispatch_bookmark hb).1, (hcoherent.checkpoint b).mem_snapshot,
      hcoherent.shows_checkpoint]
  constructor
  · intro hfull
    have hfold : ¬ (c.head.resumed = true ∨ c.ancestors = []) := by
      simp [hfull, hancestors]
    refine ⟨?_, ?_⟩
    · intro g hg s hs
      have hs := hgathered.mem_oldest hg hs
      have hmark : reportsOf x (if s.filter.bookmarks = true then [b] else []) = [] := by
        split
        · rw [reportsOf_singleton, if_neg (by simp [isReport_of_bookmark hb])]
        · rfl
      have hplan := hgathered.eventsFor_bookmark hs hb
      simp only [sends] at hplan
      rw [hplan, reportsOf_append, hmark, List.append_nil,
        hcoherent.reportsOf_farewells hgathered hs b.version hfold, hshows]
      by_cases hwants : s.filter.accepts r = true <;> simp [hunseen, hwants]
    · rintro q hq rfl
      rw [hsnapshot, hfull, if_neg Bool.false_ne_true, hcoherent.shows_eq c.head_mem, hunseen] at hq
      cases hq
  · intro hresumed
    refine ⟨?_, ?_⟩
    · intro d hd hdeleted
      rw [(c.dispatch_bookmark hb).2, hgathered.checkpoint_plan, farewells,
        if_pos (Or.inl hresumed), List.nil_append] at hd
      obtain ⟨s, -, rfl⟩ := List.mem_map.mp hd
      simp only [hb] at hdeleted
      cases hdeleted
    · rw [hsnapshot, if_pos hresumed, hcoherent.resource_of_shows hshows]
      exact hshows

/-- Two resources exist; after an outage a session starts over and only brings the first. -/
def cutReplay : List ChainOp :=
  let a : Record := { Record.empty with name := "a", version := "1" }
  let b : Record := { Record.empty with name := "b", version := "2" }
  [.attach ⟨7, .everything⟩, .dispatch (.ofRecord .added a), .dispatch (.ofRecord .added b),
    .advance 2 false, .dispatch (.ofRecord .added a), .advance 3 true]

/-- The session that goes on from there expires as well, and a further one starts over. -/
def repeatedReplay : List ChainOp :=
  let a : Record := { Record.empty with name := "a", version := "1" }
  cutReplay ++ [.advance 4 false, .dispatch (.ofRecord .added a)]

theorem vanished_settled_repeatedReplay :
    let b : Record := { Record.empty with name := "b", version := "2" }
    Orderly (dispatched repeatedReplay) ∧
    ((first 1).run repeatedReplay).Vanished ⟨"", "b"⟩ b ∧
    ((first 1).run repeatedReplay).head.resumed = false ∧
    reportsOf ⟨"", "b"⟩
        (eventsFor 7 (((first 1).run repeatedReplay).dispatch (.bookmark "5")).2.1) =
      [.atVersion .deleted b "5"] := by
  have horderly : Orderly (dispatched repeatedReplay) := by decide
  have hvanished : ((first 1).run repeatedReplay).Vanished ⟨"", "b"⟩
      { Record.empty with name := "b", version := "2" } :=
    .intro [] _ _ _ rfl (by simp) rfl rfl rfl rfl (by decide)
  have hattached : ⟨7, .everything⟩ ∈ ((first 1).run repeatedReplay).oldest.subscribers := by
    decide
  have hsettled := (vanished_settled 1 horderly rfl hvanished (b := .bookmark "5") rfl).1 rfl
  exact ⟨horderly, hvanished, rfl, hsettled.1 _ (oldest_mem _) _ hattached⟩

/-- A resumed session after a full replay keeps what has vanished: its bookmark tells nobody, and
the resource stays in the snapshot. -/
theorem vanished_unsettled_cutReplay :
    let b : Record := { Record.empty with name := "b", version := "2" }
    Orderly (dispatched cutReplay) ∧
    ((first 1).run cutReplay).Vanished ⟨"", "b"⟩ b ∧
    ((first 1).run cutReplay).oldest.subscribers = [⟨7, .everything⟩] ∧
    (((first 1).run cutReplay).dispatch (.bookmark "5")).2.1 = [] ∧
    b ∈ (((first 1).run cutReplay).dispatch (.bookmark "5")).1.snapshot := by
  refine ⟨by decide, ?_, by decide, by decide, by decide⟩
  let newest : Generation := .new 3 true
  exact .intro [newest] _ _ _ rfl (by simp [newest, Generation.new]) rfl rfl rfl rfl (by decide)

end Chain

end SharedWatch
