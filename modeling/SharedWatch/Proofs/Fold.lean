import SharedWatch.Proofs.Operations

/-!
What a fold does to any chain.

Subscribers may be anywhere in the chain and the ledgers may hold anything. The walk from the
oldest generation to the newest collects what is known to exist. Where it comes to a generation it
knows what that one and those before it know, the newer entry counting (`mem_knownBy`).

Main statement: `dispatch_bookmark_folded`. As long as no two subscribers have one number, a
bookmark leaves one generation with all of them, tells each what has vanished from its point of
view, no resource twice, and then of the bookmark itself if it asked for that.
-/

namespace SharedWatch

namespace Chain

/-- All subscribers, those of newer generations first. -/
def subscribers (c : Chain) : List Subscriber := c.generations.flatMap (·.subscribers)

/-! ## What is known to exist -/

theorem mem_forget {known : Known} {name x : ResourceName} {r : Record} :
    (x, r) ∈ forget known name ↔ (x, r) ∈ known ∧ x ≠ name := by
  simp [forget]

theorem mem_learn {known : Known} {y : ResourceName × Entry} {x : ResourceName} {r : Record} :
    (x, r) ∈ learn known y ↔
      if y.1 = x then y.2.isLive = true ∧ y.2.object = r else (x, r) ∈ known := by
  unfold learn
  by_cases hx : y.1 = x
  · subst hx
    cases y.2.isLive <;> simp [mem_forget, eq_comm]
  · have hne : x ≠ y.1 := Ne.symm hx
    rw [if_neg hx]
    split <;> simp [mem_forget, hne]

/-- Learning names in turn replaces what is known of them. -/
theorem mem_foldl_learn {entries : List (ResourceName × Entry)}
    (hd : entries.Pairwise (fun a b => a.1 ≠ b.1)) {known : Known} {x : ResourceName} {r : Record} :
    (x, r) ∈ entries.foldl learn known ↔
      match Ledger.find? x entries with
      | some en => en.isLive = true ∧ en.object = r
      | none => (x, r) ∈ known := by
  induction entries generalizing known with
  | nil => rfl
  | cons y rest ih =>
    obtain ⟨hy, hrest⟩ := List.pairwise_cons.mp hd
    rw [List.foldl_cons, ih hrest, Ledger.find?]
    by_cases hx : y.1 = x
    · have hnone : Ledger.find? x rest = none :=
        Ledger.find?_eq_none fun z hz => hx ▸ (hy z hz).symm
      simp [hnone, mem_learn, hx]
    · rw [if_neg hx]
      cases Ledger.find? x rest with
      | none => simp [mem_learn, hx]
      | some en => rfl

/-- Whether each resource is known once. -/
def Once (known : Known) : Prop := (known.map (·.1)).Nodup

theorem Once.learn {known : Known} (h : Once known) (y : ResourceName × Entry) :
    Once (learn known y) := by
  have hforget : Once (forget known y.1) := h.sublist (List.filter_sublist.map _)
  unfold Chain.learn
  split
  · unfold Once
    rw [List.map_append, List.nodup_append]
    refine ⟨hforget, by simp, ?_⟩
    intro a ha b hb
    obtain ⟨⟨x, r⟩, hmem, rfl⟩ := List.mem_map.mp ha
    rw [List.mem_singleton.mp hb]
    exact (mem_forget.mp hmem).2
  · exact hforget

theorem Once.foldl_learn {known : Known} (h : Once known) (entries : List (ResourceName × Entry)) :
    Once (entries.foldl Chain.learn known) := by
  induction entries generalizing known with
  | nil => exact h
  | cons y rest ih => exact ih (h.learn y)

theorem mem_knownBy {gs : List Generation} {x : ResourceName} {r : Record} :
    (x, r) ∈ knownBy gs ↔
      ∃ en, gs.findSome? (·.ledger.get? x) = some en ∧ en.isLive = true ∧ en.object = r := by
  induction gs with
  | nil => simp [knownBy]
  | cons g older ih =>
    have hget : Ledger.find? x g.ledger.entries = g.ledger.get? x := rfl
    rw [knownBy, mem_foldl_learn g.ledger.distinct, hget, List.findSome?_cons]
    cases g.ledger.get? x with
    | none => exact ih
    | some en => simp

theorem once_knownBy (gs : List Generation) : Once (knownBy gs) := by
  induction gs with
  | nil => exact List.nodup_nil
  | cons g older ih => exact ih.foldl_learn _

/-! ## What is made up -/

theorem mem_vanished {l : Ledger} {known : Known} {subs : List Subscriber} {version : String}
    {d : Delivery} (h : d ∈ vanished l known subs version) :
    d.event.kind = .deleted ∧ ∃ s ∈ subs, s.id = d.subscriber := by
  obtain ⟨y, -, hd⟩ := List.mem_flatMap.mp h
  obtain ⟨s, hs, rfl⟩ := List.mem_map.mp hd
  exact ⟨rfl, s, (List.mem_filter.mp hs).1, rfl⟩

theorem mem_departures {l : Ledger} {version : String} {gs : List Generation} {d : Delivery}
    (h : d ∈ departures l version gs) :
    d.event.kind = .deleted ∧ ∃ g ∈ gs, ∃ s ∈ g.subscribers, s.id = d.subscriber := by
  induction gs with
  | nil => cases h
  | cons g older ih =>
    rcases List.mem_append.mp h with h | h
    · obtain ⟨hkind, g', hg', hs⟩ := ih h
      exact ⟨hkind, g', List.mem_cons_of_mem _ hg', hs⟩
    · obtain ⟨hkind, hs⟩ := mem_vanished h
      exact ⟨hkind, g, List.mem_cons_self, hs⟩

/-- A subscriber is told what its own generation and those before it know and what the newest
session has not mentioned. -/
theorem eventsFor_departures {l : Ledger} {version : String} {newer older : List Generation}
    {g : Generation} (h : Apart (newer ++ g :: older)) {s : Subscriber} (hs : s ∈ g.subscribers) :
    eventsFor s.id (departures l version (newer ++ g :: older)) =
      eventsFor s.id (vanished l (knownBy (g :: older)) g.subscribers version) := by
  induction newer with
  | nil =>
    have holder : eventsFor s.id (departures l version older) = [] := by
      refine eventsFor_eq_nil fun d hdep => ?_
      obtain ⟨-, b, hb, t, ht, hid⟩ := mem_departures hdep
      rw [← hid]
      exact (h.id_ne hs hb ht).symm
    rw [List.nil_append, departures, eventsFor_append, holder, List.nil_append]
  | cons a rest ih =>
    have hfront : eventsFor s.id
        (vanished l (knownBy (a :: (rest ++ g :: older))) a.subscribers version) = [] := by
      refine eventsFor_eq_nil fun d hvan => ?_
      obtain ⟨-, t, ht, hid⟩ := mem_vanished hvan
      rw [← hid]
      exact h.id_ne ht (by simp) hs
    rw [List.cons_append, departures, eventsFor_append, hfront, List.append_nil, ih h.of_cons.2]

variable {c : Chain}

theorem mem_ghosts {version : String} {d : Delivery} (h : d ∈ c.ghosts version) :
    d.event.kind = .deleted ∧ ∃ s ∈ c.subscribers, s.id = d.subscriber := by
  unfold ghosts at h
  split at h
  · cases h
  · rcases List.mem_append.mp h with h | h
    · obtain ⟨hkind, g, hg, s, hs, hid⟩ := mem_departures h
      exact ⟨hkind, s, List.mem_flatMap.mpr ⟨g, List.mem_cons_of_mem _ hg, hs⟩, hid⟩
    · obtain ⟨hkind, s, hs, hid⟩ := mem_vanished h
      exact ⟨hkind, s, List.mem_flatMap.mpr ⟨c.head, c.head_mem, hs⟩, hid⟩

/-- What has vanished from the point of view of a subscriber: after a full replay, the resources
that some generations know to exist, with objects that the subscriber wants, and that the newest one
has not recorded. -/
def Gone (c : Chain) (knowing : List Generation) (s : Subscriber) (x : ResourceName) (r : Record) :
    Prop :=
  c.head.resumed = false ∧ c.head.ledger.contains x = false ∧ s.filter.accepts r = true ∧
    ∃ en, knowing.findSome? (·.ledger.get? x) = some en ∧ en.isLive = true ∧ en.object = r

/-- What a bookmark tells a subscriber: what has vanished, no resource twice, and then of itself, if
the subscriber asked for that. -/
def Told (c : Chain) (e : Change) (knowing : List Generation) (s : Subscriber)
    (events : List Change) : Prop :=
  ∃ gone : Known, Once gone ∧ (∀ x r, (x, r) ∈ gone ↔ c.Gone knowing s x r) ∧
    events = (gone.map fun y => .atVersion .deleted y.2 e.version) ++
      if s.filter.bookmarks = true then [e] else []

/-- What the bookmark of a chain leaves, sends and counts. -/
structure Folded (c : Chain) (e : Change) (after : Chain) (plan : List Delivery) (drain : Drain) :
    Prop where
  alone : after.depth = 1
  subscribers : after.head.subscribers.Perm c.subscribers
  live : after.head.ledger.entries = c.merged.entries.filter fun x => x.2.isLive
  retired : drain.retired = c.depth - 1
  absorbed : drain.absorbed = (c.ancestors.flatMap (·.subscribers)).length
  deletes : drain.deletes = (plan.filter fun d => d.event.kind = .deleted).length
  pruned : drain.pruned = (c.merged.entries.filter fun x => !x.2.isLive).length
  addressed : ∀ d ∈ plan, ∃ s ∈ c.subscribers, s.id = d.subscriber
  told : ∀ newer g older, c.generations = newer ++ g :: older → ∀ s ∈ g.subscribers,
    c.Told e (g :: older) s (eventsFor s.id plan)
  /-- Where entries hold objects of the resources that they stand under, no two deletions for one
  subscriber are about one resource. -/
  once : (∀ g ∈ c.generations, g.ledger.Keyed) → ∀ s ∈ c.subscribers,
    (((eventsFor s.id plan).filter fun d => d.kind = .deleted).map (·.resource)).Nodup

theorem Told.nodup {e : Change} (he : e.kind = .bookmark) {knowing : List Generation}
    (hkeyed : ∀ g ∈ knowing, g.ledger.Keyed) {s : Subscriber} {events : List Change}
    (h : c.Told e knowing s events) :
    ((events.filter fun d => d.kind = .deleted).map (·.resource)).Nodup := by
  obtain ⟨gone, honce, hgone, rfl⟩ := h
  have hnames : ∀ y ∈ gone, y.2.resource = y.1 := by
    rintro ⟨x, r⟩ hmem
    obtain ⟨-, -, -, en, hen, -, rfl⟩ := (hgone x r).mp hmem
    obtain ⟨g, hg, hget⟩ := List.exists_of_findSome?_eq_some hen
    exact hkeyed g hg x en hget
  have hmark : (if s.filter.bookmarks = true then [e] else []).filter
      (fun d => d.kind = .deleted) = [] := by
    split <;> simp [he]
  have hmade : (gone.map fun y => Change.atVersion .deleted y.2 e.version).filter
      (fun d => d.kind = .deleted) = gone.map fun y => .atVersion .deleted y.2 e.version := by
    rw [List.filter_eq_self]
    intro d hd
    obtain ⟨y, -, rfl⟩ := List.mem_map.mp hd
    rfl
  have hresources : gone.map (·.2.resource) = gone.map (·.1) := List.map_congr_left hnames
  rw [List.filter_append, hmark, hmade, List.append_nil, List.map_map]
  show (gone.map (·.2.resource)).Nodup
  rw [hresources]
  exact honce

/-- A fold counts the deletions that it makes up. -/
theorem deletes_checkpoint (c : Chain) {e : Change} (he : e.kind = .bookmark) :
    (c.checkpoint e).2.2.deletes =
      ((c.checkpoint e).2.1.filter fun d => d.event.kind = .deleted).length := by
  have hcount : (c.checkpoint e).2.2.deletes = (c.ghosts e.version).length := by
    simp only [checkpoint, vanishedThrough_reverse]
    rfl
  have hmade : (c.ghosts e.version).filter (fun d => d.event.kind = .deleted) =
      c.ghosts e.version :=
    List.filter_eq_self.mpr fun d hd => decide_eq_true (mem_ghosts hd).1
  have hmarks : ∀ subs : List Subscriber,
      (subs.map fun s => (⟨s.id, e⟩ : Delivery)).filter (fun d => d.event.kind = .deleted) = [] :=
    fun subs => by simp [List.filter_eq_nil_iff, he]
  rw [hcount, checkpoint_ghosts, List.filter_append, hmade, hmarks, List.append_nil]

/-- A fold counts the deleted resources that it forgets. -/
theorem pruned_checkpoint (c : Chain) (e : Change) :
    (c.checkpoint e).2.2.pruned = (c.merged.entries.filter fun x => !x.2.isLive).length := by
  have hcount : (c.checkpoint e).2.2.pruned =
      c.merged.entries.length - (c.merged.entries.filter fun x => x.2.isLive).length := rfl
  have hsplit := List.length_eq_length_filter_add (l := c.merged.entries) fun x => x.2.isLive
  omega

section Numbered
variable (h : Apart c.generations)

include h

/-- The deletions for one subscriber are all made up from one collection of what is known. -/
theorem exists_known {newer older : List Generation} {g : Generation}
    (hc : c.generations = newer ++ g :: older) {s : Subscriber} (hs : s ∈ g.subscribers)
    (hfull : ¬ (c.head.resumed = true ∨ c.ancestors = [])) (version : String) :
    ∃ known : Known, Once known ∧
      eventsFor s.id (c.ghosts version) =
        eventsFor s.id (vanished c.head.ledger known g.subscribers version) ∧
      ∀ x r, c.head.ledger.contains x = false →
        ((x, r) ∈ known ↔ ∃ en, (g :: older).findSome? (·.ledger.get? x) = some en ∧
          en.isLive = true ∧ en.object = r) := by
  rw [ghosts, if_neg hfull, eventsFor_append]
  cases newer with
  | nil =>
    obtain ⟨rfl, rfl⟩ := List.cons.inj hc
    have hothers : eventsFor s.id (departures c.head.ledger version c.ancestors) = [] := by
      refine eventsFor_eq_nil fun d hdep => ?_
      obtain ⟨-, b, hb, t, ht, hid⟩ := mem_departures hdep
      rw [← hid]
      exact (h.id_ne hs hb ht).symm
    refine ⟨knownBy c.ancestors, once_knownBy _, by rw [hothers, List.nil_append], ?_⟩
    intro x r hunseen
    -- the newest ledger is not asked, but it has nothing to say of the resource
    have hnone : c.head.ledger.get? x = none := by
      simpa [Ledger.contains] using hunseen
    rw [mem_knownBy, List.findSome?_cons, hnone]
  | cons a rest =>
    obtain ⟨rfl, htail⟩ := List.cons.inj hc
    have hancestors : c.ancestors = rest ++ g :: older := htail
    have hg : g ∈ c.ancestors := by
      rw [hancestors]
      simp
    have hothers : eventsFor s.id
        (vanished c.head.ledger (knownBy c.ancestors) c.head.subscribers version) = [] := by
      refine eventsFor_eq_nil fun d hvan => ?_
      obtain ⟨-, t, ht, hid⟩ := mem_vanished hvan
      rw [← hid]
      exact h.id_ne ht hg hs
    refine ⟨knownBy (g :: older), once_knownBy _, ?_, fun x r _ => mem_knownBy⟩
    have hapart : Apart c.ancestors := h.of_cons.2
    rw [hancestors] at hapart
    rw [hothers, List.append_nil, hancestors, eventsFor_departures hapart hs]

/-- What a subscriber is sent of the deletions is what has vanished from its point of view. -/
theorem exists_gone {newer older : List Generation} {g : Generation}
    (hc : c.generations = newer ++ g :: older) {s : Subscriber} (hs : s ∈ g.subscribers)
    (version : String) :
    ∃ gone : Known, Once gone ∧ (∀ x r, (x, r) ∈ gone ↔ c.Gone (g :: older) s x r) ∧
      eventsFor s.id (c.ghosts version) = gone.map fun y => .atVersion .deleted y.2 version := by
  by_cases hskip : c.head.resumed = true ∨ c.ancestors = []
  · refine ⟨[], List.nodup_nil, fun x r => iff_of_false List.not_mem_nil ?_, ?_⟩
    · rintro ⟨hfull, hunseen, -, en, hen, -, -⟩
      have hsingle : c.ancestors = [] := hskip.resolve_left (by simp [hfull])
      rw [generations, hsingle] at hc
      obtain ⟨rfl, hgc⟩ : newer = [] ∧ g :: older = [c.head] := by
        cases newer with
        | nil => exact ⟨rfl, hc.symm⟩
        | cons a rest => simp at hc
      rw [hgc, List.findSome?_singleton] at hen
      simp [Ledger.contains, hen] at hunseen
    · rw [ghosts, if_pos hskip]
      rfl
  · obtain ⟨known, honce, hevents, hknown⟩ := exists_known h hc hs hskip version
    have hfull : c.head.resumed = false := by simpa using fun hr => hskip (Or.inl hr)
    have hown : (g.subscribers.map (·.id)).Nodup := by
      rw [hc] at h
      exact h.of_append.of_cons.1
    refine ⟨known.filter fun y => !c.head.ledger.contains y.1 && s.filter.accepts y.2,
      honce.sublist (List.filter_sublist.map _), fun x r => ?_, ?_⟩
    · rw [List.mem_filter, Bool.and_eq_true, Bool.not_eq_true', Gone]
      constructor
      · rintro ⟨hmem, hunseen, haccepts⟩
        exact ⟨hfull, hunseen, haccepts, (hknown x r hunseen).mp hmem⟩
      · rintro ⟨-, hunseen, haccepts, hen⟩
        exact ⟨(hknown x r hunseen).mpr hen, hunseen, haccepts⟩
    · rw [hevents, eventsFor_vanished hown hs]

/-- The newest generation takes everybody over. -/
theorem perm_checkpoint (e : Change) : (c.checkpoint e).1.head.subscribers.Perm c.subscribers := by
  rw [checkpoint_joined h]
  exact ((List.reverse_perm c.ancestors).flatMap_right _).append_left c.head.subscribers

/-- A bookmark loses nobody and tells nobody twice, whatever the chain and its ledgers are. -/
theorem dispatch_bookmark_folded {e : Change} (he : e.kind = .bookmark) :
    ∃ drain, (c.dispatch e).2.2 = some drain ∧
      c.Folded e (c.dispatch e).1 (c.dispatch e).2.1 drain := by
  have hperm := perm_checkpoint h e
  have htold : ∀ newer g older, c.generations = newer ++ g :: older → ∀ s ∈ g.subscribers,
      c.Told e (g :: older) s (eventsFor s.id (c.checkpoint e).2.1) := by
    intro newer g older hc s hs
    obtain ⟨gone, honce, hgone, hevents⟩ := exists_gone h hc hs e.version
    have hthere : s ∈ (c.checkpoint e).1.head.subscribers := by
      rw [hperm.mem_iff, Chain.subscribers, hc]
      exact List.mem_flatMap.mpr ⟨g, by simp, hs⟩
    have hnumbers : ((c.checkpoint e).1.head.subscribers.map (·.id)).Nodup :=
      (hperm.map _).nodup_iff.mpr h
    refine ⟨gone, honce, hgone, ?_⟩
    rw [checkpoint_ghosts, eventsFor_append, hevents, eventsFor_map,
      filter_id_of_filter hnumbers hthere]
    congr 1
    split <;> rfl
  refine ⟨(c.checkpoint e).2.2, by simp [dispatch, he], ?_⟩
  rw [(c.dispatch_bookmark he).1, (c.dispatch_bookmark he).2]
  exact
    { alone := rfl
      subscribers := hperm
      live := rfl
      retired := by simp [checkpoint, depth, generations]
      absorbed := rfl
      deletes := c.deletes_checkpoint he
      pruned := c.pruned_checkpoint e
      addressed := by
        intro d hd
        rw [checkpoint_ghosts] at hd
        rcases List.mem_append.mp hd with hd | hd
        · exact (mem_ghosts hd).2
        · obtain ⟨s, hs, rfl⟩ := List.mem_map.mp hd
          exact ⟨s, hperm.mem_iff.mp (List.mem_filter.mp hs).1, rfl⟩
      told := htold
      once := by
        intro hkeyed s hs
        obtain ⟨g, hg, hs⟩ := List.mem_flatMap.mp hs
        obtain ⟨newer, older, hc⟩ := List.append_of_mem hg
        refine (htold newer g older hc s hs).nodup he fun a ha => hkeyed a ?_
        rw [hc]
        exact List.mem_append_right _ ha }

end Numbered

/-- A subscriber has joined the oldest of three sessions and another one the second; the last one
starts over and has brought the first of three resources. -/
def scattered : Chain :=
  let r : String → String → Record := fun name version => { Record.empty with name, version }
  let second := ((first 1).run [.attach ⟨7, .everything⟩, .dispatch (.ofRecord .added (r "a" "1")),
    .dispatch (.ofRecord .added (r "b" "2")), .advance 2 true]).attachHead ⟨8, .everything⟩
  second.run [.dispatch (.ofRecord .added (r "c" "3")), .advance 3 false,
    .dispatch (.ofRecord .added (r "a" "1"))]

theorem dispatch_bookmark_folded_scattered :
    Apart scattered.generations ∧ scattered.depth = 3 ∧
      ∃ drain, (scattered.dispatch (.bookmark "9")).2.2 = some drain ∧
        scattered.Folded (.bookmark "9") (scattered.dispatch (.bookmark "9")).1
          (scattered.dispatch (.bookmark "9")).2.1 drain := by
  have hapart : Apart scattered.generations := by decide
  exact ⟨hapart, rfl, dispatch_bookmark_folded hapart rfl⟩

end Chain

end SharedWatch
