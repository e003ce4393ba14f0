import SharedWatch.Proofs.Operations

/-!
Sessions that go on from an earlier one are invisible.

A run with any number of resumed sessions is compared with the same run without them. The ledgers of
the two differ, but their oldest ones know the same resources (`Shadows`), and of what is known all
ledgers hold the latest reports. So both let the same events through, under the same kinds, and both
keep the same resources at a bookmark.

Main statement: `resumed_sessions_invisible`.
-/

namespace SharedWatch

/-- Whether every addition with a new version is of a resource that is not live. -/
def Introduces (events : List Change) : Prop :=
  ∀ before e after, events = before ++ e :: after → e.kind = .added →
    (∀ a ∈ before, a.isReport = true → a.resource = e.resource → a.number < e.number) →
    view before e.resource = none

theorem Introduces.of_append {past more : List Change} (h : Introduces (past ++ more)) :
    Introduces past := by
  intro before e after hsplit
  exact h before e (after ++ more) (by simp [hsplit])

theorem introduces_iff (events : List Change) :
    Introduces events ↔ ∀ i : Fin events.length, events[i].kind = .added →
      (∀ a ∈ events.take i, a.isReport = true → a.resource = events[i].resource →
        a.number < events[i].number) →
      view (events.take i) events[i].resource = none := by
  constructor
  · intro h i
    exact h (events.take i) events[i] (events.drop (i + 1)) (by simp)
  · rintro h before e after rfl
    simpa using h ⟨before.length, by simp⟩

instance (events : List Change) : Decidable (Introduces events) :=
  decidable_of_iff' _ (introduces_iff events)

/-! ## What one subscriber is sent -/

/-- One thing that a subscriber is sent: the state that it starts from, or one event. -/
inductive Sent where
  | start (events : List Change)
  | event (e : Change)

/-- The same thing sent, where the order of the state to start from does not count. -/
def Sent.Alike : Sent → Sent → Prop
  | .start p, .start q => p.Perm q
  | .event e, .event f => e = f
  | _, _ => False

/-- Whether the operation begins a new session. -/
def ChainOp.isAdvance : ChainOp → Bool
  | .advance _ _ => true
  | _ => false

namespace Chain

/-- What an operation sends to one subscriber. -/
def sentTo (c : Chain) (id : Nat) (op : ChainOp) : List Sent :=
  match op with
  | .attach s => if s.id = id then [.start (c.primed s.filter)] else []
  | op => (eventsFor id (c.sends op)).map .event

/-- What some operations send to one subscriber, in order. -/
def stream (c : Chain) (id : Nat) : List ChainOp → List Sent
  | [] => []
  | op :: rest => c.sentTo id op ++ (c.apply op).stream id rest

theorem stream_snoc (c : Chain) (id : Nat) (ops : List ChainOp) (op : ChainOp) :
    c.stream id (ops ++ [op]) = c.stream id ops ++ (c.run ops).sentTo id op := by
  induction ops generalizing c with
  | nil => simp [stream, run]
  | cons o rest ih =>
    have hrun : c.run (o :: rest) = (c.apply o).run rest := rfl
    simp only [List.cons_append, stream, ih, hrun, List.append_assoc]

end Chain

theorem alike_refl (sent : List Sent) (h : ∀ a ∈ sent, ∃ e, a = .event e) :
    List.Forall₂ Sent.Alike sent sent := by
  rw [List.forall₂_same]
  intro a ha
  obtain ⟨e, rfl⟩ := h a ha
  exact rfl

/-! ## The simulation -/

/-- A chain shadows one with a single generation: the same people are there, the same resources are
known, and the chain's newest session went on from an earlier one if it has any ancestors. -/
structure Shadows (c d : Chain) : Prop where
  single : d.ancestors = []
  resumed : c.head.resumed = true ∨ c.ancestors = []
  subscribers : c.oldest.subscribers = d.oldest.subscribers
  contains : ∀ x, c.oldest.ledger.contains x = d.oldest.ledger.contains x

namespace Shadows
variable {past : List Change} {c d : Chain}

theorem shows_eq (h : Shadows c d) (hc : Coherent past c) (hd : Coherent past d)
    (x : ResourceName) : c.oldest.ledger.shows x = d.oldest.ledger.shows x := by
  rw [hc.shows_eq c.oldest_mem, hd.shows_eq d.oldest_mem, h.contains]

theorem accepts_eq (h : Shadows c d) (hc : Coherent past c) (hd : Coherent past d) {e : Change}
    (ha : Admits past e) :
    c.oldest.ledger.accepts e.resource e.version =
      d.oldest.ledger.accepts e.resource e.version := by
  rw [Bool.eq_iff_iff, hc.accepts_iff c.oldest_mem ha, hd.accepts_iff d.oldest_mem ha, h.contains]

/-- What the oldest generation lets through enters it under the kind that the server gave it. -/
theorem kindOf_eq (hc : Coherent past c) {e : Change} (ha : Admits past e)
    (haccepts : c.oldest.ledger.accepts e.resource e.version = true)
    (hnew : e.kind = .added →
      (∀ a ∈ past, a.isReport = true → a.resource = e.resource → a.number < e.number) →
      view past e.resource = none) :
    c.oldest.kindOf (c.lastOffer e) e = e.kind := by
  rcases c.lastOffer_eq e with hoffer | ⟨hoffer, hadded⟩ <;> rw [hoffer]
  · rfl
  show c.oldest.ledger.replayKind e.resource = e.kind
  rw [hadded]
  unfold Ledger.replayKind
  cases hget : c.oldest.ledger.get? e.resource with
  | none => rfl
  | some en =>
    -- a known resource that gets a later version was not live
    obtain ⟨a, hla, hr⟩ := hc.reflects c.oldest c.oldest_mem _ en hget
    have hlt := (hc.accepts_iff c.oldest_mem ha).mp haccepts
      (Ledger.contains_iff.mpr ⟨en, hget⟩) a hla
    have hview : view past e.resource = none := by
      apply hnew hadded
      intro b hb hrb hbx
      have hle := hc.orderly.le_latest hla hb hrb hbx
      omega
    rw [view_eq, hla] at hview
    have hdead : en.isLive = false := by
      unfold Change.outcome at hview
      by_cases hk : a.kind = .deleted
      · simpa [hk] using hr.live
      · simp [hk] at hview
    simp [hdead]

theorem first (n : Nat) : Shadows (.first n) (.first n) :=
  ⟨rfl, Or.inr rfl, rfl, fun _ => rfl⟩

/-- A resumed session changes neither the oldest generation nor what it shows. -/
theorem advance (h : Shadows c d) (id : Nat) : Shadows (c.advance id true) d := by
  refine ⟨h.single, Or.inl rfl, ?_, ?_⟩ <;> rw [(c.oldest_advance id true).2]
  · exact h.subscribers
  · exact h.contains

/-- Every other operation, made on both, keeps the shadow. -/
theorem apply (h : Shadows c d) (hc : Coherent past c) (hd : Coherent past d) (hgc : c.Gathered)
    (hgd : d.Gathered) {op : ChainOp} (hop : op.isAdvance = false) :
    Shadows (c.apply op) (d.apply op) := by
  have hsubs : (c.apply op).oldest.subscribers = (d.apply op).oldest.subscribers := by
    rw [hgc.subscribers_apply, hgd.subscribers_apply, h.subscribers]
  cases op with
  | advance id resumed => cases hop
  | attach s =>
    refine ⟨by simp [Chain.apply, Chain.attachOldest, h.single], ?_, hsubs, ?_⟩
    · cases ha : c.ancestors with
      | nil => exact Or.inr (by simp [Chain.apply, Chain.attachOldest, ha])
      | cons g rest =>
        left
        have hr := h.resumed.resolve_right (by simp [ha])
        simpa [Chain.apply, Chain.attachOldest, ha] using hr
    · intro x
      simp only [Chain.apply, Chain.oldest_attachOldest]
      exact h.contains x
  | detach id =>
    refine ⟨?_, ?_, hsubs, ?_⟩
    · simp only [Chain.apply, Chain.detach, h.single]
      split <;> rfl
    · simp only [Chain.apply, Chain.detach]
      split
      · exact h.resumed
      · refine h.resumed.imp_right fun ha => ?_
        simp [ha, Chain.detachFrom]
    · intro x
      simp only [Chain.apply, hgc.oldest_detach, hgd.oldest_detach]
      exact h.contains x
  | dispatch e =>
    rcases Chain.isReport_cases e with he | he | he
    · simp only [Chain.apply, (c.dispatch_report he).1, (d.dispatch_report he).1] at hsubs ⊢
      refine ⟨by simp [Chain.relay, h.single], Chain.relay_whole h.resumed e, hsubs, ?_⟩
      · intro x
        rw [Chain.oldest_relay, Chain.oldest_relay, Generation.offer_fst, Generation.offer_fst,
          Bool.eq_iff_iff, Ledger.contains_accept, Ledger.contains_accept, h.contains]
    · simp only [Chain.apply, (c.dispatch_bookmark he).1, (d.dispatch_bookmark he).1] at hsubs ⊢
      refine ⟨rfl, Or.inr rfl, hsubs, ?_⟩
      intro x
      rw [hc.contains_checkpoint, hd.contains_checkpoint, Chain.kept h.resumed,
        Chain.kept (Or.inr h.single), h.shows_eq hc hd]
    · simp only [Chain.apply, (c.dispatch_error he).1, (d.dispatch_error he).1]
      exact h

theorem eventsFor_dispatch (h : Shadows c d) (hc : Coherent past c) (hd : Coherent past d)
    (hgc : c.Gathered) (hgd : d.Gathered) (id : Nat) {e : Change}
    (ha : e.isReport = true → Admits past e)
    (hnew : e.kind = .added →
      (∀ a ∈ past, a.isReport = true → a.resource = e.resource → a.number < e.number) →
      view past e.resource = none) :
    eventsFor id (c.sends (.dispatch e)) = eventsFor id (d.sends (.dispatch e)) := by
  by_cases hid : ∃ s ∈ c.oldest.subscribers, s.id = id
  swap
  · have habsent : ∀ s ∈ c.oldest.subscribers, s.id ≠ id := fun s hs heq => hid ⟨s, hs, heq⟩
    rw [hgc.eventsFor_dispatch_of_absent habsent,
      hgd.eventsFor_dispatch_of_absent (h.subscribers ▸ habsent)]
  obtain ⟨s, hs, rfl⟩ := hid
  have hs' : s ∈ d.oldest.subscribers := h.subscribers ▸ hs
  rcases Chain.isReport_cases e with he | he | he
  · have haccepts := h.accepts_eq hc hd (ha he)
    rw [hgc.eventsFor_report hs he, hgd.eventsFor_report hs' he, ← haccepts]
    split
    · next hsent =>
      rw [kindOf_eq hc (ha he) hsent.1 hnew, kindOf_eq hd (ha he) (haccepts ▸ hsent.1) hnew]
    · rfl
  · rw [hgc.eventsFor_bookmark hs he, hgd.eventsFor_bookmark hs' he,
      hgc.eventsFor_farewells hs, hgd.eventsFor_farewells hs', if_pos h.resumed,
      if_pos (Or.inr h.single)]
  · rw [hgc.eventsFor_error hs he, hgd.eventsFor_error hs' he]

theorem sentTo_alike (h : Shadows c d) (hc : Coherent past c) (hd : Coherent past d)
    (hgc : c.Gathered) (hgd : d.Gathered) (id : Nat) {op : ChainOp} (hop : op.isAdvance = false)
    (ha : ∀ e, op = .dispatch e → e.isReport = true → Admits past e)
    (hnew : ∀ e, op = .dispatch e → e.kind = .added →
      (∀ a ∈ past, a.isReport = true → a.resource = e.resource → a.number < e.number) →
      view past e.resource = none) :
    List.Forall₂ Sent.Alike (c.sentTo id op) (d.sentTo id op) := by
  cases op with
  | advance _ _ => cases hop
  | attach s =>
    simp only [Chain.sentTo]
    split
    · have hlive : c.snapshot.Perm d.snapshot :=
        Ledger.live_perm (hc.keyed c.oldest_mem) (hd.keyed d.oldest_mem) (h.shows_eq hc hd)
      exact .cons ((hlive.filter _).map _) .nil
    · exact .nil
  | detach _ => exact .nil
  | dispatch e =>
    simp only [Chain.sentTo]
    rw [h.eventsFor_dispatch hc hd hgc hgd id (ha e rfl) (hnew e rfl)]
    apply alike_refl
    intro a hmem
    obtain ⟨f, -, rfl⟩ := List.mem_map.mp hmem
    exact ⟨f, rfl⟩

/-- The newest ledgers agree on every resource, once there is nothing behind the newest generation.
-/
theorem head_eq (h : Shadows c d) (hc : Coherent past c) (hd : Coherent past d)
    (hsingle : c.ancestors = []) (x : ResourceName) :
    (c.head.ledger.get? x).map (fun en => (counter? en.version, en.isLive, en.object)) =
      (d.head.ledger.get? x).map fun en => (counter? en.version, en.isLive, en.object) := by
  have hcontains := h.contains x
  rw [Chain.oldest_of_single hsingle, Chain.oldest_of_single h.single] at hcontains
  unfold Ledger.contains at hcontains
  cases hcx : c.head.ledger.get? x with
  | none =>
    rw [hcx, Option.isSome_none, eq_comm, Option.isSome_eq_false_iff,
      Option.isNone_iff_eq_none] at hcontains
    rw [hcontains]
  | some en =>
    rw [hcx, Option.isSome_some, eq_comm, Option.isSome_iff_exists] at hcontains
    obtain ⟨en', hdx⟩ := hcontains
    obtain ⟨a, ha, hr⟩ := hc.reflects c.head c.head_mem x en hcx
    obtain ⟨b, hb, hr'⟩ := hd.reflects d.head d.head_mem x en' hdx
    rw [ha] at hb
    cases hb
    have hlive : en.isLive = en'.isLive := Bool.eq_iff_iff.mpr (hr.live.trans hr'.live.symm)
    rw [hdx, Option.map_some, Option.map_some, hr.counted, hr'.counted, hr.object, hr'.object,
      hlive]

end Shadows

/-! ## Whole runs -/

/-- A run without its new sessions. -/
def uninterrupted (ops : List ChainOp) : List ChainOp := ops.filter fun op => !op.isAdvance

theorem dispatched_uninterrupted (ops : List ChainOp) :
    dispatched (uninterrupted ops) = dispatched ops := by
  unfold dispatched uninterrupted
  rw [List.filterMap_filter]
  congr 1
  funext op
  cases op <;> rfl

theorem run_uninterrupted_coherent (n : Nat) {ops : List ChainOp}
    (h : Orderly (dispatched ops)) :
    Coherent (dispatched ops) ((Chain.first n).run (uninterrupted ops)) := by
  have hcoherent := Chain.run_coherent n ((dispatched_uninterrupted ops).symm ▸ h)
  rwa [dispatched_uninterrupted] at hcoherent

/-- A run shadows the same run without its new sessions, and sends everybody the same. -/
theorem run_shadows (n : Nat) {ops : List ChainOp}
    (hresumed : ∀ id resumed, .advance id resumed ∈ ops → resumed = true)
    (horderly : Orderly (dispatched ops)) (hintroduces : Introduces (dispatched ops)) :
    Shadows ((Chain.first n).run ops) ((Chain.first n).run (uninterrupted ops)) ∧
      ∀ id, List.Forall₂ Sent.Alike ((Chain.first n).stream id ops)
        ((Chain.first n).stream id (uninterrupted ops)) := by
  induction ops using List.reverseRecOn with
  | nil => exact ⟨.first n, fun _ => .nil⟩
  | append_singleton ops op ih =>
    rw [dispatched_append] at horderly hintroduces
    obtain ⟨hshadows, hstream⟩ := ih (fun id r ho => hresumed id r (List.mem_append_left _ ho))
      horderly.of_append hintroduces.of_append
    have hgc := Chain.run_gathered n ops
    have hgd := Chain.run_gathered n (uninterrupted ops)
    have hc := Chain.run_coherent n horderly.of_append
    have hd := run_uninterrupted_coherent n horderly.of_append
    cases hop : op.isAdvance
    · have hfilter : uninterrupted (ops ++ [op]) = uninterrupted ops ++ [op] := by
        simp [uninterrupted, hop]
      rw [hfilter, Chain.run_snoc, Chain.run_snoc]
      refine ⟨hshadows.apply hc hd hgc hgd hop, fun id => ?_⟩
      rw [Chain.stream_snoc, Chain.stream_snoc]
      refine List.rel_append (hstream id) (hshadows.sentTo_alike hc hd hgc hgd id hop ?_ ?_)
      · rintro e rfl he
        exact horderly.admits he
      · rintro e rfl hadded hnew
        exact hintroduces (dispatched ops) e [] rfl hadded hnew
    -- the run without new sessions stands still while this one begins a session
    · have hfilter : uninterrupted (ops ++ [op]) = uninterrupted ops := by
        simp [uninterrupted, hop]
      rw [hfilter, Chain.run_snoc]
      cases op with
      | advance id resumed =>
        have hr : resumed = true := hresumed id resumed (by simp)
        subst hr
        refine ⟨hshadows.advance id, fun i => ?_⟩
        rw [Chain.stream_snoc]
        simpa [Chain.sentTo, Chain.sends] using hstream i
      | _ => cases hop

/-- With any resumed sessions put anywhere into a run, everybody is sent what the run without them
sends, and after each bookmark the newest ledger holds the same resources in the same state. -/
theorem resumed_sessions_invisible (n : Nat) {ops : List ChainOp}
    (hresumed : ∀ id resumed, .advance id resumed ∈ ops → resumed = true)
    (horderly : Orderly (dispatched ops)) (hintroduces : Introduces (dispatched ops)) :
    (∀ id, List.Forall₂ Sent.Alike ((Chain.first n).stream id ops)
      ((Chain.first n).stream id (uninterrupted ops))) ∧
    ∀ before b after, ops = before ++ .dispatch b :: after → b.kind = .bookmark →
      ∀ x, (((Chain.first n).run (before ++ [.dispatch b])).head.ledger.get? x).map
          (fun en => (counter? en.version, en.isLive, en.object)) =
        (((Chain.first n).run (uninterrupted (before ++ [.dispatch b]))).head.ledger.get? x).map
          fun en => (counter? en.version, en.isLive, en.object) := by
  refine ⟨(run_shadows n hresumed horderly hintroduces).2, ?_⟩
  intro before b after hsplit hb x
  have hops : ops = (before ++ [.dispatch b]) ++ after := by simp [hsplit]
  subst hops
  rw [dispatched_append] at horderly hintroduces
  have hshadows := (run_shadows n (fun id r ho => hresumed id r (List.mem_append_left _ ho))
    horderly.of_append hintroduces.of_append).1
  refine hshadows.head_eq (Chain.run_coherent n horderly.of_append)
    (run_uninterrupted_coherent n horderly.of_append) ?_ x
  rw [Chain.run_snoc, Chain.apply, (Chain.dispatch_bookmark _ hb).1]
  rfl

/-- A session is resumed twice before a bookmark; an object that was edited comes again with each
session, another one is deleted and comes back. -/
def resumedRun : List ChainOp :=
  let a : Record := { Record.empty with name := "a", version := "2", generation := 2 }
  let b (version : String) : Record := { Record.empty with name := "b", version }
  [.attach ⟨7, .everything⟩, .dispatch (.ofRecord .added a), .dispatch (.ofRecord .added (b "3")),
    .advance 2 true, .dispatch (.ofRecord .added a), .dispatch (.ofRecord .deleted (b "4")),
    .advance 3 true, .attach ⟨8, .everything⟩, .dispatch (.ofRecord .added (b "5")),
    .dispatch (.bookmark "6")]

theorem resumed_sessions_invisible_resumedRun :
    Orderly (dispatched resumedRun) ∧ Introduces (dispatched resumedRun) ∧
    (resumedRun.filter ChainOp.isAdvance).length = 2 ∧
    ∀ id, List.Forall₂ Sent.Alike ((Chain.first 1).stream id resumedRun)
      ((Chain.first 1).stream id (uninterrupted resumedRun)) := by
  have horderly : Orderly (dispatched resumedRun) := by decide
  have hintroduces : Introduces (dispatched resumedRun) := by decide
  refine ⟨horderly, hintroduces, rfl, ?_⟩
  refine (resumed_sessions_invisible 1 ?_ horderly hintroduces).1
  intro id resumed h
  simp only [resumedRun, List.mem_cons, reduceCtorEq, ChainOp.advance.injEq, false_or,
    List.not_mem_nil, or_false] at h
  rcases h with h | h <;> exact h.2

end SharedWatch
