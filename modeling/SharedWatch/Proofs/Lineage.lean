import SharedWatch.Proofs.Office

/-!
What a handler plans for one subscriber depends on what its generations know.

The lineage of a chain is what its generations are and know, apart from who is in them. It decides
what each event makes of it (`Chain.lineage_dispatch`) and what a subscriber is sent
(`eventsFor_dispatch_of_lineage`). So handlers that know the same owe the same to whoever both serve
(`Handler.Keeps.eventsFor_take`), and those who come and go change nothing in that.
-/

namespace SharedWatch

namespace Generation

/-- What an offer makes of what a generation is and knows. -/
def knowing (how : Offer) (e : Change) (x : Bool × Ledger) : Bool × Ledger :=
  (x.1, x.2.accept ((⟨0, x.1, [], x.2⟩ : Generation).kindOf how e) e.object e.version)

theorem knowing_offer (g : Generation) (how : Offer) (e : Change) :
    ((g.offer how e).1.resumed, (g.offer how e).1.ledger) =
      knowing how e (g.resumed, g.ledger) := by
  rw [offer_fst]
  rfl

theorem kindOf_congr {g g' : Generation} (h : g'.ledger = g.ledger) (how : Offer) (e : Change) :
    g'.kindOf how e = g.kindOf how e := by
  unfold kindOf
  rw [h]

end Generation

namespace Chain
variable {c c' : Chain}

theorem lineage_eq (c : Chain) :
    c.lineage = (c.head.resumed, c.head.ledger) ::
      c.ancestors.map fun g => (g.resumed, g.ledger) := rfl

theorem lineage_relay (c : Chain) (e : Change) :
    (c.relay e).1.lineage = Generation.knowing (.fresh e.kind) e (c.head.resumed, c.head.ledger) ::
      (c.ancestors.map fun g => (g.resumed, g.ledger)).map
        (Generation.knowing (downstream e) e) := by
  unfold lineage
  rw [generations_relay, List.map_cons, List.map_map, List.map_map, Generation.knowing_offer]
  congr 1
  exact List.map_congr_left fun g _ => g.knowing_offer (downstream e) e

theorem merged_of_lineage (heq : c'.lineage = c.lineage) : c'.merged = c.merged := by
  rw [lineage_eq, lineage_eq, List.cons.injEq, Prod.mk.injEq] at heq
  obtain ⟨⟨hresumed, hledger⟩, hancestors⟩ := heq
  have hfold : ∀ (gs : List Generation) (l : Ledger), gs.foldl (fun l g => l.carry g.ledger) l =
      (gs.map fun g => (g.resumed, g.ledger)).foldl (fun l x => l.carry x.2) l := by
    intro gs l
    rw [List.foldl_map]
  unfold merged
  rw [hfold, hfold, hancestors, hresumed, hledger]

/-- What the generations know after an event depends on what they knew. -/
theorem lineage_dispatch (heq : c'.lineage = c.lineage) (e : Change) :
    (c'.dispatch e).1.lineage = (c.dispatch e).1.lineage := by
  rcases isReport_cases e with he | he | he
  · rw [(c'.dispatch_report he).1, (c.dispatch_report he).1, lineage_relay, lineage_relay]
    rw [lineage_eq, lineage_eq, List.cons.injEq] at heq
    rw [heq.1, heq.2]
  · rw [(c'.dispatch_bookmark he).1, (c.dispatch_bookmark he).1]
    have hresumed := (head_of_lineage heq).1
    show [(c'.head.resumed, c'.merged.prune)] = [(c.head.resumed, c.merged.prune)]
    rw [hresumed, merged_of_lineage heq]
  · rw [(c'.dispatch_error he).1, (c.dispatch_error he).1]
    exact heq

/-- What a subscriber is sent of an event depends on what the generations know. -/
theorem Gathered.eventsFor_dispatch_of_lineage (h : c.Gathered) (h' : c'.Gathered)
    {s : Subscriber} (hs : s ∈ c.oldest.subscribers) (hs' : s ∈ c'.oldest.subscribers)
    (heq : c'.lineage = c.lineage) (e : Change) :
    eventsFor s.id (c'.sends (.dispatch e)) = eventsFor s.id (c.sends (.dispatch e)) := by
  obtain ⟨hresumed, hhead, hancestors⟩ := head_of_lineage heq
  have holdest := oldest_of_lineage heq
  rcases isReport_cases e with he | he | he
  · have hoffer : c'.lastOffer e = c.lastOffer e := by
      unfold lastOffer
      simp only [hancestors]
    rw [h.eventsFor_report hs he, h'.eventsFor_report hs' he, holdest, hoffer,
      Generation.kindOf_congr holdest]
  · rw [h.eventsFor_bookmark hs he, h'.eventsFor_bookmark hs' he, h.eventsFor_farewells hs,
      h'.eventsFor_farewells hs', hresumed, hhead, holdest]
    simp only [hancestors]
  · rw [h.eventsFor_error hs he, h'.eventsFor_error hs' he]

end Chain

/-! ## Handlers that know the same -/

namespace Handler

/-- Whether two handlers have begun as many sessions and their generations know the same. -/
structure Alike (h h' : Handler) : Prop where
  sessions : h'.sessions = h.sessions
  lineage : h'.chain.lineage = h.chain.lineage

/-- Whether a handler serves a subscriber. -/
structure Keeps (h : Handler) (s : Subscriber) : Prop where
  sound : h.Sound
  live : h.stopped = false
  there : s ∈ h.chain.oldest.subscribers

/-- A handler after it took up some notices and nothing else happened. -/
def after (h : Handler) (notices : List Notice) : Handler :=
  notices.foldl (fun h n => (Relay.take h n).1) h

/-- What a subscriber is to be sent while the handler takes up some notices and nothing else
happens. -/
def owed (id : Nat) : Handler → List Notice → List Change
  | _, [] => []
  | h, n :: rest => eventsFor id (Relay.take h n).2.planned ++ owed id (Relay.take h n).1 rest

variable {h h' h'' : Handler} {s : Subscriber}

theorem after_snoc (h : Handler) (notices : List Notice) (n : Notice) :
    h.after (notices ++ [n]) = (Relay.take (h.after notices) n).1 := by
  simp [after]

theorem owed_append (id : Nat) (h : Handler) (notices more : List Notice) :
    owed id h (notices ++ more) = owed id h notices ++ owed id (h.after notices) more := by
  induction notices generalizing h with
  | nil => rfl
  | cons n rest ih =>
    rw [List.cons_append, owed, owed, ih, List.append_assoc]
    rfl

theorem owed_prefix (id : Nat) (h : Handler) {notices more : List Notice} (hp : notices <+: more) :
    owed id h notices <+: owed id h more := by
  obtain ⟨rest, rfl⟩ := hp
  rw [owed_append]
  exact List.prefix_append _ _

theorem Alike.refl (h : Handler) : h.Alike h := ⟨rfl, rfl⟩

theorem Alike.trans (ha : h.Alike h') (ha' : h'.Alike h'') : h.Alike h'' :=
  ⟨ha'.sessions.trans ha.sessions, ha'.lineage.trans ha.lineage⟩

theorem Alike.take (ha : h.Alike h') (hlive : h.stopped = false) (hlive' : h'.stopped = false)
    (n : Notice) : (Relay.take h n).1.Alike (Relay.take h' n).1 := by
  cases n with
  | opened resumed =>
    refine ⟨congrArg (· + 1) ha.sessions, ?_⟩
    show (h'.beginSession resumed).chain.lineage = (h.beginSession resumed).chain.lineage
    unfold beginSession
    rw [ha.sessions]
    split
    · exact ha.lineage
    · exact congrArg ((resumed, Ledger.empty) :: ·) ha.lineage
  | event e =>
    refine ⟨?_, ?_⟩
    · exact (Serving.plan_keeps h' e).1.trans (ha.sessions.trans (Serving.plan_keeps h e).1.symm)
    · show (h'.plan e).1.chain.lineage = (h.plan e).1.chain.lineage
      rw [Serving.plan_of_live hlive, Serving.plan_of_live hlive']
      exact Chain.lineage_dispatch ha.lineage e

namespace Keeps

theorem take (hk : h.Keeps s) (n : Notice) : (Relay.take h n).1.Keeps s := by
  refine ⟨(hk.sound.take n).1, ?_, ?_⟩
  · cases n with
    | opened resumed => exact hk.live
    | event e => exact (Serving.plan_keeps h e).2.trans hk.live
  · cases n with
    | opened resumed =>
      show s ∈ (h.beginSession resumed).chain.oldest.subscribers
      unfold beginSession
      split
      · exact hk.there
      · rw [(h.chain.oldest_advance _ resumed).2]
        exact hk.there
    | event e =>
      show s ∈ (h.plan e).1.chain.oldest.subscribers
      rw [Serving.plan_of_live hk.live]
      have hsame := hk.sound.gathered.subscribers_apply (.dispatch e)
      exact hsame ▸ hk.there

theorem after (hk : h.Keeps s) (notices : List Notice) : (h.after notices).Keeps s := by
  induction notices generalizing h with
  | nil => exact hk
  | cons n rest ih => exact ih (hk.take n)

/-- Handlers that know the same plan the same for a subscriber that both serve. -/
theorem eventsFor_take (hk : h.Keeps s) (hk' : h'.Keeps s) (ha : h.Alike h') (n : Notice) :
    eventsFor s.id (Relay.take h' n).2.planned = eventsFor s.id (Relay.take h n).2.planned := by
  cases n with
  | opened resumed => rfl
  | event e =>
    show eventsFor s.id (h'.plan e).2 = eventsFor s.id (h.plan e).2
    rw [Serving.plan_of_live hk.live, Serving.plan_of_live hk'.live]
    exact hk.sound.gathered.eventsFor_dispatch_of_lineage hk'.sound.gathered hk.there hk'.there
      ha.lineage e

/-- A handler that loses others goes on as before. -/
theorem remove (hk : h.Keeps s) {ids : List Nat} (hid : s.id ∉ ids) :
    (h.remove ids).Keeps s ∧ h.Alike (h.remove ids) := by
  have hsound := (hk.sound.remove ids).1
  have hthere : s ∈ (h.remove ids).chain.oldest.subscribers :=
    (hk.sound.gathered.mem_foldl_detach ids s).mpr ⟨hk.there, hid⟩
  exact ⟨⟨hsound, hsound.live_of_mem hthere, hthere⟩, rfl,
    hk.sound.gathered.lineage_foldl_detach ids⟩

theorem attach (hk : h.Keeps s) {t : Subscriber} (hne : t.id ≠ s.id) :
    (h.attach t).Keeps s ∧ h.Alike (h.attach t) := by
  refine ⟨⟨(hk.sound.attach hk.live t).1, hk.live, ?_⟩, rfl, h.chain.lineage_attachOldest t⟩
  show s ∈ (h.chain.attachOldest t).oldest.subscribers
  rw [Chain.oldest_attachOldest]
  exact List.mem_append_left _ (List.mem_filter.mpr ⟨hk.there, by simpa using hne.symm⟩)

end Keeps

end Handler

end SharedWatch
