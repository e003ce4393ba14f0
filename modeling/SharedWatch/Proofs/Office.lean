import Mathlib.Data.List.Nodup
import SharedWatch.Hub.Basic
import SharedWatch.Proofs.Desk

/-!
Handlers from their start to their end, with callers that come in any order.

An `Office` is the registry with everybody who works on it at once. A caller that subscribes has the
list of handlers to itself from the look at the list until it has joined; meanwhile handlers stop,
lose subscribers and take up what their connections say, each in sections of its own. Who stops a
handler takes it off the list in a later section, and others may come in between.

Main statement: `handlers_lifecycle`. In every state a handler that has not stopped is the one that
is listed for its target, one that has stopped is empty for good, and one that somebody has joined
and that has not stopped is not empty. An entry of the list goes only when its own handler has
stopped, and whoever subscribes joins one generation of a handler that has not.
-/

namespace SharedWatch

/-! ## Handlers -/

namespace Handler

/-- All subscribers of a handler are in the oldest generation, and there are none once it has
stopped. -/
structure Sound (h : Handler) : Prop where
  gathered : h.chain.Gathered
  empty : h.stopped = true → h.chain.oldest.subscribers = []

/-- What a handler may become without a new subscriber: it stays stopped, and stops when it loses
the last one. -/
structure Shrinks (h h' : Handler) : Prop where
  target : h'.target = h.target
  stopped : h.stopped = true → h'.stopped = true
  subset : ∀ s ∈ h'.chain.oldest.subscribers, s ∈ h.chain.oldest.subscribers
  occupied : h'.stopped = false → h.chain.oldest.subscribers ≠ [] →
    h'.chain.oldest.subscribers ≠ []

variable {h : Handler}

/-- A handler that has somebody in it has not stopped. -/
theorem Sound.live_of_mem (hs : h.Sound) {s : Subscriber}
    (hmem : s ∈ h.chain.oldest.subscribers) : h.stopped = false := by
  cases hstopped : h.stopped
  · rfl
  · rw [hs.empty hstopped] at hmem
    cases hmem

theorem new_sound (target : Target) : (new target).Sound where
  gathered := .first 1
  empty := by simp [new]

theorem Sound.remove (hs : h.Sound) (ids : List Nat) :
    (h.remove ids).Sound ∧ h.Shrinks (h.remove ids) := by
  have hgathered := hs.gathered.foldl_detach ids
  have hmem := hs.gathered.mem_foldl_detach ids
  have hsubset : ∀ s ∈ (h.remove ids).chain.oldest.subscribers, s ∈ h.chain.oldest.subscribers :=
    fun s ht => ((hmem s).mp ht).1
  refine ⟨⟨hgathered, ?_⟩, ⟨rfl, ?_, hsubset, ?_⟩⟩
  · intro hstopped
    simp only [Handler.remove, Bool.or_eq_true, Bool.and_eq_true, beq_iff_eq] at hstopped
    rcases hstopped with hstopped | ⟨-, hzero⟩
    · rw [List.eq_nil_iff_forall_not_mem]
      intro s ht
      have hbefore := hsubset s ht
      rw [hs.empty hstopped] at hbefore
      cases hbefore
    · rw [hgathered.subscriberCount] at hzero
      exact List.length_eq_zero_iff.mp hzero
  · intro hstopped
    simp [Handler.remove, hstopped]
  · -- a handler that goes on after losing all would have had nobody to lose
    intro hlive hoccupied hnone
    have hzero : (ids.foldl Chain.detach h.chain).subscriberCount = 0 := by
      rw [hgathered.subscriberCount]
      exact List.length_eq_zero_iff.mpr hnone
    have hpos : 0 < h.chain.subscriberCount := by
      rw [hs.gathered.subscriberCount]
      exact List.length_pos_iff.mpr hoccupied
    simp [Handler.remove, hzero, hpos] at hlive

theorem shutdown_sound (h : Handler) : h.shutdown.Sound ∧ h.Shrinks h.shutdown := by
  have hempty : h.shutdown.chain.oldest.subscribers = [] := h.chain.oldest_dismiss
  refine ⟨⟨h.chain.dismiss_gathered, fun _ => hempty⟩, ⟨rfl, fun _ => rfl, ?_, ?_⟩⟩
  · intro s hs
    rw [hempty] at hs
    cases hs
  · intro hlive
    cases hlive

/-- What the connection says changes neither the subscribers nor whether the handler serves. -/
theorem Sound.take (hs : h.Sound) (n : Notice) :
    (Relay.take h n).1.Sound ∧ h.Shrinks (Relay.take h n).1 := by
  have hkeeps : ∀ h' : Handler, h'.target = h.target → h'.stopped = h.stopped →
      h'.chain.Gathered → h'.chain.oldest.subscribers = h.chain.oldest.subscribers →
      h'.Sound ∧ h.Shrinks h' := by
    intro h' htarget hstopped hgathered hsame
    refine ⟨⟨hgathered, fun hend => ?_⟩, ⟨htarget, fun hend => hstopped.trans hend, ?_, ?_⟩⟩
    · rw [hsame]
      exact hs.empty (hstopped ▸ hend)
    · intro s hs
      rwa [hsame] at hs
    · intro _ hoccupied
      rwa [hsame]
  cases n with
  | opened resumed =>
    show (h.beginSession resumed).Sound ∧ h.Shrinks (h.beginSession resumed)
    unfold Handler.beginSession
    by_cases hfirst : h.sessions = 0
    · rw [if_pos hfirst]
      exact hkeeps _ rfl rfl hs.gathered rfl
    · rw [if_neg hfirst]
      exact hkeeps _ rfl rfl (hs.gathered.advance _ _)
        (congrArg _ (h.chain.oldest_advance (h.chain.head.id + 1) resumed).2)
  | event e =>
    show (h.plan e).1.Sound ∧ h.Shrinks (h.plan e).1
    cases hlive : h.stopped with
    | false =>
      rw [Serving.plan_of_live hlive]
      exact hkeeps _ rfl rfl (hs.gathered.apply (.dispatch e)) (hs.gathered.subscribers_apply _)
    | true =>
      rw [Serving.plan_of_stopped hlive]
      exact hkeeps _ rfl rfl hs.gathered rfl

theorem mem_attach (h : Handler) (s : Subscriber) :
    s ∈ (h.attach s).chain.oldest.subscribers := by
  simp [Handler.attach, Chain.oldest_attachOldest, Generation.attach, Generation.join]

/-- A new subscriber comes to those who are there. -/
theorem Sound.attach (hs : h.Sound) (hlive : h.stopped = false) (s : Subscriber) :
    (h.attach s).Sound ∧
      ∀ t ∈ (h.attach s).chain.oldest.subscribers, t = s ∨ t ∈ h.chain.oldest.subscribers := by
  refine ⟨⟨hs.gathered.attachOldest s, ?_⟩, ?_⟩
  · intro hstopped
    rw [show (h.attach s).stopped = h.stopped from rfl, hlive] at hstopped
    cases hstopped
  · intro t ht
    exact (Chain.mem_attachOldest ht).imp_right And.right

end Handler

/-- A subscriber of a gathered chain is in exactly one generation. -/
theorem Chain.Gathered.countP_has {c : Chain} (h : c.Gathered) {s : Subscriber}
    (hs : s ∈ c.oldest.subscribers) : c.generations.countP (·.has s.id) = 1 := by
  have hnewer : c.newer.countP (·.has s.id) = 0 := by
    rw [List.countP_eq_zero]
    intro g hg
    simp [Generation.has, h.newer_empty g hg]
  have holdest : c.oldest.has s.id = true := List.any_eq_true.mpr ⟨s, hs, beq_self_eq_true _⟩
  rw [c.generations_eq, List.countP_append, hnewer, List.countP_singleton, if_pos holdest]

/-! ## The list of handlers -/

namespace Registry
variable {r : Registry} {k j : Nat} {f : Handler → Handler} {target : Target} {h : Handler}

theorem handler?_change : (r.change k f).handler? j =
    if k = j then (r.handler? j).map f else r.handler? j := by
  unfold handler? change
  rw [List.getElem?_modify]
  split <;> simp

theorem handler?_start : (r.start target).handler? j =
    if j = r.handlers.length then some (.new target) else r.handler? j := by
  unfold handler? start
  split
  · next hj => simp [hj]
  · next hj =>
    rcases Nat.lt_or_ge j r.handlers.length with hlt | hge
    · rw [List.getElem?_append_left hlt]
    · rw [List.getElem?_eq_none (by simp only [List.length_append, List.length_singleton]; omega),
        List.getElem?_eq_none hge]

theorem handler?_start_of_some (hj : r.handler? j = some h) :
    (r.start target).handler? j = some h := by
  have hlt := (List.getElem?_eq_some_iff.mp hj).1
  rw [handler?_start, if_neg (by omega), hj]

theorem mem_serving_start {t : Target} : (t, j) ∈ (r.start target).serving ↔
    t = target ∧ j = r.handlers.length ∨ (t, j) ∈ r.serving ∧ t ≠ target := by
  simp [start]

/-- A target is listed once. -/
theorem eq_of_serving (hd : (r.serving.map (·.1)).Nodup) (hk : (target, k) ∈ r.serving)
    (hj : (target, j) ∈ r.serving) : k = j :=
  congrArg Prod.snd (List.inj_on_of_nodup_map hd hk hj rfl)

theorem number?_eq_some (hd : (r.serving.map (·.1)).Nodup) :
    r.number? target = some k ↔ (target, k) ∈ r.serving := by
  unfold number?
  rw [Option.map_eq_some_iff]
  have hfound : ∀ x, (r.serving.find? fun x => x.1 == target) = some x → x.1 = target := by
    intro x hx
    have hbeq := List.find?_some hx
    exact eq_of_beq hbeq
  constructor
  · rintro ⟨x, hx, rfl⟩
    have hmem := List.mem_of_find?_eq_some hx
    rw [← hfound x hx]
    exact hmem
  · intro hk
    cases hfind : r.serving.find? fun x => x.1 == target with
    | none => exact absurd (beq_self_eq_true target) (List.find?_eq_none.mp hfind _ hk)
    | some x =>
      have hmem : (target, x.2) ∈ r.serving := by
        rw [← hfound x hfind]
        exact List.mem_of_find?_eq_some hfind
      exact ⟨x, rfl, eq_of_serving hd hmem hk⟩

theorem stopped_eq_false : r.stopped k = false ↔
    ∃ h, r.handler? k = some h ∧ h.stopped = false := by
  unfold stopped
  cases r.handler? k <;> simp

/-- The handler for a target as a caller finds it on the list, or starts it. -/
def lookUp (r : Registry) (target : Target) : Registry × Nat :=
  match r.number? target with
  | some k => (r, k)
  | none => (r.start target, r.handlers.length)

end Registry

/-! ## Sections -/

/-- A caller that has the list to itself until it has joined a handler. -/
structure Clerk where
  subscriber : Subscriber
  target : Target
  /-- The number of the handler that it found or started. -/
  found : Nat

/-- The registry and those who work on it. -/
structure Office where
  registry : Registry
  /-- Who has the list. -/
  clerk : Option Clerk
  /-- The numbers that were given to subscribers. -/
  taken : List Nat
  /-- Who has joined, and which handler, the last one first. -/
  joined : List (Nat × Nat)

/-- One section under a lock. -/
inductive OfficeMove where
  /-- A caller takes the list and looks its target up. -/
  | call (s : Subscriber) (target : Target)
  /-- The caller joins the handler that it found, unless that has stopped: then it starts another
  one. -/
  | join
  /-- Subscribers are taken out of a handler: by themselves, for a token, or after a delivery that
  failed. -/
  | remove (k : Nat) (ids : List Nat)
  /-- The connection of a handler has ended or failed. -/
  | shutdown (k : Nat)
  /-- A handler that has stopped is taken off the list. -/
  | forget (k : Nat)
  /-- A handler takes up what its connection says. -/
  | hear (k : Nat) (n : Notice)

namespace Office

def empty : Office := ⟨.empty, none, [], []⟩

/-- The office after a section; one that has to wait for the list changes nothing. -/
def step (o : Office) : OfficeMove → Office
  | .call s target =>
    if o.clerk.isSome ∨ s.id ∈ o.taken then o
    else
      let (registry, found) := o.registry.lookUp target
      { o with registry, clerk := some ⟨s, target, found⟩, taken := s.id :: o.taken }
  | .join =>
    match o.clerk with
    | none => o
    | some c =>
      if o.registry.stopped c.found then
        { o with
          registry := o.registry.start c.target
          clerk := some { c with found := o.registry.handlers.length } }
      else
        { o with
          registry := o.registry.change c.found (·.attach c.subscriber)
          clerk := none
          joined := (c.subscriber.id, c.found) :: o.joined }
  | .remove k ids => { o with registry := o.registry.change k (·.remove ids) }
  | .shutdown k => { o with registry := o.registry.change k (·.shutdown) }
  | .forget k =>
    if o.clerk.isNone ∧ o.registry.stopped k then { o with registry := o.registry.forget k } else o
  | .hear k n => { o with registry := o.registry.change k fun h => (Relay.take h n).1 }

def run (o : Office) (moves : List OfficeMove) : Office := moves.foldl step o

/-! ## What every section keeps -/

structure Sound (o : Office) : Prop where
  /-- A listed handler is one for its target. -/
  listed : ∀ target k, (target, k) ∈ o.registry.serving →
    ∃ h, o.registry.handler? k = some h ∧ h.target = target
  single : (o.registry.serving.map (·.1)).Nodup
  /-- A handler that has not stopped is listed. -/
  live : ∀ k h, o.registry.handler? k = some h → h.stopped = false →
    (h.target, k) ∈ o.registry.serving
  handlers : ∀ k h, o.registry.handler? k = some h → h.Sound
  /-- Whoever is in a handler has joined it. -/
  members : ∀ k h, o.registry.handler? k = some h → ∀ s ∈ h.chain.oldest.subscribers,
    (s.id, k) ∈ o.joined
  /-- A handler that somebody has joined is not left empty unless it stops. -/
  occupied : ∀ k h, o.registry.handler? k = some h → h.stopped = false →
    ∀ id, (id, k) ∈ o.joined → h.chain.oldest.subscribers ≠ []
  /-- Nobody joins twice, and only handlers that were started are joined. -/
  once : (o.joined.map (·.1)).Nodup ∧
    ∀ id k, (id, k) ∈ o.joined → id ∈ o.taken ∧ k < o.registry.handlers.length
  /-- The handler that a caller has found is listed until the caller has joined. -/
  clerk : ∀ c, o.clerk = some c → (c.target, c.found) ∈ o.registry.serving ∧
    c.subscriber.id ∈ o.taken ∧ ∀ k, (c.subscriber.id, k) ∉ o.joined

namespace Sound
variable {o : Office}

theorem empty : Sound .empty where
  listed := by simp [Office.empty, Registry.empty]
  single := List.nodup_nil
  live := by simp [Office.empty, Registry.empty, Registry.handler?]
  handlers := by simp [Office.empty, Registry.empty, Registry.handler?]
  members := by simp [Office.empty, Registry.empty, Registry.handler?]
  occupied := by simp [Office.empty, Registry.empty, Registry.handler?]
  once := by simp [Office.empty]
  clerk := by simp [Office.empty]

/-- A section under the lock of one handler that lets nobody in. -/
theorem change (hs : o.Sound) (k : Nat) {f : Handler → Handler}
    (hf : ∀ h, o.registry.handler? k = some h → (f h).Sound ∧ h.Shrinks (f h)) :
    Sound { o with registry := o.registry.change k f } := by
  -- what a handler was before, and how it has changed
  have hbefore : ∀ j h', (o.registry.change k f).handler? j = some h' →
      ∃ h, o.registry.handler? j = some h ∧ h'.Sound ∧ h.Shrinks h' := by
    intro j h' hj
    rw [Registry.handler?_change] at hj
    split at hj
    · next hkj =>
      subst hkj
      obtain ⟨h, hh, rfl⟩ := Option.map_eq_some_iff.mp hj
      exact ⟨h, hh, hf h hh⟩
    · exact ⟨h', hj, hs.handlers j h' hj, ⟨rfl, id, fun _ => id, fun _ => id⟩⟩
  have hlive : ∀ h h' : Handler, h.Shrinks h' → h'.stopped = false → h.stopped = false := by
    intro h h' hshrinks hlive
    cases hstopped : h.stopped with
    | false => rfl
    | true => exact absurd (hshrinks.stopped hstopped) (by simp [hlive])
  refine
    { listed := ?listed, single := hs.single, live := ?live, handlers := ?handlers
      members := ?members, occupied := ?occupied, once := ?once, clerk := hs.clerk }
  case listed =>
    intro target j hj
    obtain ⟨h, hh, htarget⟩ := hs.listed target j hj
    by_cases hkj : k = j
    · subst hkj
      refine ⟨f h, ?_, (hf h hh).2.target.trans htarget⟩
      rw [Registry.handler?_change, if_pos rfl, hh]
      rfl
    · exact ⟨h, by rw [Registry.handler?_change, if_neg hkj, hh], htarget⟩
  case live =>
    intro j h' hj hlive'
    obtain ⟨h, hh, -, hshrinks⟩ := hbefore j h' hj
    rw [hshrinks.target]
    exact hs.live j h hh (hlive h h' hshrinks hlive')
  case handlers =>
    intro j h' hj
    obtain ⟨-, -, hsound, -⟩ := hbefore j h' hj
    exact hsound
  case members =>
    intro j h' hj s hmem
    obtain ⟨h, hh, -, hshrinks⟩ := hbefore j h' hj
    exact hs.members j h hh s (hshrinks.subset s hmem)
  case occupied =>
    intro j h' hj hlive' id hid
    obtain ⟨h, hh, -, hshrinks⟩ := hbefore j h' hj
    exact hshrinks.occupied hlive' (hs.occupied j h hh (hlive h h' hshrinks hlive') id hid)
  case once =>
    refine ⟨hs.once.1, fun id j hid => ?_⟩
    obtain ⟨hid, hj⟩ := hs.once.2 id j hid
    exact ⟨hid, by simpa [Registry.change] using hj⟩

/-- A caller starts a handler for a target whose handler has stopped, or that has none. -/
theorem start (hs : o.Sound) {target : Target} {s : Subscriber} {taken : List Nat}
    (hstopped : ∀ k, (target, k) ∈ o.registry.serving → o.registry.stopped k = true)
    (htaken : ∀ id ∈ o.taken, id ∈ taken) (hid : s.id ∈ taken)
    (hnew : ∀ k, (s.id, k) ∉ o.joined) :
    Sound { o with
      registry := o.registry.start target
      clerk := some ⟨s, target, o.registry.handlers.length⟩
      taken } := by
  -- nobody has joined the new handler
  have hfresh : ∀ id k, (id, k) ∈ o.joined → k ≠ o.registry.handlers.length := by
    intro id k hk
    exact Nat.ne_of_lt (hs.once.2 id k hk).2
  refine
    { listed := ?listed, single := ?single, live := ?live, handlers := ?handlers
      members := ?members, occupied := ?occupied, once := ⟨hs.once.1, ?once⟩, clerk := ?clerk }
  case listed =>
    intro t k hk
    rcases Registry.mem_serving_start.mp hk with ⟨rfl, rfl⟩ | ⟨hk, -⟩
    · exact ⟨.new t, by rw [Registry.handler?_start, if_pos rfl], rfl⟩
    · obtain ⟨h, hh, htarget⟩ := hs.listed t k hk
      exact ⟨h, Registry.handler?_start_of_some hh, htarget⟩
  case single =>
    have hsub := (List.filter_sublist (p := fun x : Target × Nat => x.1 != target)
      (l := o.registry.serving)).map (·.1)
    refine List.nodup_cons.mpr ⟨?_, hs.single.sublist hsub⟩
    simp
  case live =>
    intro k h hk hlive
    rw [Registry.handler?_start] at hk
    rw [Registry.mem_serving_start]
    split at hk
    · next hk' =>
      cases hk
      exact Or.inl ⟨rfl, hk'⟩
    · have hlisted := hs.live k h hk hlive
      refine Or.inr ⟨hlisted, ?_⟩
      rintro rfl
      have hend := hstopped k hlisted
      rw [Registry.stopped_eq_false.mpr ⟨h, hk, hlive⟩] at hend
      cases hend
  case handlers =>
    intro k h hk
    rw [Registry.handler?_start] at hk
    split at hk
    · cases hk
      exact Handler.new_sound target
    · exact hs.handlers k h hk
  case members =>
    intro k h hk s hmem
    rw [Registry.handler?_start] at hk
    split at hk
    · cases hk
      cases hmem
    · exact hs.members k h hk s hmem
  case occupied =>
    intro k h hk hlive id hid
    rw [Registry.handler?_start, if_neg (hfresh id k hid)] at hk
    exact hs.occupied k h hk hlive id hid
  case once =>
    intro id k hk
    obtain ⟨hid, hlt⟩ := hs.once.2 id k hk
    refine ⟨htaken id hid, ?_⟩
    simp only [Registry.start, List.length_append, List.length_singleton]
    omega
  case clerk =>
    intro c hc
    cases hc
    exact ⟨Registry.mem_serving_start.mpr (Or.inl ⟨rfl, rfl⟩), hid, hnew⟩

/-- A handler that has stopped is taken off the list. -/
theorem forget (hs : o.Sound) (hclerk : o.clerk = none) {k : Nat}
    (hstopped : o.registry.stopped k = true) :
    Sound { o with registry := o.registry.forget k } := by
  have hserving : ∀ t j, (t, j) ∈ (o.registry.forget k).serving ↔
      (t, j) ∈ o.registry.serving ∧ j ≠ k := by
    simp [Registry.forget]
  refine
    { listed := ?listed, single := ?single, live := ?live, handlers := hs.handlers
      members := hs.members, occupied := hs.occupied, once := hs.once, clerk := ?clerk }
  case listed =>
    intro t j hj
    exact hs.listed t j ((hserving t j).mp hj).1
  case single =>
    exact hs.single.sublist (List.filter_sublist.map _)
  case live =>
    intro j h hj hlive
    refine (hserving _ _).mpr ⟨hs.live j h hj hlive, ?_⟩
    rintro rfl
    have hlive : o.registry.stopped j = false := Registry.stopped_eq_false.mpr ⟨h, hj, hlive⟩
    rw [hlive] at hstopped
    cases hstopped
  case clerk =>
    intro c hc
    rw [show o.clerk = some c from hc] at hclerk
    cases hclerk

/-- A caller joins the handler that it has found. -/
theorem join (hs : o.Sound) {c : Clerk} (hc : o.clerk = some c)
    (hlive : o.registry.stopped c.found = false) :
    Sound { o with
      registry := o.registry.change c.found (·.attach c.subscriber)
      clerk := none
      joined := (c.subscriber.id, c.found) :: o.joined } := by
  obtain ⟨-, htaken, hnew⟩ := hs.clerk c hc
  obtain ⟨h, hh, hlive'⟩ := Registry.stopped_eq_false.mp hlive
  obtain ⟨hsound, hmem⟩ := (hs.handlers _ h hh).attach hlive' c.subscriber
  -- a handler afterwards is the joined one, or one as it was before
  have hcases : ∀ j h', (o.registry.change c.found (·.attach c.subscriber)).handler? j = some h' →
      j = c.found ∧ h' = h.attach c.subscriber ∨ j ≠ c.found ∧ o.registry.handler? j = some h' := by
    intro j h' hj
    rw [Registry.handler?_change] at hj
    split at hj
    · next heq =>
      subst heq
      rw [hh] at hj
      cases hj
      exact Or.inl ⟨rfl, rfl⟩
    · next hne => exact Or.inr ⟨fun heq => hne heq.symm, hj⟩
  refine
    { listed := ?listed, single := hs.single, live := ?live, handlers := ?handlers
      members := ?members, occupied := ?occupied, once := ?once, clerk := ?clerk }
  case listed =>
    intro t j hj
    obtain ⟨h', hh', htarget'⟩ := hs.listed t j hj
    rw [Registry.handler?_change]
    split
    · next heq =>
      subst heq
      exact ⟨h'.attach c.subscriber, by rw [hh']; rfl, htarget'⟩
    · exact ⟨h', hh', htarget'⟩
  case live =>
    intro j h' hj hlive
    rcases hcases j h' hj with ⟨rfl, rfl⟩ | ⟨-, hj⟩
    · exact hs.live _ h hh hlive'
    · exact hs.live j h' hj hlive
  case handlers =>
    intro j h' hj
    rcases hcases j h' hj with ⟨rfl, rfl⟩ | ⟨-, hj⟩
    · exact hsound
    · exact hs.handlers j h' hj
  case members =>
    intro j h' hj s hs'
    rcases hcases j h' hj with ⟨rfl, rfl⟩ | ⟨-, hj⟩
    · rcases hmem s hs' with rfl | hold
      · exact List.mem_cons_self
      · exact List.mem_cons_of_mem _ (hs.members _ h hh s hold)
    · exact List.mem_cons_of_mem _ (hs.members j h' hj s hs')
  case occupied =>
    intro j h' hj hlive id hid
    rcases hcases j h' hj with ⟨rfl, rfl⟩ | ⟨hne, hj⟩
    · exact List.ne_nil_of_mem (h.mem_attach c.subscriber)
    · rcases List.mem_cons.mp hid with heq | hid
      · exact absurd (congrArg Prod.snd heq) hne
      · exact hs.occupied j h' hj hlive id hid
  case once =>
    refine ⟨List.nodup_cons.mpr ⟨?_, hs.once.1⟩, ?_⟩
    · intro hmem
      obtain ⟨⟨id, j⟩, hx, rfl⟩ := List.mem_map.mp hmem
      exact hnew j hx
    · have hlength : (o.registry.change c.found (·.attach c.subscriber)).handlers.length =
          o.registry.handlers.length := by simp [Registry.change]
      intro id j hid
      rw [hlength]
      rcases List.mem_cons.mp hid with heq | hid
      · cases heq
        exact ⟨htaken, (List.getElem?_eq_some_iff.mp hh).1⟩
      · exact hs.once.2 id j hid
  case clerk =>
    intro c' hc'
    cases hc'

theorem step (hs : o.Sound) (m : OfficeMove) : (o.step m).Sound := by
  cases m with
  | call s target =>
    unfold Office.step
    dsimp only
    split
    · exact hs
    · next hfree =>
      obtain ⟨hclerk, hid⟩ := not_or.mp hfree
      have hnew : ∀ k, (s.id, k) ∉ o.joined := fun k hk => hid (hs.once.2 s.id k hk).1
      unfold Registry.lookUp
      cases hnumber : o.registry.number? target with
      | some k =>
        have hlisted := (Registry.number?_eq_some hs.single).mp hnumber
        refine ⟨hs.listed, hs.single, hs.live, hs.handlers, hs.members, hs.occupied,
          ⟨hs.once.1, fun id j hj => ?_⟩, ?_⟩
        · exact ⟨List.mem_cons_of_mem _ (hs.once.2 id j hj).1, (hs.once.2 id j hj).2⟩
        · intro c hc
          cases hc
          exact ⟨hlisted, List.mem_cons_self, hnew⟩
      | none =>
        refine hs.start ?_ (fun id => List.mem_cons_of_mem _) List.mem_cons_self hnew
        intro k hk
        rw [(Registry.number?_eq_some hs.single).mpr hk] at hnumber
        cases hnumber
  | join =>
    unfold Office.step
    cases hc : o.clerk with
    | none => exact hs
    | some c =>
      obtain ⟨hlisted, htaken, hnew⟩ := hs.clerk c hc
      dsimp only
      split
      · next hstopped =>
        refine hs.start ?_ (fun _ => id) htaken hnew
        intro k hk
        rwa [Registry.eq_of_serving hs.single hk hlisted]
      · next hlive => exact hs.join hc (by simpa using hlive)
  | remove k ids => exact hs.change k fun h hh => (hs.handlers k h hh).remove ids
  | shutdown k => exact hs.change k fun h _ => h.shutdown_sound
  | forget k =>
    unfold Office.step
    dsimp only
    split
    · next hfree => exact hs.forget (by simpa using hfree.1) hfree.2
    · exact hs
  | hear k n => exact hs.change k fun h hh => (hs.handlers k h hh).take n

theorem run (hs : o.Sound) (moves : List OfficeMove) : (o.run moves).Sound := by
  induction moves generalizing o with
  | nil => exact hs
  | cons m moves ih => exact ih (hs.step m)

end Sound

/-! ## What becomes of handlers and of the list -/

variable {o : Office} {k : Nat} {target : Target}

/-- Whether a handler was started and has stopped. -/
def Retired (o : Office) (k : Nat) : Prop :=
  ∃ h, o.registry.handler? k = some h ∧ h.stopped = true

namespace Retired

theorem change (hr : o.Retired k) (j : Nat) {f : Handler → Handler}
    (hf : ∀ h, h.stopped = true → (f h).stopped = true) :
    ∃ h, (o.registry.change j f).handler? k = some h ∧ h.stopped = true := by
  obtain ⟨h, hk, hstopped⟩ := hr
  rw [Registry.handler?_change]
  split
  · exact ⟨f h, by rw [hk]; rfl, hf h hstopped⟩
  · exact ⟨h, hk, hstopped⟩

theorem start (hr : o.Retired k) (target : Target) :
    ∃ h, (o.registry.start target).handler? k = some h ∧ h.stopped = true := by
  obtain ⟨h, hk, hstopped⟩ := hr
  exact ⟨h, Registry.handler?_start_of_some hk, hstopped⟩

theorem step (hr : o.Retired k) (m : OfficeMove) : (o.step m).Retired k := by
  cases m with
  | call s target =>
    unfold Office.step Registry.lookUp
    dsimp only
    split
    · exact hr
    · split
      · exact hr
      · exact hr.start target
  | join =>
    unfold Office.step
    cases o.clerk with
    | none => exact hr
    | some c =>
      dsimp only
      split
      · exact hr.start c.target
      · exact hr.change c.found fun h hstopped => hstopped
  | remove j ids => exact hr.change j fun h hstopped => by simp [Handler.remove, hstopped]
  | shutdown j => exact hr.change j fun _ _ => rfl
  | forget j =>
    unfold Office.step
    dsimp only
    split <;> exact hr
  | hear j n =>
    refine hr.change j fun h hstopped => ?_
    cases n with
    | opened resumed => exact hstopped
    | event e => exact (Serving.plan_keeps h e).2.trans hstopped

theorem run (hr : o.Retired k) (moves : List OfficeMove) : (o.run moves).Retired k := by
  induction moves generalizing o with
  | nil => exact hr
  | cons m moves ih => exact ih (hr.step m)

end Retired

namespace Sound

theorem count (hs : o.Sound) {h : Handler} (hk : o.registry.handler? k = some h) :
    h.chain.subscriberCount = h.chain.oldest.subscribers.length :=
  (hs.handlers k h hk).gathered.subscriberCount

/-- An entry of the list goes when its own handler has stopped, by the section that takes it off or
by a caller that found it stopped. -/
theorem number?_step (hs : o.Sound) (hk : o.registry.number? target = some k) (m : OfficeMove) :
    (o.step m).registry.number? target = some k ∨
      o.registry.stopped k = true ∧
        (m = .forget k ∨ m = .join ∧ ∃ c, o.clerk = some c ∧ c.found = k) := by
  have hlisted := (Registry.number?_eq_some hs.single).mp hk
  rw [Registry.number?_eq_some (hs.step m).single]
  cases m with
  | call s t =>
    left
    unfold Office.step Registry.lookUp
    dsimp only
    split
    · exact hlisted
    · cases ht : o.registry.number? t with
      | some j => exact hlisted
      | none =>
        refine Registry.mem_serving_start.mpr (Or.inr ⟨hlisted, ?_⟩)
        rintro rfl
        rw [hk] at ht
        cases ht
  | join =>
    unfold Office.step
    cases hc : o.clerk with
    | none => exact Or.inl hlisted
    | some c =>
      dsimp only
      split
      · next hstopped =>
        by_cases htarget : target = c.target
        · subst htarget
          have hfound : c.found = k := Registry.eq_of_serving hs.single (hs.clerk c hc).1 hlisted
          exact Or.inr ⟨hfound ▸ hstopped, Or.inr ⟨rfl, c, rfl, hfound⟩⟩
        · exact Or.inl (Registry.mem_serving_start.mpr (Or.inr ⟨hlisted, htarget⟩))
      · exact Or.inl hlisted
  | remove j ids => exact Or.inl hlisted
  | shutdown j => exact Or.inl hlisted
  | forget j =>
    unfold Office.step
    dsimp only
    split
    · next hfree =>
      by_cases hjk : k = j
      · subst hjk
        exact Or.inr ⟨hfree.2, Or.inl rfl⟩
      · exact Or.inl (List.mem_filter.mpr ⟨hlisted, by simpa using hjk⟩)
    · exact Or.inl hlisted
  | hear j n => exact Or.inl hlisted

/-- A caller that is done has joined one generation of the handler that it found, which had not
stopped, and no other handler. -/
theorem joins (hs : o.Sound) {c : Clerk} (hc : o.clerk = some c) {m : OfficeMove}
    (hdone : (o.step m).clerk = none) :
    o.registry.stopped c.found = false ∧
      (o.step m).joined = (c.subscriber.id, c.found) :: o.joined ∧
      ∀ k h, (o.step m).registry.handler? k = some h →
        h.chain.generations.countP (·.has c.subscriber.id) = if k = c.found then 1 else 0 := by
  cases m with
  | call s target =>
    have hsame : o.step (.call s target) = o := by simp [Office.step, hc]
    rw [hsame, hc] at hdone
    cases hdone
  | join =>
    have hlive : o.registry.stopped c.found = false := by
      cases hstopped : o.registry.stopped c.found with
      | false => rfl
      | true => simp [Office.step, hc, hstopped] at hdone
    have hstep : o.step .join = { o with
        registry := o.registry.change c.found (·.attach c.subscriber)
        clerk := none
        joined := (c.subscriber.id, c.found) :: o.joined } := by
      simp [Office.step, hc, hlive]
    have hs' := hs.step .join
    rw [hstep] at hs' ⊢
    refine ⟨hlive, rfl, fun k h hk => ?_⟩
    have hgathered := (hs'.handlers k h hk).gathered
    split
    · next hfound =>
      subst hfound
      rw [Registry.handler?_change, if_pos rfl] at hk
      obtain ⟨h₀, hh, rfl⟩ := Option.map_eq_some_iff.mp hk
      exact hgathered.countP_has (h₀.mem_attach c.subscriber)
    · next hother =>
      rw [List.countP_eq_zero]
      intro g hg hhas
      obtain ⟨s, hmem, hid⟩ := List.any_eq_true.mp hhas
      have hjoined := hs'.members k h hk s (hgathered.mem_oldest hg hmem)
      rw [eq_of_beq hid] at hjoined
      rcases List.mem_cons.mp hjoined with heq | hold
      · exact hother (congrArg Prod.snd heq)
      · exact (hs.clerk c hc).2.2 k hold
  | remove k ids => exact absurd (hc.symm.trans hdone) (by simp)
  | shutdown k => exact absurd (hc.symm.trans hdone) (by simp)
  | forget k =>
    have hsame : o.step (.forget k) = o := by simp [Office.step, hc]
    rw [hsame, hc] at hdone
    cases hdone
  | hear k n => exact absurd (hc.symm.trans hdone) (by simp)

end Sound

/-- The lifecycle of handlers, in every order of sections. -/
theorem handlers_lifecycle (moves : List OfficeMove) :
    let o := empty.run moves
    (∀ k h, o.registry.handler? k = some h → h.stopped = false →
      o.registry.number? h.target = some k) ∧
    (∀ k h, o.registry.handler? k = some h → h.stopped = true → ∀ more,
      ∃ h', (o.run more).registry.handler? k = some h' ∧ h'.stopped = true ∧
        h'.chain.subscriberCount = 0) ∧
    (∀ k h id, o.registry.handler? k = some h → h.stopped = false → (id, k) ∈ o.joined →
      0 < h.chain.subscriberCount) ∧
    (∀ m target k, o.registry.number? target = some k →
      (o.step m).registry.number? target = some k ∨
        o.registry.stopped k = true ∧
          (m = .forget k ∨ m = .join ∧ ∃ c, o.clerk = some c ∧ c.found = k)) ∧
    ∀ m c, o.clerk = some c → (o.step m).clerk = none →
      o.registry.stopped c.found = false ∧
        (o.step m).joined = (c.subscriber.id, c.found) :: o.joined ∧
        ∀ k h, (o.step m).registry.handler? k = some h →
          h.chain.generations.countP (·.has c.subscriber.id) = if k = c.found then 1 else 0 := by
  intro o
  have hs : o.Sound := Sound.empty.run moves
  refine ⟨?_, ?_, ?_, fun m _ _ hk => hs.number?_step hk m, fun _ _ hc hdone => hs.joins hc hdone⟩
  · intro k h hk hlive
    exact (Registry.number?_eq_some hs.single).mpr (hs.live k h hk hlive)
  · intro k h hk hstopped more
    obtain ⟨h', hk', hstopped'⟩ := Retired.run ⟨h, hk, hstopped⟩ more
    have hs' := hs.run more
    refine ⟨h', hk', hstopped', ?_⟩
    rw [hs'.count hk', (hs'.handlers k h' hk').empty hstopped']
    rfl
  · intro k h id hk hlive hid
    rw [hs.count hk]
    exact List.length_pos_iff.mpr (hs.occupied k h hk hlive id hid)

/-- A second caller comes between the end of a handler and its removal from the list, and gets a
handler of its own, which stays on the list. -/
example : (empty.run [.call ⟨1, .everything⟩ ⟨"v1/Pod", none⟩, .join, .remove 0 [1],
    .call ⟨2, .everything⟩ ⟨"v1/Pod", none⟩, .join, .join, .forget 0]).registry.serving =
      [(⟨"v1/Pod", none⟩, 1)] := by decide +kernel

/-! ## Sections with nothing in between -/

/-- A caller that nobody gets in the way of does what `Registry.subscribe` does. -/
theorem run_subscribe (o : Office) {s : Subscriber} (target : Target) (hfree : o.clerk = none)
    (hnew : s.id ∉ o.taken) :
    (o.run [.call s target, .join, .join]).registry = (o.registry.subscribe target s).1 ∧
      (o.run [.call s target, .join, .join]).joined =
        (s.id, (o.registry.subscribe target s).2.1) :: o.joined := by
  -- a handler that was just started takes the caller in
  have hstarted : (o.registry.start target).stopped o.registry.handlers.length = false := by
    refine Registry.stopped_eq_false.mpr ⟨.new target, ?_, rfl⟩
    rw [Registry.handler?_start, if_pos rfl]
  cases hnumber : o.registry.number? target with
  | none =>
    simp [Office.run, Office.step, hfree, hnew, Registry.lookUp, hnumber, Registry.subscribe,
      Registry.enlist, hstarted]
  | some k =>
    have henlist : ((o.registry.handler? k).any fun h => !h.stopped) = !o.registry.stopped k := by
      unfold Registry.stopped
      cases o.registry.handler? k <;> simp
    cases hstopped : o.registry.stopped k <;>
      simp [Office.run, Office.step, hfree, hnew, Registry.lookUp, hnumber, Registry.subscribe,
        Registry.enlist, henlist, hstopped, hstarted]

/-- A change of a handler that is followed at once by a look whether it has stopped does what
`Hub.changeHandler` does. -/
theorem run_changeHandler {σ : Type} (hub : Hub σ) (o : Office) (hfree : o.clerk = none)
    (hsame : o.registry = hub.registry) (k : Nat) (ids : List Nat) :
    (o.run [.remove k ids, .forget k]).registry = (hub.changeHandler k (·.remove ids)).registry ∧
      (o.run [.shutdown k, .forget k]).registry = (hub.changeHandler k (·.shutdown)).registry := by
  have hforget : ∀ f, ({ o with registry := o.registry.change k f }.step (.forget k)).registry =
      (hub.changeHandler k f).registry := by
    intro f
    simp only [Office.step, hfree, Option.isNone_none, true_and, Hub.changeHandler, ← hsame]
    split <;> rfl
  exact ⟨hforget _, hforget _⟩

end Office

end SharedWatch
