import SharedWatch.Proofs.Operations

/-!
Nobody is sent a version twice or out of order.

`Chain.relayed` is all that a run of a chain sends apart from the deletions that bookmarks make up.
Main statement: of one resource, the versions that one subscriber is sent strictly increase
(`versions_increase`), whatever its filter and whatever sessions, replays and bookmarks come in
between. The server may not bring a resource back at an old version after it was reported deleted
(`Renews`): deleted resources are forgotten at a bookmark.
-/

namespace SharedWatch

namespace Chain

/-- What a run sends, without the deletions that bookmarks make up and the bookmarks themselves. -/
def relayed (c : Chain) : List ChainOp → List Delivery
  | [] => []
  | op :: rest => (if op.isBookmark then [] else c.sends op) ++ (c.apply op).relayed rest

/-- Whether an operation reports a resource deleted: it dispatches a deletion, or a bookmark for
which a deletion is made up. -/
def ReportsDeleted (c : Chain) (op : ChainOp) (x : ResourceName) : Prop :=
  ∃ e, op = .dispatch e ∧
    (e.kind = .deleted ∧ e.resource = x ∨
      e.kind = .bookmark ∧ ∃ d ∈ c.sends op, d.event.kind = .deleted ∧ d.event.resource = x)

/-- Whether a resource was reported deleted during a run and not reported since. -/
def Departed (c : Chain) (ops : List ChainOp) (x : ResourceName) : Prop :=
  ∃ before op after, ops = before ++ op :: after ∧ (c.run before).ReportsDeleted op x ∧
    ∀ e ∈ dispatched after, e.isReport = true → e.resource ≠ x

/-- The first report of a resource after it was reported deleted has a greater version than all
before it. -/
def Renews (c : Chain) (ops : List ChainOp) : Prop :=
  ∀ before e after, ops = before ++ .dispatch e :: after → e.isReport = true →
    c.Departed before e.resource →
    ∀ b ∈ dispatched before, b.isReport = true → b.resource = e.resource → b.number < e.number

theorem relayed_snoc (c : Chain) (ops : List ChainOp) (op : ChainOp) :
    c.relayed (ops ++ [op]) =
      c.relayed ops ++ if op.isBookmark then [] else (c.run ops).sends op := by
  induction ops generalizing c with
  | nil => simp [relayed, run]
  | cons o rest ih =>
    have hrun : c.run (o :: rest) = (c.apply o).run rest := rfl
    simp only [List.cons_append, relayed, ih, hrun, List.append_assoc]

theorem Renews.of_append {c : Chain} {ops more : List ChainOp} (h : c.Renews (ops ++ more)) :
    c.Renews ops := by
  intro before e after hops
  exact h before e (after ++ more) (by simp [hops])

theorem Departed.snoc {c : Chain} {ops : List ChainOp} {x : ResourceName}
    (h : c.Departed ops x) {op : ChainOp}
    (hop : ∀ e, op = .dispatch e → e.isReport = true → e.resource ≠ x) :
    c.Departed (ops ++ [op]) x := by
  obtain ⟨before, o, after, rfl, hdel, hsince⟩ := h
  refine ⟨before, o, after ++ [op], by simp, hdel, ?_⟩
  intro e he
  rw [dispatched_append] at he
  rcases List.mem_append.mp he with he | he
  · exact hsince e he
  · rw [dispatched_singleton] at he
    cases op with
    | dispatch f =>
      have hf : e = f := by simpa [ChainOp.event?] using he
      rw [hf]
      exact hop f rfl
    | _ => simp [ChainOp.event?] at he

theorem departed_of_last {c : Chain} {ops : List ChainOp} {op : ChainOp} {x : ResourceName}
    (h : (c.run ops).ReportsDeleted op x) : c.Departed (ops ++ [op]) x :=
  ⟨ops, op, [], rfl, h, by simp [dispatched]⟩

/-- A resource whose latest report is a deletion has departed. -/
theorem departed_of_latest {c : Chain} {ops : List ChainOp} {x : ResourceName} {a : Change}
    (h : latest x (dispatched ops) = some a) (ha : a.kind = .deleted) : c.Departed ops x := by
  induction ops using List.reverseRecOn with
  | nil => simp [dispatched] at h
  | append_singleton ops op ih =>
    rw [dispatched_append, dispatched_singleton] at h
    cases op with
    | dispatch e =>
      simp only [ChainOp.event?, Option.toList_some, latest_snoc] at h
      split at h
      · next he =>
        cases h
        exact departed_of_last ⟨_, rfl, Or.inl ⟨ha, he.2⟩⟩
      · next he =>
        refine (ih h).snoc ?_
        rintro f hf hr hx
        cases hf
        exact he ⟨hr, hx⟩
    | _ =>
      simp only [ChainOp.event?, Option.toList_none, List.append_nil] at h
      exact (ih h).snoc (by simp)

end Chain

/-! ## Who was sent anything -/

/-- Only subscribers that joined are there, and only they were sent anything. -/
theorem relayed_joined (n : Nat) (ops : List ChainOp) :
    (∀ s ∈ ((Chain.first n).run ops).oldest.subscribers, s.id ∈ ops.filterMap ChainOp.joined?) ∧
      ∀ id, eventsFor id ((Chain.first n).relayed ops) ≠ [] →
        id ∈ ops.filterMap ChainOp.joined? := by
  induction ops using List.reverseRecOn with
  | nil => simp [Chain.run, Chain.first, Chain.oldest, Generation.new, Chain.relayed]
  | append_singleton ops op ih =>
    have hg := Chain.run_gathered n ops
    simp only [List.filterMap_append, List.mem_append, Chain.run_snoc]
    refine ⟨?_, ?_⟩
    · intro s hs
      rw [hg.subscribers_apply op] at hs
      cases op with
      | attach t =>
        rcases List.mem_append.mp hs with hs | hs
        · exact Or.inl (ih.1 s (List.mem_filter.mp hs).1)
        · exact Or.inr (by simp [ChainOp.joined?, List.mem_singleton.mp hs])
      | detach id => exact Or.inl (ih.1 s (List.mem_filter.mp hs).1)
      | advance id resumed => exact Or.inl (ih.1 s hs)
      | dispatch e => exact Or.inl (ih.1 s hs)
    · intro id hid
      rw [Chain.relayed_snoc, eventsFor_append] at hid
      by_cases hold : eventsFor id ((Chain.first n).relayed ops) = []
      · rw [hold, List.nil_append] at hid
        by_cases hb : op.isBookmark = true
        · simp [hb] at hid
        · rw [if_neg hb] at hid
          cases op with
          | attach t =>
            rw [Chain.eventsFor_attach] at hid
            have ht : t.id = id := by
              by_contra hne
              simp [hne] at hid
            exact Or.inr (by simp [ChainOp.joined?, ht])
          | dispatch e =>
            refine Or.inl ?_
            by_contra hne
            refine hid (hg.eventsFor_dispatch_of_absent (fun s hs hsid => ?_) e)
            exact hne (hsid ▸ ih.1 s hs)
          | advance _ _ => simp [Chain.sends] at hid
          | detach _ => simp [Chain.sends] at hid
      · exact Or.inl (ih.2 id hold)

/-! ## What a subscriber was told and what its ledger remembers -/

/-- What a subscriber was told of a resource during a run. -/
def toldOf (c : Chain) (ops : List ChainOp) (id : Nat) (x : ResourceName) : List Change :=
  reportsOf x (eventsFor id (c.relayed ops))

theorem toldOf_snoc (c : Chain) (ops : List ChainOp) (op : ChainOp) (id : Nat) (x : ResourceName) :
    toldOf c (ops ++ [op]) id x = toldOf c ops id x ++
      reportsOf x (eventsFor id (if op.isBookmark then [] else (c.run ops).sends op)) := by
  rw [toldOf, Chain.relayed_snoc, eventsFor_append, reportsOf_append]
  rfl

theorem latest_dispatch (x : ResourceName) (ops : List ChainOp) (e : Change) :
    latest x (dispatched (ops ++ [.dispatch e])) =
      if e.isReport = true ∧ e.resource = x then some e else latest x (dispatched ops) := by
  rw [dispatched_append, dispatched_singleton]
  exact latest_snoc x _ e

theorem latest_quiet {op : ChainOp} (h : ∀ e, op = .dispatch e → e.isReport = false)
    (x : ResourceName) (ops : List ChainOp) :
    latest x (dispatched (ops ++ [op])) = latest x (dispatched ops) := by
  cases op with
  | dispatch e => rw [latest_dispatch, if_neg (by simp [h e rfl])]
  | _ => simp [dispatched_singleton, ChainOp.event?]

/-- Why a run sends no version twice. The oldest ledger remembers the greatest version of each
resource that a subscriber was told of; where it has forgotten the resource, the next report has a
greater version or is not for that subscriber. -/
structure Remembers (c : Chain) (ops : List ChainOp) : Prop where
  counted : ∀ id x, ∀ e ∈ toldOf c ops id x, ∃ n, counter? e.version = some n
  increasing : ∀ id x, (toldOf c ops id x).Pairwise fun a b => a.number < b.number
  bounded : ∀ s ∈ (c.run ops).oldest.subscribers, ∀ x, ∀ e ∈ toldOf c ops s.id x,
    ∃ a, latest x (dispatched ops) = some a ∧ e.number ≤ a.number
  forgotten : ∀ s ∈ (c.run ops).oldest.subscribers, ∀ x a, latest x (dispatched ops) = some a →
    (c.run ops).oldest.ledger.contains x = false → toldOf c ops s.id x ≠ [] →
    c.Departed ops x ∨ s.filter.accepts a.object = false

namespace Remembers
variable {c : Chain} {ops : List ChainOp}

/-- An operation that tells nobody anything: the oldest ledger may only forget resources that have
departed or that are not for a subscriber. -/
theorem quiet (h : Remembers c ops) {op : ChainOp}
    (hevent : ∀ e, op = .dispatch e → e.isReport = false)
    (hsilent : ∀ id x, toldOf c (ops ++ [op]) id x = toldOf c ops id x)
    (hstay : ∀ s ∈ ((c.run ops).apply op).oldest.subscribers,
      s ∈ (c.run ops).oldest.subscribers)
    (hforget : ∀ s ∈ (c.run ops).oldest.subscribers, ∀ x a,
      latest x (dispatched ops) = some a → (c.run ops).oldest.ledger.contains x = true →
      ((c.run ops).apply op).oldest.ledger.contains x = false →
      c.Departed (ops ++ [op]) x ∨ s.filter.accepts a.object = false) :
    Remembers c (ops ++ [op]) := by
  have hlatest := fun x => latest_quiet hevent x ops
  refine ⟨?_, ?_, ?_, ?_⟩
  · intro id x
    rw [hsilent]
    exact h.counted id x
  · intro id x
    rw [hsilent]
    exact h.increasing id x
  · intro s hs x e he
    rw [Chain.run_snoc] at hs
    rw [hsilent] at he
    rw [hlatest]
    exact h.bounded s (hstay s hs) x e he
  · intro s hs x a ha hcontains htold
    rw [Chain.run_snoc] at hs hcontains
    rw [hsilent] at htold
    rw [hlatest] at ha
    cases hold : (c.run ops).oldest.ledger.contains x
    · refine (h.forgotten s (hstay s hs) x a ha hold htold).imp_left fun hd => hd.snoc ?_
      intro e he hr
      rw [hevent e he] at hr
      cases hr
    · exact hforget s (hstay s hs) x a ha hold hcontains

/-- What a subscriber is told of a report: nothing, or the report itself if all that it was told of
the resource before had smaller versions. -/
theorem toldOf_report (h : Remembers c ops) (hc : Coherent (dispatched ops) (c.run ops))
    (hg : (c.run ops).Gathered) {e : Change} (he : e.isReport = true)
    (ha : Admits (dispatched ops) e)
    (hrenew : c.Departed ops e.resource → ∀ b ∈ dispatched ops, b.isReport = true →
      b.resource = e.resource → b.number < e.number) (id : Nat) (x : ResourceName) :
    toldOf c (ops ++ [.dispatch e]) id x = toldOf c ops id x ∨
      e.resource = x ∧ ∃ f, f.version = e.version ∧
        toldOf c (ops ++ [.dispatch e]) id x = toldOf c ops id x ++ [f] ∧
        ∀ b ∈ toldOf c ops id x, b.number < e.number := by
  have hnew : toldOf c (ops ++ [.dispatch e]) id x = toldOf c ops id x ++
      reportsOf x (eventsFor id ((c.run ops).sends (.dispatch e))) := by
    rw [toldOf_snoc, if_neg]
    simp only [ChainOp.isBookmark, decide_eq_true_eq]
    intro hb
    rw [Chain.isReport_of_bookmark hb] at he
    cases he
  rw [hnew]
  by_cases hx : e.resource = x
  swap
  · left
    rw [hg.reportsOf_dispatch_of_ne id he hx, List.append_nil]
  -- whoever is not there is sent nothing
  by_cases hs : ∃ s ∈ (c.run ops).oldest.subscribers, s.id = id
  swap
  · left
    rw [hg.eventsFor_dispatch_of_absent (fun s hs' hid => hs ⟨s, hs', hid⟩), reportsOf_nil,
      List.append_nil]
  obtain ⟨s, hs, rfl⟩ := hs
  subst hx
  rw [hg.eventsFor_report hs he]
  split
  swap
  · left
    rw [reportsOf_nil, List.append_nil]
  next hsent =>
  obtain ⟨haccepts, hfilter⟩ := hsent
  refine Or.inr ⟨rfl, e.retyped ((c.run ops).oldest.kindOf ((c.run ops).lastOffer e) e), rfl,
    ?_, ?_⟩
  · rw [reportsOf_singleton, if_pos]
    exact ⟨Generation.kindOf_isReport _ he (Chain.lastOffer_eq _ e), rfl⟩
  · intro b hb
    obtain ⟨a, hla, hle⟩ := h.bounded s hs e.resource b hb
    obtain ⟨hmem, hra, hax⟩ := latest_mem hla
    have hlt : a.number < e.number := by
      cases hcontains : (c.run ops).oldest.ledger.contains e.resource
      · rcases h.forgotten s hs e.resource a hla hcontains (List.ne_nil_of_mem hb) with hd | hd
        · exact hrenew hd a hmem hra hax
        · -- an equal version would be the same object, which is not for this subscriber
          rcases Nat.lt_or_eq_of_le (ha.ascending a hmem hra hax) with hlt | heq
          · exact hlt
          · have hobj := (ha.same a hmem hra hax heq).1
            rw [hobj, hfilter] at hd
            cases hd
      · exact (hc.accepts_iff (Chain.oldest_mem _) ha).mp haccepts hcontains a hla
    omega

/-- A report goes to a subscriber only with a version greater than all that it was told. -/
theorem report (h : Remembers c ops) (hc : Coherent (dispatched ops) (c.run ops))
    (hg : (c.run ops).Gathered) {e : Change} (he : e.isReport = true)
    (ha : Admits (dispatched ops) e)
    (hrenew : c.Departed ops e.resource → ∀ b ∈ dispatched ops, b.isReport = true →
      b.resource = e.resource → b.number < e.number) :
    Remembers c (ops ++ [.dispatch e]) := by
  have hlatest := fun x => latest_dispatch x ops e
  have hcase := h.toldOf_report hc hg he ha hrenew
  have hsubs : ((c.run ops).apply (.dispatch e)).oldest.subscribers =
      (c.run ops).oldest.subscribers := hg.subscribers_apply _
  have hnumber : ∀ f : Change, f.version = e.version → f.number = e.number :=
    fun f hf => by simp only [Change.number, hf]
  refine ⟨?_, ?_, ?_, ?_⟩
  · intro id x
    rcases hcase id x with hsame | ⟨-, f, hf, hsame, -⟩ <;> rw [hsame]
    · exact h.counted id x
    · intro b hb
      rcases List.mem_append.mp hb with hb | hb
      · exact h.counted id x b hb
      · rw [List.mem_singleton.mp hb, hf]
        exact ha.counted
  · intro id x
    rcases hcase id x with hsame | ⟨-, f, hf, hsame, hlt⟩ <;> rw [hsame]
    · exact h.increasing id x
    · refine List.pairwise_append.mpr ⟨h.increasing id x, List.pairwise_singleton _ _, ?_⟩
      intro b hb g hg'
      rw [List.mem_singleton.mp hg', hnumber f hf]
      exact hlt b hb
  · intro s hs x b hb
    rw [Chain.run_snoc, hsubs] at hs
    rw [hlatest]
    by_cases hx : e.resource = x
    · refine ⟨e, if_pos ⟨he, hx⟩, ?_⟩
      have hold : ∀ b ∈ toldOf c ops s.id x, b.number ≤ e.number := by
        intro b hb
        obtain ⟨a, hla, hle⟩ := h.bounded s hs x b hb
        obtain ⟨hmem, hra, hax⟩ := latest_mem hla
        exact Nat.le_trans hle (ha.ascending a hmem hra (hax.trans hx.symm))
      rcases hcase s.id x with hsame | ⟨-, f, hf, hsame, -⟩ <;> rw [hsame] at hb
      · exact hold b hb
      · rcases List.mem_append.mp hb with hb | hb
        · exact hold b hb
        · have hbf : b = f := List.mem_singleton.mp hb
          exact Nat.le_of_eq ((congrArg Change.number hbf).trans (hnumber f hf))
    · rw [if_neg fun hh => hx hh.2]
      rcases hcase s.id x with hsame | ⟨hx', -⟩
      · rw [hsame] at hb
        exact h.bounded s hs x b hb
      · exact absurd hx' hx
  · intro s hs x a hla hcontains htold
    rw [Chain.run_snoc, hsubs] at hs
    rw [Chain.run_snoc] at hcontains
    have hknown : (c.run ops).oldest.ledger.contains x = false ∧ e.resource ≠ x := by
      rw [Chain.apply, ((c.run ops).dispatch_report he).1, Chain.oldest_relay,
        Generation.offer_fst] at hcontains
      have hmt := mt (Ledger.contains_accept _ _ e.object e.version x).mpr
        (by rw [hcontains]; exact Bool.false_ne_true)
      exact ⟨by simpa using fun hh => hmt (Or.inl hh), fun hh => hmt (Or.inr hh)⟩
    rw [hlatest, if_neg fun hh => hknown.2 hh.2] at hla
    rcases hcase s.id x with hsame | ⟨hx', -⟩
    · rw [hsame] at htold
      refine (h.forgotten s hs x a hla hknown.1 htold).imp_left fun hd => hd.snoc ?_
      rintro f hf - rfl
      cases hf
      exact hknown.2 rfl
    · exact absurd hx' hknown.2

/-- Whoever joins is told what the oldest ledger shows, and nobody else is told anything. -/
theorem toldOf_attach (hc : Coherent (dispatched ops) (c.run ops)) {s : Subscriber}
    (hfresh : ∀ x, toldOf c ops s.id x = []) (id : Nat) (x : ResourceName) :
    toldOf c (ops ++ [.attach s]) id x =
      if id = s.id then
        (((c.run ops).oldest.ledger.shows x).toList.filter s.filter.accepts).map (.ofRecord .added)
      else toldOf c ops id x := by
  rw [toldOf_snoc, if_neg (by simp [ChainOp.isBookmark]), Chain.eventsFor_attach]
  by_cases hid : id = s.id
  · rw [if_pos hid.symm, if_pos hid, hid, hfresh, List.nil_append, hc.reportsOf_primed]
  · rw [if_neg (Ne.symm hid), if_neg hid, reportsOf_nil, List.append_nil]

/-- A new subscriber is told of each live resource once, at its latest version. -/
theorem attach (h : Remembers c ops) (hc : Coherent (dispatched ops) (c.run ops))
    (hcarried : ∀ e ∈ dispatched ops, e.isReport = true → e.version = e.object.version)
    {s : Subscriber} (hfresh : ∀ x, toldOf c ops s.id x = []) :
    Remembers c (ops ++ [.attach s]) := by
  have hlatest : ∀ x, latest x (dispatched (ops ++ [.attach s])) = latest x (dispatched ops) :=
    fun x => latest_quiet (by simp) x ops
  have hself : ∀ x, toldOf c (ops ++ [.attach s]) s.id x =
      (((c.run ops).oldest.ledger.shows x).toList.filter s.filter.accepts).map
        (.ofRecord .added) := by
    intro x
    rw [toldOf_attach hc hfresh, if_pos rfl]
  have hother : ∀ id x, id ≠ s.id → toldOf c (ops ++ [.attach s]) id x = toldOf c ops id x := by
    intro id x hid
    rw [toldOf_attach hc hfresh, if_neg hid]
  have hversion : ∀ x, ∀ e ∈ toldOf c (ops ++ [.attach s]) s.id x,
      ∃ a, latest x (dispatched ops) = some a ∧ e.version = a.version := by
    intro x e he
    rw [hself] at he
    obtain ⟨r, hr, rfl⟩ := List.mem_map.mp he
    have hshows := Option.mem_toList.mp (List.mem_filter.mp hr).1
    rw [hc.shows_eq (Chain.oldest_mem _)] at hshows
    split at hshows
    · obtain ⟨a, ha, -, rfl⟩ := exists_latest_of_view hshows
      obtain ⟨hmem, hra, -⟩ := latest_mem ha
      exact ⟨a, ha, (hcarried a hmem hra).symm⟩
    · cases hshows
  refine ⟨?_, ?_, ?_, ?_⟩
  · intro id x e he
    by_cases hid : id = s.id
    · obtain ⟨a, ha, hv⟩ := hversion x e (hid ▸ he)
      obtain ⟨hmem, hra, -⟩ := latest_mem ha
      rw [hv]
      exact hc.orderly.counted a hmem hra
    · rw [hother id x hid] at he
      exact h.counted id x e he
  · intro id x
    by_cases hid : id = s.id
    · rw [hid, hself]
      cases (c.run ops).oldest.ledger.shows x with
      | none => exact .nil
      | some r =>
        by_cases ha : s.filter.accepts r = true <;> simp [ha]
    · rw [hother id x hid]
      exact h.increasing id x
  · intro t ht x e he
    rw [Chain.run_snoc] at ht
    rw [hlatest]
    rcases Chain.mem_attachOldest ht with rfl | ⟨hne, ht⟩
    · obtain ⟨a, ha, hv⟩ := hversion x e he
      exact ⟨a, ha, Nat.le_of_eq (by simp only [Change.number, hv])⟩
    · rw [hother t.id x hne] at he
      exact h.bounded t ht x e he
  · intro t ht x a ha hcontains htold
    rw [Chain.run_snoc] at ht hcontains
    rw [hlatest] at ha
    rw [Chain.apply, Chain.oldest_attachOldest] at hcontains
    replace hcontains : (c.run ops).oldest.ledger.contains x = false := hcontains
    rcases Chain.mem_attachOldest ht with rfl | ⟨hne, ht⟩
    · rw [hself, hc.shows_eq (Chain.oldest_mem _), hcontains] at htold
      exact absurd rfl htold
    · rw [hother t.id x hne] at htold
      exact (h.forgotten t ht x a ha hcontains htold).imp_left fun hd => hd.snoc (by simp)

/-- A bookmark forgets only deletions, resources that everybody who knew them is told to be gone,
and resources that are not for the subscriber. -/
theorem bookmark (h : Remembers c ops) (hc : Coherent (dispatched ops) (c.run ops))
    (hg : (c.run ops).Gathered) {e : Change} (he : e.kind = .bookmark) :
    Remembers c (ops ++ [.dispatch e]) := by
  have hreport : ∀ f, ChainOp.dispatch e = .dispatch f → f.isReport = false := by
    rintro f hf
    cases hf
    exact Chain.isReport_of_bookmark he
  have happly : (c.run ops).apply (.dispatch e) = ((c.run ops).checkpoint e).1 :=
    ((c.run ops).dispatch_bookmark he).1
  apply h.quiet hreport
  · intro id x
    rw [toldOf_snoc, if_pos (by simp [ChainOp.isBookmark, he]), eventsFor_nil, reportsOf_nil,
      List.append_nil]
  · intro s hs
    rw [hg.subscribers_apply] at hs
    exact hs
  · intro s hs x a ha hknown hforgotten
    by_cases hk : a.kind = .deleted
    · exact Or.inl ((Chain.departed_of_latest ha hk).snoc fun f hf hr =>
        absurd hr (by simp [hreport f hf]))
    -- the resource was live, so only a full replay without it can have made the chain forget it
    have hview : view (dispatched ops) x = some a.object := by
      simp [view_eq, ha, Change.outcome, hk]
    have hshows : (c.run ops).oldest.ledger.shows x = some a.object := by
      rw [hc.shows_eq (Chain.oldest_mem _), if_pos hknown, hview]
    rw [happly, hc.contains_checkpoint] at hforgotten
    have hr : ¬ (c.run ops).head.resumed = true := by
      intro hr
      rw [if_pos hr, hshows] at hforgotten
      cases hforgotten
    rw [if_neg hr, hc.shows_eq (Chain.head_mem _)] at hforgotten
    have hhead : (c.run ops).head.ledger.contains x = false := by
      cases hh : (c.run ops).head.ledger.contains x
      · rfl
      · rw [if_pos hh, hview] at hforgotten
        cases hforgotten
    have hancestors : (c.run ops).ancestors ≠ [] := by
      intro hh
      rw [Chain.oldest_of_single hh, hhead] at hknown
      cases hknown
    cases haccepts : s.filter.accepts a.object
    · exact Or.inr rfl
    · refine Or.inl (Chain.departed_of_last ⟨e, rfl, Or.inr ⟨he,
        ⟨s.id, .atVersion .deleted a.object e.version⟩, ?_, rfl, ?_⟩⟩)
      · rw [← mem_eventsFor, hg.eventsFor_bookmark hs he, hg.eventsFor_farewells hs,
          if_neg (not_or.mpr ⟨hr, hancestors⟩)]
        refine List.mem_append_left _ (List.mem_map.mpr ⟨(x, a.object), ?_, rfl⟩)
        simp [Ledger.mem_known.mpr hshows, hhead, haccepts]
      · exact (latest_mem ha).2.2

theorem step (h : Remembers c ops) (hc : Coherent (dispatched ops) (c.run ops))
    (hg : (c.run ops).Gathered) (op : ChainOp)
    (hcarried : ∀ e ∈ dispatched ops, e.isReport = true → e.version = e.object.version)
    (hadmits : ∀ e, op = .dispatch e → e.isReport = true → Admits (dispatched ops) e)
    (hrenews : c.Renews (ops ++ [op]))
    (hfresh : ∀ s, op = .attach s → ∀ x, toldOf c ops s.id x = []) : Remembers c (ops ++ [op]) := by
  cases op with
  | attach s => exact h.attach hc hcarried (hfresh s rfl)
  | advance id resumed =>
    apply h.quiet (by simp)
    · intro id x
      simp [toldOf_snoc, ChainOp.isBookmark, Chain.sends]
    · intro s hs
      rw [hg.subscribers_apply] at hs
      exact hs
    · intro s _ x a _ hknown hforgotten
      rw [Chain.apply, ((c.run ops).oldest_advance id resumed).2, hknown] at hforgotten
      cases hforgotten
  | detach id =>
    apply h.quiet (by simp)
    · intro id x
      simp [toldOf_snoc, ChainOp.isBookmark, Chain.sends]
    · intro s hs
      rw [hg.subscribers_apply] at hs
      exact (List.mem_filter.mp hs).1
    · intro s _ x a _ hknown hforgotten
      rw [Chain.apply, hg.oldest_detach] at hforgotten
      rw [show ((c.run ops).oldest.detach id).ledger = (c.run ops).oldest.ledger from rfl,
        hknown] at hforgotten
      cases hforgotten
  | dispatch e =>
    rcases Chain.isReport_cases e with he | he | he
    · exact h.report hc hg he (hadmits e rfl he) (hrenews ops e [] (by simp) he)
    · exact h.bookmark hc hg he
    · have happly : (c.run ops).apply (.dispatch e) = c.run ops :=
        ((c.run ops).dispatch_error he).1
      apply h.quiet
      · rintro f hf
        cases hf
        exact Chain.isReport_of_error he
      · intro id x
        rw [toldOf_snoc, if_neg (by simp [ChainOp.isBookmark, he])]
        refine List.append_right_eq_self.mpr (List.filter_eq_nil_iff.mpr fun f hf => ?_)
        -- an error is passed on as it is, and is no report
        have hfe : f = e := by
          have hmem := mem_eventsFor.mp hf
          simp only [Chain.sends, ((c.run ops).dispatch_error he).2, hg.broadcast_eq,
            List.mem_map, Delivery.mk.injEq] at hmem
          obtain ⟨_, _, _, rfl⟩ := hmem
          rfl
        simp [hfe, Chain.isReport_of_error he]
      · rw [happly]
        exact fun s hs => hs
      · intro s _ x a _ hknown hforgotten
        rw [happly, hknown] at hforgotten
        cases hforgotten

end Remembers

theorem run_remembers (n : Nat) {ops : List ChainOp} (horderly : Orderly (dispatched ops))
    (hcarried : ∀ e ∈ dispatched ops, e.isReport = true → e.version = e.object.version)
    (hrenews : (Chain.first n).Renews ops) (hfresh : (ops.filterMap ChainOp.joined?).Nodup) :
    Remembers (.first n) ops := by
  induction ops using List.reverseRecOn with
  | nil => refine ⟨?_, ?_, ?_, ?_⟩ <;> simp [toldOf, Chain.relayed]
  | append_singleton ops op ih =>
    rw [dispatched_append] at horderly
    rw [dispatched_append] at hcarried
    rw [List.filterMap_append] at hfresh
    have hcarried : ∀ e ∈ dispatched ops, e.isReport = true → e.version = e.object.version :=
      fun e he => hcarried e (List.mem_append_left _ he)
    have hbefore := ih horderly.of_append hcarried hrenews.of_append
      (List.nodup_append.mp hfresh).1
    apply hbefore.step (Chain.run_coherent n horderly.of_append) (Chain.run_gathered n ops) op
      hcarried ?_ hrenews ?_
    · rintro e rfl he
      exact horderly.admits he
    · rintro s rfl x
      have habsent : s.id ∉ ops.filterMap ChainOp.joined? := by
        intro hs
        exact (List.nodup_append.mp hfresh).2.2 _ hs _ (by simp [ChainOp.joined?]) rfl
      have hnone : eventsFor s.id ((Chain.first n).relayed ops) = [] := by
        by_contra hh
        exact habsent ((relayed_joined n ops).2 s.id hh)
      rw [toldOf, hnone, reportsOf_nil]

/-- Of each resource, the versions that a subscriber is sent are counters and strictly increase. -/
theorem versions_increase (n : Nat) {ops : List ChainOp} (horderly : Orderly (dispatched ops))
    (hcarried : ∀ e ∈ dispatched ops, e.isReport = true → e.version = e.object.version)
    (hrenews : (Chain.first n).Renews ops) (hfresh : (ops.filterMap ChainOp.joined?).Nodup)
    (id : Nat) (x : ResourceName) :
    (∀ e ∈ reportsOf x (eventsFor id ((Chain.first n).relayed ops)),
      ∃ v, counter? e.version = some v) ∧
    (reportsOf x (eventsFor id ((Chain.first n).relayed ops))).Pairwise
      fun a b => a.number < b.number := by
  have hrun := run_remembers n horderly hcarried hrenews hfresh
  exact ⟨hrun.counted id x, hrun.increasing id x⟩

/-- Somebody follows two resources; a full replay brings one of them, the other is gone and comes
back later. -/
def replayRun : List ChainOp :=
  let a (version : String) : Record := { Record.empty with name := "a", version }
  let b : Record := { Record.empty with name := "b", version := "2" }
  [.dispatch (.ofRecord .added (a "1")), .attach ⟨7, .everything⟩, .dispatch (.ofRecord .added b),
    .advance 2 false, .dispatch (.ofRecord .added b), .dispatch (.bookmark "3"),
    .dispatch (.ofRecord .added (a "4"))]

theorem versions_increase_replayRun :
    Orderly (dispatched replayRun) ∧ (Chain.first 1).Renews replayRun ∧
    (reportsOf ⟨"", "a"⟩ (eventsFor 7 ((Chain.first 1).relayed replayRun))).map (·.number) =
      [1, 4] ∧
    (reportsOf ⟨"", "a"⟩ (eventsFor 7 ((Chain.first 1).relayed replayRun))).Pairwise
      fun a b => a.number < b.number := by
  have horderly : Orderly (dispatched replayRun) := by decide
  have hrenews : (Chain.first 1).Renews replayRun := by
    intro before e after hops he hd b hb hr hx
    simp only [replayRun, List.cons_eq_append_iff, reduceCtorEq, false_or, or_false, false_and,
      and_false, exists_false, List.cons.injEq, ChainOp.dispatch.injEq, List.nil_eq_append_iff]
      at hops
    rcases hops with ⟨rfl, -, -⟩ | ⟨_, rfl, _, rfl, ⟨rfl, rfl, -⟩ | ⟨_, rfl, _, rfl,
      ⟨rfl, rfl, -⟩ | ⟨_, rfl, ⟨rfl, rfl, -⟩ | ⟨_, rfl, rfl, rfl, -⟩⟩⟩⟩
    · simp [dispatched] at hb
    · revert hr hx
      revert b
      decide
    · -- nothing was reported deleted before the replay
      obtain ⟨earlier, op, later, hsplit, ⟨f, rfl, hdel⟩, -⟩ := hd
      have hf : .dispatch f ∈ earlier ++ .dispatch f :: later := by simp
      rw [← hsplit] at hf
      simp only [List.mem_cons, reduceCtorEq, ChainOp.dispatch.injEq, List.not_mem_nil] at hf
      rcases hf with rfl | h | rfl | h | h <;> simp [Change.ofRecord] at *
    · simp [Change.isReport, Change.bookmark] at he
    · revert hr hx
      revert b
      decide
  refine ⟨horderly, hrenews, by decide, ?_⟩
  exact (versions_increase 1 horderly (by decide) hrenews (by decide) 7 _).2

end SharedWatch
