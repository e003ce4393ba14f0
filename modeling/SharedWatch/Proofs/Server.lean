import SharedWatch.Connection.Request
import SharedWatch.Proofs.Reports

/-!
A server that keeps its promises.

A `History` is all changes of a server, each with a greater version than those before it.
`History.state` is what exists after the changes up to a version. A `Session` of a watch first
replays the state at its position, unless it goes on from an earlier one, and then sends the later
changes; a bookmark proves that everything up to it was sent.

`Told` generates what a connection may tell its reader of such a server. Main statement: what is
told is orderly (`Told.truthful`).
-/

namespace SharedWatch

/-- The event that a notice brings. -/
def Notice.event? : Notice → Option Change
  | .opened _ => none
  | .event e => some e

/-- The events among some notices, in order. -/
def noticed (notices : List Notice) : List Change := notices.filterMap Notice.event?

@[simp] theorem noticed_nil : noticed [] = [] := rfl

@[simp] theorem noticed_append (p q : List Notice) : noticed (p ++ q) = noticed p ++ noticed q :=
  List.filterMap_append

@[simp] theorem noticed_opened (resumed : Bool) : noticed [.opened resumed] = [] := rfl

@[simp] theorem noticed_event (e : Change) : noticed [.event e] = [e] := rfl

/-! ## Histories -/

/-- All changes of a server, in the order in which they were made. -/
structure History where
  changes : List Change
  reports : ∀ e ∈ changes, e.isReport = true
  /-- A change has the version of its object. -/
  carried : ∀ e ∈ changes, e.version = e.object.version
  counted : ∀ e ∈ changes, ∃ n, counter? e.version = some n
  ascending : changes.Pairwise fun a b => a.number < b.number

namespace History

/-- The changes up to a version. -/
def upTo (h : History) (p : Nat) : List Change := h.changes.filter fun e => decide (e.number ≤ p)

/-- What exists after the changes up to a version. -/
def state (h : History) (p : Nat) : View := view (h.upTo p)

/-- Whether no change lies between two versions. -/
def Level (h : History) (p q : Nat) : Prop := ∀ e ∈ h.changes, e.number ≤ p ↔ e.number ≤ q

/-- Whether a change is the first one after a version. -/
structure Next (h : History) (p : Nat) (e : Change) : Prop where
  mem : e ∈ h.changes
  after : p < e.number
  first : ∀ f ∈ h.changes, p < f.number → e.number ≤ f.number

variable {h : History} {p q : Nat}

theorem mem_upTo {e : Change} : e ∈ h.upTo p ↔ e ∈ h.changes ∧ e.number ≤ p := by
  simp [upTo]

theorem state_level (hl : h.Level p q) : h.state p = h.state q := by
  unfold state upTo
  congr 1
  refine List.filter_congr fun e he => ?_
  rw [decide_eq_decide]
  exact hl e he

/-- One version is one change. -/
theorem eq_of_number {a b : Change} (ha : a ∈ h.changes) (hb : b ∈ h.changes)
    (hn : a.number = b.number) : a = b := by
  -- of two places in the history one comes first, and has the smaller version
  have hasc := List.pairwise_iff_getElem.mp h.ascending
  obtain ⟨i, hi, rfl⟩ := List.getElem_of_mem ha
  obtain ⟨j, hj, rfl⟩ := List.getElem_of_mem hb
  rcases Nat.lt_trichotomy i j with hij | rfl | hji
  · have hlt := hasc i j hi hj hij
    omega
  · rfl
  · have hlt := hasc j i hj hi hji
    omega

/-- After the next change there is one more. -/
theorem upTo_next {e : Change} (hn : h.Next p e) : h.upTo e.number = h.upTo p ++ [e] := by
  obtain ⟨before, after, hsplit⟩ := List.append_of_mem hn.mem
  have hasc := h.ascending
  rw [hsplit] at hasc
  obtain ⟨-, htail, hcross⟩ := List.pairwise_append.mp hasc
  -- a change before `e` but after `p` would be next instead
  have hbefore : ∀ f ∈ before, f.number ≤ p := by
    intro f hf
    have hlt := hcross f hf e List.mem_cons_self
    by_contra hp
    have hle := hn.first f (by rw [hsplit]; exact List.mem_append_left _ hf) (by omega)
    omega
  have hafter : ∀ f ∈ after, e.number < f.number := (List.pairwise_cons.mp htail).1
  have hpe := hn.after
  have hleft : before.filter (fun f => decide (f.number ≤ e.number)) = before := by
    rw [List.filter_eq_self]
    intro f hf
    have hfp := hbefore f hf
    simp only [decide_eq_true_eq]
    omega
  have hleft' : before.filter (fun f => decide (f.number ≤ p)) = before := by
    rw [List.filter_eq_self]
    intro f hf
    simpa using hbefore f hf
  have hright : ∀ q, q ≤ e.number → after.filter (fun f => decide (f.number ≤ q)) = [] := by
    intro q hq
    rw [List.filter_eq_nil_iff]
    intro f hf hfq
    have hlt := hafter f hf
    simp only [decide_eq_true_eq] at hfq
    omega
  have hskip : ¬ e.number ≤ p := by omega
  simp only [upTo, hsplit, List.filter_append, List.filter_cons, hleft, hleft',
    hright e.number (Nat.le_refl _), hright p (Nat.le_of_lt hpe)]
  simp [hskip]

theorem state_next {e : Change} (hn : h.Next p e) (x : ResourceName) :
    h.state e.number x = if e.resource = x then e.outcome else h.state p x := by
  unfold state
  rw [upTo_next hn, view_snoc, h.reports e hn.mem]
  simp

theorem orderly (h : History) : Orderly h.changes where
  counted := fun e he _ => h.counted e he
  ascending := h.ascending.imp fun hab _ _ _ => Nat.le_of_lt hab
  same := h.ascending.imp fun hab _ _ _ heq => absurd heq (Nat.ne_of_lt hab)

/-- What exists is the object of the latest change of its resource. -/
theorem exists_change {x : ResourceName} {r : Record} (hx : h.state p x = some r) :
    ∃ e ∈ h.changes, e.number ≤ p ∧ e.resource = x ∧ e.object = r ∧ e.kind ≠ .deleted ∧
      ∀ f ∈ h.changes, f.number ≤ p → f.resource = x → f.number ≤ e.number := by
  obtain ⟨e, hlatest, hkind, hobject⟩ := exists_latest_of_view hx
  obtain ⟨hmem, -, hresource⟩ := latest_mem hlatest
  obtain ⟨hmem, hle⟩ := mem_upTo.mp hmem
  refine ⟨e, hmem, hle, hresource, hobject, hkind, ?_⟩
  intro f hf hfp hfx
  have horderly : Orderly (h.upTo p) := h.orderly.sublist List.filter_sublist
  exact horderly.le_latest hlatest (mem_upTo.mpr ⟨hf, hfp⟩) (h.reports f hf) hfx

theorem resource_of_state {x : ResourceName} {r : Record} (hx : h.state p x = some r) :
    r.resource = x := by
  obtain ⟨e, -, -, hresource, hobject, -, -⟩ := exists_change hx
  rw [← hobject]
  exact hresource

/-- Whether a list holds everything that exists after the changes up to a version, once each. -/
def Lists (h : History) (p : Nat) (records : List Record) : Prop :=
  records.Nodup ∧ ∀ r, r ∈ records ↔ h.state p r.resource = some r

theorem lists_iff (h : History) (p : Nat) (records : List Record) :
    h.Lists p records ↔ records.Nodup ∧ (∀ r ∈ records, h.state p r.resource = some r) ∧
      ∀ e ∈ h.changes, ∀ r ∈ h.state p e.resource, r ∈ records := by
  constructor
  · rintro ⟨hnodup, hmem⟩
    refine ⟨hnodup, fun r hr => (hmem r).mp hr, fun e _ r hr => (hmem r).mpr ?_⟩
    rw [resource_of_state hr]
    exact hr
  · rintro ⟨hnodup, hlisted, hall⟩
    refine ⟨hnodup, fun r => ⟨hlisted r, fun hr => ?_⟩⟩
    obtain ⟨e, he, -, hresource, -⟩ := exists_change hr
    exact hall e he r (by rw [hresource]; exact hr)

instance (h : History) (p : Nat) (records : List Record) : Decidable (h.Lists p records) :=
  decidable_of_iff' _ (h.lists_iff p records)

end History

/-- A resource, and what is left of it after its deletion was missed. -/
def missedDeletion : History where
  changes :=
    [.ofRecord .added { Record.empty with name := "a", version := "1" },
      .ofRecord .added { Record.empty with name := "b", version := "2" },
      .ofRecord .deleted { Record.empty with name := "a", version := "3" }]
  reports := by decide
  carried := by decide
  counted := by
    intro e he
    rw [← Option.isSome_iff_exists]
    revert e
    decide
  ascending := by decide

/-! ## Sessions -/

/-- A watch that is open on the server's side. -/
structure Session where
  /-- The objects of the replay that were not sent yet. -/
  waiting : List Record
  /-- Every change up to it was sent, the replayed ones by what they left. -/
  position : Nat
  /-- Whether the session went on from an earlier one or has sent a bookmark. -/
  settled : Bool

/-- What a session sends next. Changes and bookmarks follow the whole replay; a bookmark proves that
every change up to its version was sent, and none after it. -/
inductive Session.Sends (h : History) : Session → Change → Session → Prop where
  | replay (r : Record) (rest : List Record) (p : Nat) (settled : Bool) :
      Sends h ⟨r :: rest, p, settled⟩ (.ofRecord .added r) ⟨rest, p, settled⟩
  | change (e : Change) (p : Nat) (settled : Bool) (hn : h.Next p e) :
      Sends h ⟨[], p, settled⟩ e ⟨[], e.number, settled⟩
  | bookmark (e : Change) (p v : Nat) (settled : Bool) (he : e.kind = .bookmark)
      (hv : counter? e.version = some v) (hl : h.Level p v) :
      Sends h ⟨[], p, settled⟩ e ⟨[], v, true⟩

theorem Session.Sends.kind_ne_error {h : History} {s s' : Session} {e : Change}
    (hs : s.Sends h e s') : e.kind ≠ .error := by
  cases hs with
  | replay _ _ _ _ => simp [Change.ofRecord]
  | change _ _ _ hn =>
    intro he
    have hreport := h.reports e hn.mem
    simp [Change.isReport, he] at hreport
  | bookmark _ _ _ _ he _ _ => simp [he]

/-- Whether a later session that goes on from the position of one leaves no gap, after what was
told: the session is settled, or its replay is over and all that was told to exist does exist. -/
def Session.Gapless (h : History) (past : List Change) (s : Session) : Prop :=
  s.settled = true ∨ s.waiting = [] ∧ ∀ x, h.state s.position x = none → view past x = none

/-- What a connection may have told its reader, and the last session that was announced. A session
that starts over replays a state no older than any version told before; one that goes on does so
from a version with no change between it and where a gapless one was. -/
inductive Told (h : History) : List Notice → Option Session → Prop where
  | nothing : Told h [] none
  | restart {told : List Notice} {last : Option Session} (p : Nat) (records : List Record)
      (before : Told h told last) (hl : h.Lists p records)
      (hp : ∀ e ∈ noticed told, e.number ≤ p) :
      Told h (told ++ [.opened false]) (some ⟨records, p, false⟩)
  | resume {told : List Notice} {s : Session} (q : Nat) (before : Told h told (some s))
      (hs : s.Gapless h (noticed told)) (hl : h.Level s.position q) :
      Told h (told ++ [.opened true]) (some ⟨[], q, true⟩)
  | event {told : List Notice} {s s' : Session} {e : Change} (before : Told h told (some s))
      (hs : s.Sends h e s') : Told h (told ++ [.event e]) (some s')
  | failure {told : List Notice} {last : Option Session} {e : Change} (before : Told h told last)
      (he : e.kind = .error) : Told h (told ++ [.event e]) last

/-- What was told is true of the history: every report is a change of it or what one left, and they
come in the order of their versions. -/
structure Truthful (h : History) (past : List Change) (last : Option Session) : Prop where
  orderly : Orderly past
  known : ∀ e ∈ past, e.isReport = true →
    ∃ f ∈ h.changes, f.resource = e.resource ∧ f.number = e.number ∧ f.SameState e
  bounded : ∀ s, last = some s → ∀ e ∈ past, e.isReport = true → e.number ≤ s.position
  waiting : ∀ s, last = some s → ∀ r ∈ s.waiting, h.state s.position r.resource = some r

namespace Truthful
variable {h : History} {past : List Change} {s : Session} {last : Option Session}

/-- A report of a change may come once no later version of its resource was told. -/
theorem admits (ht : Truthful h past last) {e f : Change} (hf : f ∈ h.changes)
    (hnumber : f.number = e.number) (hsame : f.SameState e)
    (hcounted : ∃ n, counter? e.version = some n)
    (hascending : ∀ a ∈ past, a.isReport = true → a.resource = e.resource → a.number ≤ e.number) :
    Admits past e := by
  refine ⟨hcounted, hascending, ?_⟩
  intro a ha hra hax heq
  obtain ⟨g, hg, -, hgn, hgs⟩ := ht.known a ha hra
  have hgf : g = f := History.eq_of_number hg hf (by omega)
  subst hgf
  exact hgs.symm.trans hsame

/-- What reports nothing is no lie. -/
theorem skip (ht : Truthful h past last) {e : Change} (he : e.isReport = false) :
    Truthful h (past ++ [e]) last := by
  have hold : ∀ a ∈ past ++ [e], a.isReport = true → a ∈ past := by
    intro a ha hra
    rcases List.mem_append.mp ha with ha | ha
    · exact ha
    · rw [List.mem_singleton.mp ha, he] at hra
      cases hra
  exact ⟨ht.orderly.snoc (by simp [he]), fun a ha hra => ht.known a (hold a ha hra) hra,
    fun s hs a ha hra => ht.bounded s hs a (hold a ha hra) hra, ht.waiting⟩

/-- With no change between two positions, a session at one has told as much as at the other. -/
theorem level (ht : Truthful h past (some s)) {q : Nat} (hl : h.Level s.position q)
    (settled : Bool) : Truthful h past (some ⟨[], q, settled⟩) := by
  refine ⟨ht.orderly, ht.known, ?_, by rintro t ht' r hr; cases ht'; cases hr⟩
  rintro t ht' a hmem hra
  cases ht'
  -- reports are of changes
  obtain ⟨g, hg, -, hgn, -⟩ := ht.known a hmem hra
  have hle := ht.bounded s rfl a hmem hra
  rw [← hgn] at hle ⊢
  exact (hl g hg).mp hle

theorem report (ht : Truthful h past (some s)) {e f : Change} (hf : f ∈ h.changes)
    (hresource : f.resource = e.resource) (hnumber : f.number = e.number) (hsame : f.SameState e)
    (ha : Admits past e) {s' : Session} (hpos : s.position ≤ s'.position)
    (hle : e.number ≤ s'.position)
    (hwaiting : ∀ r ∈ s'.waiting, h.state s'.position r.resource = some r) :
    Truthful h (past ++ [e]) (some s') := by
  refine ⟨ht.orderly.snoc fun _ => ha, ?_, ?_, ?_⟩
  · intro a hmem hra
    rcases List.mem_append.mp hmem with hmem | hmem
    · exact ht.known a hmem hra
    · rw [List.mem_singleton.mp hmem]
      exact ⟨f, hf, hresource, hnumber, hsame⟩
  · rintro t ht' a hmem hra
    cases ht'
    rcases List.mem_append.mp hmem with hmem | hmem
    · have := ht.bounded s rfl a hmem hra
      omega
    · rw [List.mem_singleton.mp hmem]
      exact hle
  · rintro t ht' r hr
    cases ht'
    exact hwaiting r hr

theorem sends (ht : Truthful h past (some s)) {e : Change} {s' : Session} (hs : s.Sends h e s') :
    Truthful h (past ++ [e]) (some s') := by
  cases hs with
  | replay r rest p settled =>
    obtain ⟨f, hf, hfp, hfx, hobject, hkind, hmax⟩ :=
      History.exists_change (ht.waiting _ rfl r List.mem_cons_self)
    have hversion : f.version = r.version := by rw [h.carried f hf, hobject]
    have hnumber : f.number = (Change.ofRecord .added r).number := by
      show (counter? f.version).getD 0 = (counter? r.version).getD 0
      rw [hversion]
    have hsame : f.SameState (.ofRecord .added r) :=
      ⟨hobject, ⟨fun hk => absurd hk hkind, fun hk => by cases hk⟩⟩
    have ha : Admits past (.ofRecord .added r) := by
      apply ht.admits hf hnumber hsame
      · obtain ⟨n, hn⟩ := h.counted f hf
        rw [hversion] at hn
        exact ⟨n, hn⟩
      · -- all that was told of it is from changes up to this one
        intro a ha hra hax
        obtain ⟨g, hg, hgx, hgn, -⟩ := ht.known a ha hra
        have hle := ht.bounded _ rfl a ha hra
        have hmax := hmax g hg (by omega) (hgx.trans hax)
        omega
    exact ht.report (e := .ofRecord .added r) hf hfx hnumber hsame ha (Nat.le_refl p)
      (hnumber ▸ hfp) fun t hmem => ht.waiting _ rfl t (List.mem_cons_of_mem r hmem)
  | change e p settled hn =>
    have hafter := hn.after
    have hsame : e.SameState e := ⟨rfl, Iff.rfl⟩
    have ha : Admits past e := by
      apply ht.admits hn.mem rfl hsame (h.counted e hn.mem)
      intro a ha hra _
      have hle : a.number ≤ p := ht.bounded _ rfl a ha hra
      omega
    exact ht.report hn.mem rfl rfl hsame ha (Nat.le_of_lt hafter) (Nat.le_refl _) (by simp)
  | bookmark e p v settled he hv hl =>
    exact (ht.skip (by simp [Change.isReport, he] : e.isReport = false)).level hl true

end Truthful

namespace Told
variable {h : History} {told : List Notice} {last : Option Session}

theorem truthful (ht : Told h told last) : Truthful h (noticed told) last := by
  induction ht with
  | nothing => exact ⟨.nil, by simp, by simp, by simp⟩
  | restart p records before hl hp ih =>
    rw [noticed_append, noticed_opened, List.append_nil]
    refine ⟨ih.orderly, ih.known, ?_, ?_⟩
    · rintro s hs e he -
      cases hs
      exact hp e he
    · rintro s hs r hr
      cases hs
      exact (hl.2 r).mp hr
  | resume q before hs hl ih =>
    rw [noticed_append, noticed_opened, List.append_nil]
    exact ih.level hl true
  | event before hs ih =>
    rw [noticed_append, noticed_event]
    exact ih.sends hs
  | failure before he ih =>
    rw [noticed_append, noticed_event]
    exact ih.skip (by simp [Change.isReport, he])

/-- A settled session has nothing left to replay. -/
theorem waiting_of_settled {s : Session} (ht : Told h told (some s)) (hs : s.settled = true) :
    s.waiting = [] := by
  generalize hlast : some s = last at ht
  induction ht generalizing s with
  | nothing => cases hlast
  | restart _ _ _ _ _ =>
    cases hlast
    cases hs
  | resume _ _ _ _ =>
    cases hlast
    rfl
  | event _ hsends ih =>
    cases hlast
    cases hsends with
    | replay r rest p settled =>
      have hw := ih (s := ⟨r :: rest, p, settled⟩) hs rfl
      simp at hw
    | change _ _ _ _ => rfl
    | bookmark _ _ _ _ _ _ _ => rfl
  | failure _ _ ih => exact ih hs hlast

/-- How a session can have been announced. -/
theorem of_opened {resumed : Bool} (ht : Told h (told ++ [.opened resumed]) last) :
    (resumed = false ∧ ∃ p records before, Told h told before ∧ h.Lists p records ∧
      last = some ⟨records, p, false⟩) ∨
    (resumed = true ∧ ∃ s q, Told h told (some s) ∧ s.Gapless h (noticed told) ∧
      h.Level s.position q ∧ last = some ⟨[], q, true⟩) := by
  generalize hall : told ++ [Notice.opened resumed] = all at ht
  cases ht with
  | nothing => simp at hall
  | @restart told' before p records ht hl hp =>
    obtain ⟨rfl, hn⟩ := List.append_inj' hall rfl
    cases hn
    exact Or.inl ⟨rfl, p, records, before, ht, hl, rfl⟩
  | @resume told' s q ht hs hl =>
    obtain ⟨rfl, hn⟩ := List.append_inj' hall rfl
    cases hn
    exact Or.inr ⟨rfl, s, q, ht, hs, hl, rfl⟩
  | event _ _ => cases (List.append_inj' hall rfl).2
  | failure _ _ => cases (List.append_inj' hall rfl).2

/-- How an event can have been told. -/
theorem of_event {e : Change} (ht : Told h (told ++ [.event e]) last) :
    (∃ s s', Told h told (some s) ∧ s.Sends h e s' ∧ last = some s') ∨
      Told h told last ∧ e.kind = .error := by
  generalize hall : told ++ [Notice.event e] = all at ht
  cases ht with
  | nothing => simp at hall
  | restart _ _ _ _ _ => cases (List.append_inj' hall rfl).2
  | resume _ _ _ _ => cases (List.append_inj' hall rfl).2
  | @event told' s s' e' ht hs =>
    obtain ⟨rfl, hn⟩ := List.append_inj' hall rfl
    cases hn
    exact Or.inl ⟨s, s', ht, hs, rfl⟩
  | @failure told' last e' ht he =>
    obtain ⟨rfl, hn⟩ := List.append_inj' hall rfl
    cases hn
    exact Or.inr ⟨ht, he⟩

/-- A bookmark was told after the whole replay, and proves the state at its version. -/
theorem of_bookmark {b : Change} (ht : Told h (told ++ [.event b]) last) (hb : b.kind = .bookmark) :
    ∃ v, counter? b.version = some v ∧ last = some ⟨[], v, true⟩ := by
  rcases ht.of_event with ⟨s, s', -, hs, rfl⟩ | ⟨-, he⟩
  · cases hs with
    | replay _ _ _ _ => cases hb
    | change _ _ _ hn =>
      have hreport := h.reports b hn.mem
      simp [Change.isReport, hb] at hreport
    | bookmark _ _ v _ _ hv _ => exact ⟨v, hv, rfl⟩
  · rw [hb] at he
    cases he

theorem before {n : Notice} (ht : Told h (told ++ [n]) last) : ∃ last', Told h told last' := by
  cases n with
  | opened resumed =>
    rcases ht.of_opened with ⟨-, _, _, before, ht, -⟩ | ⟨-, s, _, ht, -⟩
    · exact ⟨before, ht⟩
    · exact ⟨some s, ht⟩
  | event e =>
    rcases ht.of_event with ⟨s, _, ht, -⟩ | ⟨ht, -⟩
    · exact ⟨some s, ht⟩
    · exact ⟨last, ht⟩

theorem of_append {more : List Notice} (ht : Told h (told ++ more) last) :
    ∃ last', Told h told last' := by
  induction more using List.reverseRecOn generalizing last with
  | nil => exact ⟨last, by simpa using ht⟩
  | append_singleton more n ih =>
    rw [← List.append_assoc] at ht
    obtain ⟨last', ht⟩ := ht.before
    exact ih ht

end Told

end SharedWatch
