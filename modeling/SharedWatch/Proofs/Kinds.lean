import SharedWatch.Proofs.Lifelike
import SharedWatch.Proofs.Resync
import SharedWatch.Proofs.Stream
import SharedWatch.Proofs.World

/-!
Whether the kinds of events tell the truth.

The changes of a server are lifelike. A session that starts over reports what exists as additions,
whether its reader knows it or not, so kinds have to be made true again for those who follow along.

Main statement: `kinds_lifelike`, over every run of a server, its connection and a handler in which
sessions end only where that loses nothing. What somebody without requirements is sent is lifelike,
one case apart (`Mistaken`): a session that has not proved yet that it is complete adds an object at
a newer version than was told before, and the object's own count of changes does not say that it was
edited. It is passed on as added (`reappearing_added_twice`). Where the end of a session does lose
something, kinds can be wrong of what was never told (`unheard_deletion_sent`).
-/

namespace SharedWatch

theorem Ledger.replayKind_eq_added_iff {l : Ledger} {x : ResourceName} :
    l.replayKind x = .added ↔ l.shows x = none := by
  unfold replayKind shows
  cases l.get? x with
  | none => simp
  | some en => cases hlive : en.isLive <;> simp [Option.filter, hlive]

/-- Versions ascend, so the changes up to one of them are those before it. -/
theorem History.upTo_number {h : History} {before after : List Change} {e : Change}
    (hsplit : h.changes = before ++ e :: after) : h.upTo e.number = before ++ [e] := by
  have hasc := h.ascending
  rw [hsplit] at hasc
  obtain ⟨-, htail, hcross⟩ := List.pairwise_append.mp hasc
  have hleft : before.filter (fun f => decide (f.number ≤ e.number)) = before := by
    rw [List.filter_eq_self]
    intro f hf
    simpa using Nat.le_of_lt (hcross f hf e List.mem_cons_self)
  have hright : after.filter (fun f => decide (f.number ≤ e.number)) = [] := by
    rw [List.filter_eq_nil_iff]
    intro f hf
    simpa using (List.pairwise_cons.mp htail).1 f hf
  rw [History.upTo, hsplit, List.filter_append, List.filter_cons_of_pos (by simp), hleft, hright]

/-- What a lifelike server adds does not exist, and whatever else it changes does. -/
theorem History.added_iff {h : History} (hlife : Lifelike h.changes) {p : Nat} {e : Change}
    (hn : h.Next p e) : e.kind = .added ↔ h.state p e.resource = none := by
  obtain ⟨before, after, hsplit⟩ := List.append_of_mem hn.mem
  have hbefore : before = h.upTo p := by
    have hall := (History.upTo_number hsplit).symm.trans (History.upTo_next hn)
    exact List.append_inj_left' hall rfl
  rw [History.state, ← hbefore]
  exact (hlife before e after hsplit (h.reports e hn.mem)).resolve_right id

/-- A report of a session is the next change, or one of the objects that it still has to replay. -/
theorem Session.Sends.report_cases {h : History} {s s' : Session} {e : Change}
    (hs : s.Sends h e s') (he : e.isReport = true) :
    s.waiting = [] ∧ h.Next s.position e ∨ ∃ r ∈ s.waiting, e = .ofRecord .added r := by
  cases hs with
  | replay r rest p settled => exact .inr ⟨r, List.mem_cons_self, rfl⟩
  | change e p settled hn => exact .inl ⟨rfl, hn⟩
  | bookmark e p v settled hk hv hl => simp [Change.isReport, hk] at he

/-- What was told last of an object that a session replays has the version of the object. -/
theorem Truthful.number_replayed {h : History} {past : List Change} {last : Option Session}
    (ht : Truthful h past last) {x : ResourceName} {a : Change} {r : Record}
    (ha : latest x past = some a) (hr : view past x = some r) :
    a.number = (Change.ofRecord .added r).number := by
  obtain ⟨b, hb, hkind, hobject⟩ := exists_latest_of_view hr
  rw [ha] at hb
  cases hb
  obtain ⟨hmem, hreport, -⟩ := latest_mem ha
  obtain ⟨f, hf, -, hnumber, hsame⟩ := ht.known a hmem hreport
  have hversion : f.version = r.version := by rw [h.carried f hf, hsame.1, hobject]
  rw [← hnumber]
  show (counter? f.version).getD 0 = (counter? r.version).getD 0
  rw [hversion]

/-- How a report reaches the oldest generation as a plain addition. -/
theorem Chain.generation_le_of_fresh {c : Chain} {e : Change} (hk : e.kind = .added)
    (hc : c.ancestors ≠ []) (hfresh : c.lastOffer e = .fresh e.kind) : e.object.generation ≤ 1 := by
  rw [lastOffer, if_neg hc, downstream] at hfresh
  by_contra hedited
  rw [if_pos ⟨hk, by omega⟩] at hfresh
  cases hfresh

namespace Converging
variable {h : History} {past : List Change} {c : Chain} {s s' : Session} {e : Change}

/-- A report that the oldest ledger lets through enters it under a kind that is true of what the
ledger shows. Otherwise it adds, once more and at a newer version, what was told before; the session
has not proved that it is complete, and the object was not edited by its own count. -/
theorem kindOf_true (hc : Converging h past c (some s)) (hcoherent : Coherent past c)
    (htrue : Truthful h past (some s)) (hlife : Lifelike h.changes) (hs : s.Sends h e s')
    (he : e.isReport = true) (ha : Admits past e)
    (haccepts : c.oldest.ledger.accepts e.resource e.version = true) :
    (c.oldest.kindOf (c.lastOffer e) e = .added ↔ c.oldest.ledger.shows e.resource = none) ∨
      c.oldest.kindOf (c.lastOffer e) e = e.kind ∧ e.kind = .added ∧ e.object.generation ≤ 1 ∧
        s.settled = false ∧
        ∃ a, latest e.resource past = some a ∧ a.kind ≠ .deleted ∧ a.number < e.number := by
  rcases c.lastOffer_eq e with hfresh | ⟨hreplay, -⟩
  swap
  · rw [hreplay]
    exact .inl Ledger.replayKind_eq_added_iff
  have hkind : c.oldest.kindOf (c.lastOffer e) e = e.kind := by rw [hfresh]; rfl
  rw [hkind]
  cases hc with
  | settled hsettled hw hr shown =>
    left
    rcases hs.report_cases he with ⟨-, hn⟩ | ⟨r, hmem, -⟩
    · rw [shown, History.added_iff hlife hn]
    · rw [hw] at hmem
      cases hmem
  | replaying hsettled hr live seen =>
    cases hknown : c.head.ledger.contains e.resource with
    | true =>
      -- the newest ledger knows the resource, so the oldest one shows what exists
      left
      have hcontains := hcoherent.covered c.head c.head_mem e.resource hknown
      have hview : view past e.resource = h.state s.position e.resource := seen _ hknown
      rw [hcoherent.shows_eq c.oldest_mem, if_pos hcontains, hview]
      rcases hs.report_cases he with ⟨-, hn⟩ | ⟨r, hmem, rfl⟩
      · exact History.added_iff hlife hn
      · have hstate := htrue.waiting s rfl r hmem
        obtain ⟨en, hen⟩ := Ledger.contains_iff.mp hcontains
        obtain ⟨a, hlatest, -⟩ := hcoherent.reflects _ c.oldest_mem _ en hen
        have hlt := (hcoherent.accepts_iff c.oldest_mem ha).mp haccepts hcontains a hlatest
        have heq := htrue.number_replayed hlatest (hview.trans hstate)
        omega
    | false =>
      -- what is new to the session does not exist yet, or is brought by the replay
      have hadded : e.kind = .added := by
        rcases hs.report_cases he with ⟨hw, hn⟩ | ⟨r, hmem, rfl⟩
        · rw [History.added_iff hlife hn]
          cases hstate : h.state s.position e.resource with
          | none => rfl
          | some r =>
            rcases live _ r hstate with hmem | hcontains
            · rw [hw] at hmem
              cases hmem
            · rw [hknown] at hcontains
              cases hcontains
        · rfl
      cases hshows : c.oldest.ledger.shows e.resource with
      | none => exact .inl ⟨fun _ => rfl, fun _ => hadded⟩
      | some r =>
        right
        obtain ⟨en, hget, hlive, -⟩ := Ledger.shows_eq_some.mp hshows
        have hcontains := Ledger.contains_iff.mpr ⟨en, hget⟩
        obtain ⟨a, hlatest, hreflects⟩ := hcoherent.reflects _ c.oldest_mem _ en hget
        have hancestors : c.ancestors ≠ [] := by
          intro hsingle
          rw [Chain.oldest_of_single hsingle, hknown] at hcontains
          cases hcontains
        exact ⟨rfl, hadded, Chain.generation_le_of_fresh hadded hancestors hfresh, hsettled, a,
          hlatest, hreflects.live.mp hlive,
          (hcoherent.accepts_iff c.oldest_mem ha).mp haccepts hcontains a hlatest⟩

end Converging

/-! ## What a handler is told -/

/-- Whether the session that was announced last starts over and has sent no bookmark yet. -/
def Unproved (told : List Notice) : Prop :=
  ∃ before, ∃ events : List Change, told = before ++ .opened false :: events.map .event ∧
    ∀ e ∈ events, e.kind ≠ .bookmark

theorem Unproved.snoc {told : List Notice} (hu : Unproved told) {e : Change}
    (he : e.kind ≠ .bookmark) : Unproved (told ++ [.event e]) := by
  obtain ⟨before, events, rfl, hevents⟩ := hu
  refine ⟨before, events ++ [e], by simp, fun f hf => ?_⟩
  rcases List.mem_append.mp hf with hf | hf
  · exact hevents f hf
  · rw [List.mem_singleton.mp hf]
    exact he

/-- A session that is not settled has sent no bookmark since it was announced. -/
theorem Told.unproved {h : History} {told : List Notice} {s : Session} (ht : Told h told (some s))
    (hs : s.settled = false) : Unproved told := by
  generalize hlast : some s = last at ht
  induction ht generalizing s with
  | nothing => cases hlast
  | @restart told _ _ _ _ _ _ => exact ⟨told, [], rfl, fun _ he => absurd he List.not_mem_nil⟩
  | resume _ _ _ _ =>
    cases hlast
    cases hs
  | event _ hsends ih =>
    cases hlast
    cases hsends with
    | replay r rest p settled =>
      exact (ih (s := ⟨r :: rest, p, settled⟩) hs rfl).snoc (by simp [Change.ofRecord])
    | change e p settled hn =>
      refine (ih (s := ⟨[], p, settled⟩) hs rfl).snoc fun hk => ?_
      have hreport := h.reports _ hn.mem
      simp [Change.isReport, hk] at hreport
    | bookmark _ _ _ _ _ _ _ => cases hs
  | failure _ he ih => exact (ih hs hlast).snoc (by simp [he])

/-- Whether a session that has not proved that it is complete adds an object which was told before,
at an older version, and which was not told to be deleted since. -/
def Reappears (told : List Notice) (e : Change) : Prop :=
  ∃ before after a, told = before ++ .event e :: after ∧ e.kind = .added ∧ Unproved before ∧
    latest e.resource (noticed before) = some a ∧ a.kind ≠ .deleted ∧ a.number < e.number

/-- Whether an object comes again in that way and was not edited by its own count. -/
def Mistaken (told : List Notice) (e : Change) : Prop :=
  Reappears told e ∧ e.object.generation ≤ 1

theorem Mistaken.append {told : List Notice} {e : Change} (hm : Mistaken told e)
    (more : List Notice) : Mistaken (told ++ more) e := by
  obtain ⟨⟨before, after, a, rfl, hrest⟩, hedited⟩ := hm
  exact ⟨⟨before, after ++ more, a, by simp, hrest⟩, hedited⟩

/-! ## What is planned -/

theorem length_filter_toList {α : Type} (o : Option α) (p : α → Bool) :
    (o.toList.filter p).length ≤ 1 := by
  refine Nat.le_trans (List.length_filter_le p o.toList) ?_
  cases o <;> simp

namespace Coherent
variable {past : List Change} {c : Chain} {events : List Change} {odd : Change → Prop}
  {s : Subscriber}

/-- The deletions that a bookmark makes up are of what the reader holds. -/
theorem lifelike_bookmark (h : Coherent past c) (hg : c.Gathered) (hs : s ∈ c.oldest.subscribers)
    (hview : ∀ x, view events x = c.oldest.ledger.shows x) (hlife : LifelikeBut odd events)
    {b : Change} (hb : b.kind = .bookmark) :
    LifelikeBut odd (events ++ eventsFor s.id (c.sends (.dispatch b))) := by
  have hmark : ∀ e ∈ if s.filter.bookmarks = true then [b] else [], e.isReport = false := by
    intro e he
    split at he
    · rw [List.mem_singleton.mp he]
      exact Chain.isReport_of_bookmark hb
    · cases he
  rw [hg.eventsFor_bookmark hs hb]
  refine hlife.append ?_ ?_
  · intro x
    have hnone : reportsOf x (if s.filter.bookmarks = true then [b] else []) = [] := by
      refine List.filter_eq_nil_iff.mpr fun e he => ?_
      simp [hmark e he]
    rw [reportsOf_append, hnone, List.append_nil]
    by_cases hfull : c.head.resumed = true ∨ c.ancestors = []
    · rw [hg.eventsFor_farewells hs, if_pos hfull]
      exact Nat.zero_le 1
    · rw [h.reportsOf_farewells hg hs b.version hfull, List.length_map]
      exact length_filter_toList _ _
  · intro e he hreport
    rcases List.mem_append.mp he with he | he
    · rw [hg.eventsFor_farewells hs] at he
      split at he
      · cases he
      · obtain ⟨⟨x, r⟩, hmem, rfl⟩ := List.mem_map.mp he
        have hshows := Ledger.mem_known.mp (List.mem_filter.mp hmem).1
        have hresource : (Change.atVersion .deleted r b.version).resource = x :=
          h.resource_of_shows hshows
        rw [hresource, hview, hshows]
        simp [Change.atVersion]
    · rw [hmark e he] at hreport
      cases hreport

/-- Whoever starts from the live state is told of each resource once, as added. -/
theorem lifelike_primed (h : Coherent past c) (filter : Filter) :
    LifelikeBut odd (c.primed filter) := by
  show LifelikeBut odd ([] ++ c.primed filter)
  refine LifelikeBut.nil.append ?_ ?_
  · intro x
    rw [h.reportsOf_primed, List.length_map]
    exact length_filter_toList _ _
  · intro e he _
    obtain ⟨r, -, rfl⟩ := List.mem_map.mp he
    exact .inl ⟨fun _ => rfl, fun _ => rfl⟩

end Coherent

/-- What a handler plans of an event for somebody without requirements tells the truth, mistaken
additions apart. -/
theorem Converging.lifelike_dispatch {h : History} {told : List Notice} {c : Chain} {e : Change}
    (hconverging : ∀ last, Told h told last → Converging h (noticed told) c last)
    (ht : ∃ last, Told h (told ++ [.event e]) last) (hcoherent : Coherent (noticed told) c)
    (hg : c.Gathered) {s : Subscriber} (hs : s ∈ c.oldest.subscribers)
    (hchanges : Lifelike h.changes) {events : List Change}
    (hview : ∀ x, view events x = c.oldest.ledger.shows x)
    (hlife : LifelikeBut (Mistaken told) events) :
    LifelikeBut (Mistaken (told ++ [.event e]))
      (events ++ eventsFor s.id (c.sends (.dispatch e))) := by
  have hlife' : LifelikeBut (Mistaken (told ++ [.event e])) events :=
    hlife.mono fun f hf => hf.append [.event e]
  rcases Chain.isReport_cases e with he | he | he
  · rw [hg.eventsFor_report hs he]
    split
    swap
    · rwa [List.append_nil]
    next hsent =>
    obtain ⟨last, ht⟩ := ht
    have ha : Admits (noticed told) e := by
      have horderly := ht.truthful.orderly
      rw [noticed_append, noticed_event] at horderly
      exact horderly.admits he
    rcases ht.of_event with ⟨σ, σ', hbefore, hsends, -⟩ | ⟨-, herror⟩
    swap
    · rw [Chain.isReport_of_error herror] at he
      cases he
    refine hlife'.snoc fun _ => ?_
    rw [hview]
    rcases (hconverging _ hbefore).kindOf_true hcoherent hbefore.truthful hchanges hsends he ha
      hsent.1 with htrue | ⟨hkind, hadded, hedited, hsettled, a, hlatest, hlive, hlt⟩
    · exact .inl htrue
    · -- the event is passed on as it was told
      rw [hkind]
      have hunproved := hbefore.unproved hsettled
      exact .inr ⟨⟨told, [], a, rfl, hadded, hunproved, hlatest, hlive, hlt⟩, hedited⟩
  · exact hcoherent.lifelike_bookmark hg hs hview hlife' he
  · rw [hg.eventsFor_error hs he]
    refine hlife'.snoc fun hreport => ?_
    rw [Chain.isReport_of_error he] at hreport
    cases hreport

/-! ## What a subscriber is sent -/

/-- What every move keeps for a subscriber without requirements, as long as the handler hears what
sessions of a lifelike server may tell: its stream tells the truth, mistaken additions apart. -/
structure Believes (h : History) (s : Subscriber) (d : Desk) : Prop where
  follows : Follows h d
  attended : d.Attended
  joined : s.id ∈ d.joined
  /-- Nobody else has its number. -/
  single : ∀ t ∈ d.handler.chain.oldest.subscribers, t.id = s.id → t = s
  lifelike : LifelikeBut (Mistaken d.heard) (d.due s.id)

namespace Believes
variable {h : History} {s : Subscriber} {d : Desk} {m : DeskMove}

theorem subscribe (hf : Follows h d) (ha : d.Attended) (hjoins : d.TakesIn s)
    (ht : ∃ last, Told h d.heard last) : Believes h s (d.step (.subscribe s)) := by
  have hheard := d.heard_quiet (m := .subscribe s) (by simp)
  refine ⟨hf.step _ (hheard.symm ▸ ht), ha.step _, ?_, ?_, ?_⟩
  · rw [Desk.step_subscribe hjoins]
    simp
  · intro t hmem hid
    rcases Desk.mem_step ha.sound hmem with hold | ⟨heq, -⟩
    · exact absurd (hid ▸ ha.numbered t hold) hjoins.2
    · cases heq
      rfl
  · rw [Desk.due_subscribe ha hjoins]
    exact (hf.sound.coherent hjoins.1).lifelike_primed s.filter

/-- What is planned for a subscriber tells the truth. -/
theorem lifelike_hear (hb : Believes h s d) (hopen : s.filter.IsOpen)
    (hchanges : Lifelike h.changes) (hidle : d.relay = .listening) (n : Notice)
    (ht : ∃ last, Told h (d.heard ++ [n]) last) :
    LifelikeBut (Mistaken (d.heard ++ [n]))
      (d.due s.id ++ eventsFor s.id (Relay.take d.handler n).2.planned) := by
  have hsame : LifelikeBut (Mistaken (d.heard ++ [n])) (d.due s.id) :=
    hb.lifelike.mono fun e he => he.append [n]
  by_cases hthere : s ∈ d.handler.chain.oldest.subscribers
  swap
  · have hlacks : d.handler.Lacks s.id := fun t hmem hid => hthere (hb.single t hmem hid ▸ hmem)
    rwa [hb.attended.sound.eventsFor_take_of_lacks hlacks, List.append_nil]
  cases n with
  | opened resumed =>
    show LifelikeBut _ (d.due s.id ++ [])
    rwa [List.append_nil]
  | event e =>
    have hlive := hb.attended.sound.live_of_mem hthere
    have hkept : s.id ∉ d.relay.failed := by simp [hidle]
    have hview : ∀ x, view (d.due s.id) x = d.handler.chain.oldest.ledger.shows x := by
      rw [Desk.due_of_not_mem hkept]
      exact hb.follows.sound.mirrored s hthere hopen hkept
    show LifelikeBut _ (d.due s.id ++ eventsFor s.id (d.handler.plan e).2)
    rw [Serving.plan_of_live hlive]
    exact Converging.lifelike_dispatch (hb.follows.converging hlive) ht
      (hb.follows.sound.coherent hlive) hb.attended.sound.gathered hthere hchanges hview hb.lifelike

theorem step (hb : Believes h s d) (hopen : s.filter.IsOpen) (hchanges : Lifelike h.changes)
    (m : DeskMove) (ht : ∃ last, Told h (d.step m).heard last) : Believes h s (d.step m) := by
  refine ⟨hb.follows.step m ht, hb.attended.step m, d.joined_step hb.joined m, ?_, ?_⟩
  · intro t hmem hid
    rcases Desk.mem_step hb.attended.sound hmem with hold | ⟨-, hjoins⟩
    · exact hb.single t hold hid
    · exact absurd (hid ▸ hb.joined) hjoins.2
  rcases d.hear_cases m with ⟨n, rfl, hidle⟩ | ⟨n, rfl, hbusy⟩ | hm
  · rw [Desk.heard_hear hidle] at ht
    rw [Desk.heard_hear hidle, Desk.due_hear hidle]
    exact hb.lifelike_hear hopen hchanges hidle n ht
  · rw [Desk.step_hear_of_busy hbusy]
    exact hb.lifelike
  · rw [d.heard_quiet hm]
    exact hb.lifelike.of_prefix (Desk.due_quiet hb.attended hb.joined hm)

end Believes

namespace World
variable {h : History} {closable : Session → Prop} {w w' : World} {s : Subscriber}

/-- The handler moves on its own. -/
theorem Step.desk (hstep : Step h closable w w') :
    w'.desk = w.desk ∨ ∃ m, w'.desk = w.desk.step m := by
  cases hstep with
  | hear n rest hqueue hidle => exact .inr ⟨.hear n, rfl⟩
  | act m hm => exact .inr ⟨m, rfl⟩
  | _ => exact .inl rfl

theorem Runs.attended (hrun : Runs h w w') (hw : w.desk.Attended) : w'.desk.Attended := by
  induction hrun with
  | refl => exact hw
  | tail _ hstep ih =>
    rcases hstep.desk with hsame | ⟨m, hmove⟩
    · rwa [hsame]
    · rw [hmove]
      exact ih.step m

theorem Kept.heard (hw : Kept h w) : ∃ last, Told h w.desk.heard last := by
  obtain ⟨last, ht⟩ := hw.given
  exact ht.of_append

theorem Kept.believes (hw : Kept h w) (hb : Believes h s w.desk) (hopen : s.filter.IsOpen)
    (hchanges : Lifelike h.changes) (hrun : Runs h w w') : Believes h s w'.desk := by
  induction hrun with
  | refl => exact hb
  | @tail v v' hrun hstep ih =>
    rcases hstep.desk with hsame | ⟨m, hmove⟩
    · rwa [hsame]
    · rw [hmove]
      exact ih.step hopen hchanges m (hmove ▸ ((hw.run hrun).step hstep).heard)

/-- What somebody without requirements is sent, from when it joins on, in a run over a lifelike
server. Modifications and deletions are always of what it holds, and so are additions never, but for
mistaken ones. If every object that comes again was edited by its own count, the kinds of every
resource are those of its lifetimes. -/
theorem kinds_lifelike (hchanges : Lifelike h.changes) {target : Target} {settings : WatchSettings}
    (hbefore : Runs h (.start target settings) w) (hjoins : w.desk.TakesIn s)
    (hopen : s.filter.IsOpen)
    (hafter : Runs h { w with desk := w.desk.step (.subscribe s) } w') :
    LifelikeBut (Mistaken w'.desk.heard) (eventsFor s.id w'.desk.sent) ∧
    ((∀ e, Reappears w'.desk.heard e → 1 < e.object.generation) →
      Lifelike (eventsFor s.id w'.desk.sent) ∧
      ∀ x, Cyclic ((reportsOf x (eventsFor s.id w'.desk.sent)).map (·.kind))) := by
  have hkept : Kept h w := (Kept.start target settings).run hbefore
  have hjoined : Kept h { w with desk := w.desk.step (.subscribe s) } := hkept.act (by simp)
  have hbelieves : Believes h s (w.desk.step (.subscribe s)) :=
    .subscribe hkept.follows (hbefore.attended (.start target)) hjoins hkept.heard
  have hsent := (hjoined.believes hbelieves hopen hchanges hafter).lifelike.of_prefix
    (Desk.sent_prefix_due _ s.id)
  refine ⟨hsent, fun hedited => ?_⟩
  have hlife : Lifelike (eventsFor s.id w'.desk.sent) := by
    refine hsent.mono ?_
    rintro e ⟨hagain, hle⟩
    have := hedited e hagain
    omega
  exact ⟨hlife, hlife.cyclic⟩

/-- An object after some changes by its own count. -/
def edition (version : String) (generation : Int) : Record :=
  { Record.empty with name := "a", version, generation }

/-- An object that is made and edited; `generation` is its own count after that. -/
def editedOnce (generation : Int) : History where
  changes := [.ofRecord .added (edition "1" 0), .ofRecord .modified (edition "2" generation)]
  reports := by simp [Change.isReport, Change.ofRecord]
  carried := by simp [Change.ofRecord]
  counted := by
    have hcounters : counter? "1" = some 1 ∧ counter? "2" = some 2 := by decide
    intro e he
    simp only [List.mem_cons, List.not_mem_nil, or_false] at he
    rcases he with rfl | rfl
    · exact ⟨1, hcounters.1⟩
    · exact ⟨2, hcounters.2⟩
  ascending := by
    have hless : (counter? "1").getD 0 < (counter? "2").getD 0 := by decide
    exact List.pairwise_pair.mpr hless

theorem editedOnce_lifelike (generation : Int) : Lifelike (editedOnce generation).changes := by
  refine (LifelikeBut.nil.snoc (e := .ofRecord .added (edition "1" 0)) ?_).snoc
    (e := .ofRecord .modified (edition "2" generation)) ?_
  · exact fun _ => .inl ⟨fun _ => rfl, fun _ => rfl⟩
  · have hview : view [.ofRecord .added (edition "1" 0)] ⟨"", "a"⟩ = some (edition "1" 0) := by
      decide
    refine fun _ => .inl ⟨fun hk => ?_, fun hnone => ?_⟩
    · cases hk
    · cases hview.symm.trans hnone

/-- A world whose handler has one subscriber from the beginning, who has no requirements. -/
def followed : World :=
  let w := start ⟨"v1/Pod", none⟩ .standard
  { w with desk := w.desk.step (.subscribe ⟨7, .everything⟩) }

/-- What the handler does when a second session starts over after the edit. -/
def secondReplay (generation : Int) : List DeskMove :=
  [.hear (.opened false), .hear (.event (.ofRecord .added (edition "1" 0))), .deliver .accepted,
    .conclude, .hear (.opened false),
    .hear (.event (.ofRecord .added (edition "2" generation))), .deliver .accepted, .conclude]

/-- A second session starts over after the edit, since an error ended the first one. -/
theorem secondReplay_runs : ∀ generation ∈ [(0 : Int), 2], ∃ w,
    Runs (editedOnce generation) followed w ∧
      w.desk = followed.desk.run (secondReplay generation) := by
  intro generation hmem
  have hlists : ∀ generation ∈ [(0 : Int), 2],
      (editedOnce generation).Lists 1 [edition "1" 0] ∧
      (editedOnce generation).Lists 2 [edition "2" generation] := by decide
  obtain ⟨hfirst, hsecond⟩ := hlists generation hmem
  have hw : Runs (editedOnce generation) followed _ := .refl
  replace hw := hw.tail (.openFresh _ _ _ 1 _ 0 rfl rfl hfirst (by decide))
  replace hw := (hw.tail (.handOver _ _ 0 rfl)).tail (.hear _ _ _ rfl rfl)
  replace hw := hw.tail (.send _ _ _ _ 0 rfl rfl (.replay (edition "1" 0) [] 1 false))
  replace hw := (hw.tail (.handOver _ _ 0 rfl)).tail (.hear _ _ _ rfl rfl)
  replace hw := hw.tail (.act _ (.deliver .accepted) (by simp))
  replace hw := hw.tail (.act _ .conclude (by simp))
  replace hw := hw.tail (.fail _ (.error "expired") 0 rfl rfl)
  replace hw := hw.tail (.openFresh _ _ _ 2 _ 0 rfl rfl hsecond (by decide))
  replace hw := (hw.tail (.handOver _ _ 0 rfl)).tail (.hear _ _ _ rfl rfl)
  replace hw := hw.tail (.send _ _ _ _ 0 rfl rfl (.replay (edition "2" generation) [] 2 false))
  replace hw := (hw.tail (.handOver _ _ 0 rfl)).tail (.hear _ _ _ rfl rfl)
  replace hw := hw.tail (.act _ (.deliver .accepted) (by simp))
  replace hw := hw.tail (.act _ .conclude (by simp))
  exact ⟨_, hw, rfl⟩

/-- An object that was edited by its own count comes again as modified. -/
theorem kinds_lifelike_secondReplay : ∃ w, Runs (editedOnce 2) followed w ∧
    Lifelike (eventsFor 7 w.desk.sent) ∧
    (eventsFor 7 w.desk.sent).map (·.kind) = [.added, .modified] := by
  obtain ⟨w, hw, hdesk⟩ := secondReplay_runs 2 (by simp)
  have hjoins : (start ⟨"v1/Pod", none⟩ .standard).desk.TakesIn ⟨7, .everything⟩ := by
    unfold Desk.TakesIn
    decide
  -- only the second replay brings anything later than what was told before
  have hedited : ∀ e ∈ noticed w.desk.heard, ∀ a ∈ noticed w.desk.heard, a.number < e.number →
      1 < e.object.generation := by
    rw [hdesk]
    decide
  have hagain : ∀ e, Reappears w.desk.heard e → 1 < e.object.generation := by
    rintro e ⟨before, after, a, htold, -, -, hlatest, -, hlt⟩
    have hevents : noticed w.desk.heard = noticed before ++ e :: noticed after := by
      rw [htold]
      simp [noticed, Notice.event?]
    refine hedited e (by simp [hevents]) a ?_ hlt
    rw [hevents]
    exact List.mem_append_left _ (latest_mem hlatest).1
  have hlife := ((kinds_lifelike (editedOnce_lifelike 2) .refl hjoins ⟨rfl, rfl⟩ hw).2 hagain).1
  refine ⟨w, hw, hlife, ?_⟩
  rw [hdesk]
  decide

/-- An object without a count of its own comes again as added, to somebody who holds it. -/
theorem reappearing_added_twice : Lifelike (editedOnce 0).changes ∧
    (∃ w, Runs (editedOnce 0) followed w ∧
      (reportsOf ⟨"", "a"⟩ (eventsFor 7 w.desk.sent)).map (·.kind) = [.added, .added]) ∧
    ¬ Cyclic [.added, .added] := by
  obtain ⟨w, hw, hdesk⟩ := secondReplay_runs 0 (by simp)
  have hkinds : (reportsOf ⟨"", "a"⟩ (eventsFor 7 w.desk.sent)).map (·.kind) =
      [.added, .added] := by
    rw [hdesk]
    decide
  refine ⟨editedOnce_lifelike 0, ⟨w, hw, hkinds⟩, ?_⟩
  rintro ⟨counts, hprefix⟩
  cases counts with
  | nil => simp at hprefix
  | cons edits rest => cases edits <;> simp [lifetime, List.replicate_succ] at hprefix

/-- What the handler does when a replay brings what is left after a deletion, is closed when it is
whole, and a second session goes on from the last object. -/
def lateDeletion : List DeskMove :=
  let a : Record := { Record.empty with name := "a", version := "3" }
  let b : Record := { Record.empty with name := "b", version := "2" }
  [.subscribe ⟨7, .everything⟩, .hear (.opened false), .hear (.event (.ofRecord .added b)),
    .deliver .accepted, .conclude, .hear (.opened true), .hear (.event (.ofRecord .deleted a)),
    .deliver .accepted, .conclude]

theorem lateDeletion_reachable : ∃ w,
    Reachable missedDeletion (fun s => s.waiting = []) ⟨"v1/Pod", none⟩ .standard w ∧
      w.desk = (Desk.start ⟨"v1/Pod", none⟩).run lateDeletion := by
  let a : Record := { Record.empty with name := "a", version := "3" }
  let b : Record := { Record.empty with name := "b", version := "2" }
  have hafter : missedDeletion.Lists 3 [b] := by decide
  have hgone : missedDeletion.Next ((counter? "2").getD 0) (.ofRecord .deleted a) := by
    have htwo : (counter? "2").getD 0 = 2 := by decide
    rw [htwo]
    exact ⟨by decide, by decide, by decide⟩
  have hw : Reachable missedDeletion (fun s => s.waiting = []) ⟨"v1/Pod", none⟩ .standard _ :=
    .start
  replace hw := hw.step (.act _ (.subscribe ⟨7, .everything⟩) (by simp))
  replace hw := hw.step (.openFresh _ _ _ 3 [b] 0 rfl rfl hafter (by decide))
  replace hw := (hw.step (.handOver _ _ 0 rfl)).step (.hear _ (.opened false) _ rfl rfl)
  replace hw := hw.step (.send _ _ _ _ 0 rfl rfl (.replay b [] 3 false))
  replace hw := hw.step (.handOver _ _ 0 rfl)
  replace hw := hw.step (.hear _ (.event (.ofRecord .added b)) _ rfl rfl)
  replace hw := hw.step (.act _ (.deliver .accepted) (by simp))
  replace hw := hw.step (.act _ .conclude (by simp))
  replace hw := hw.step (.close _ _ .ended 0 rfl rfl rfl (by simp))
  replace hw := hw.step (.openResumed _ _ _ "2" 0 rfl rfl)
  replace hw := (hw.step (.handOver _ _ 0 rfl)).step (.hear _ (.opened true) _ rfl rfl)
  replace hw := hw.step (.send _ ⟨[], (counter? "2").getD 0, true⟩ _ (.ofRecord .deleted a) 0
    rfl rfl (.change _ _ true hgone))
  replace hw := hw.step (.handOver _ (.event (.ofRecord .deleted a)) 0 rfl)
  replace hw := hw.step (.hear _ (.event (.ofRecord .deleted a)) _ rfl rfl)
  replace hw := hw.step (.act _ (.deliver .accepted) (by simp))
  replace hw := hw.step (.act _ .conclude (by simp))
  refine ⟨_, hw, ?_⟩
  dsimp only [Desk.run, lateDeletion, List.foldl, World.start]

/-- The end of a whole replay can lose something too. The connection goes on from the version of the
last object, which is older than a deletion that the replay showed by leaving the object out, and
the deletion is sent to somebody who was never told of the object. -/
theorem unheard_deletion_sent : ∃ w,
    Reachable missedDeletion (fun s => s.waiting = []) ⟨"v1/Pod", none⟩ .standard w ∧
      (reportsOf ⟨"", "a"⟩ (eventsFor 7 w.desk.sent)).map (·.kind) = [.deleted] := by
  obtain ⟨w, hw, hdesk⟩ := lateDeletion_reachable
  refine ⟨w, hw, ?_⟩
  rw [hdesk]
  decide

end World

end SharedWatch
