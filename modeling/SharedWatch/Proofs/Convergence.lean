import SharedWatch.Proofs.Desk

/-!
How the ledgers of a chain approach the state of the server.

While a session replays, the newest ledger fills up with what exists at the session's position; the
older ones may still hold what has gone (`Converging.replaying`). A bookmark keeps the newest ledger
then, and from there on the oldest ledger shows the server's state at the position of the session,
also over sessions that go on from there (`Converging.settled`). It does so without a bookmark once
a replay is over that brought all that was told to exist (`Converging.shown_of_gapless`).

`Converging.sends` takes one event through; `Follows` is the same of a handler at work.
-/

namespace SharedWatch

/-- How far a chain has got with what the last announced session sent. -/
inductive Converging (h : History) (past : List Change) (c : Chain) : Option Session → Prop where
  /-- No session was announced. -/
  | unopened (hr : c.head.resumed = false) (hempty : ∀ x, c.head.ledger.contains x = false) :
      Converging h past c none
  /-- What exists is still to be replayed or known to the newest ledger, which knows nothing else
  to exist. -/
  | replaying {s : Session} (hs : s.settled = false) (hr : c.head.resumed = false)
      (live : ∀ x r, h.state s.position x = some r →
        r ∈ s.waiting ∨ c.head.ledger.contains x = true)
      (seen : ∀ x, c.head.ledger.contains x = true → view past x = h.state s.position x) :
      Converging h past c (some s)
  /-- The oldest ledger shows the server's state. -/
  | settled {s : Session} (hs : s.settled = true) (hw : s.waiting = [])
      (hr : c.head.resumed = true ∨ c.ancestors = [])
      (shown : ∀ x, c.oldest.ledger.shows x = h.state s.position x) : Converging h past c (some s)

namespace Converging
variable {h : History} {past : List Change} {c : Chain} {s : Session} {last : Option Session}

theorem of_lineage (hc : Converging h past c last) {c' : Chain} (heq : c'.lineage = c.lineage) :
    Converging h past c' last := by
  obtain ⟨hresumed, hledger, hancestors⟩ := Chain.head_of_lineage heq
  cases hc with
  | unopened hr hempty => exact .unopened (hresumed ▸ hr) (hledger ▸ hempty)
  | replaying hs hr live seen =>
    exact .replaying hs (hresumed ▸ hr) (hledger ▸ live) (hledger ▸ seen)
  | settled hs hw hr shown =>
    refine .settled hs hw (hr.imp (hresumed ▸ ·) hancestors.mpr) ?_
    rw [Chain.oldest_of_lineage heq]
    exact shown

/-- A session that starts over begins with a newest ledger that knows nothing. -/
theorem restart {p : Nat} {records : List Record} (hl : h.Lists p records)
    (hr : c.head.resumed = false) (hempty : ∀ x, c.head.ledger.contains x = false) :
    Converging h past c (some ⟨records, p, false⟩) := by
  refine .replaying rfl hr ?_ ?_
  · intro x r hx
    have hrx := History.resource_of_state hx
    exact Or.inl ((hl.2 r).mpr (hrx ▸ hx))
  · intro x hx
    rw [hempty] at hx
    cases hx

/-- Once a session is gapless, the oldest ledger shows the server's state. -/
theorem shown_of_gapless (hc : Converging h past c (some s)) (hcoherent : Coherent past c)
    (hs : s.Gapless h past) (x : ResourceName) :
    c.oldest.ledger.shows x = h.state s.position x := by
  cases hc with
  | settled _ _ _ shown => exact shown x
  | replaying hs' _ live seen =>
    obtain ⟨hw, hgone⟩ := hs.resolve_left (by simp [hs'])
    rw [hcoherent.shows_eq c.oldest_mem]
    cases hstate : h.state s.position x with
    | none => rw [hgone x hstate, ite_self]
    | some r =>
      -- the replay is over, so the newest ledger knows whatever exists
      have hknown : c.head.ledger.contains x = true :=
        (live x r hstate).resolve_left (by simp [hw])
      rw [if_pos (hcoherent.covered c.head c.head_mem x hknown), seen x hknown, hstate]

/-- A session that goes on keeps what the oldest ledger shows. -/
theorem resume (hc : Converging h past c (some s)) (hcoherent : Coherent past c)
    (hs : s.Gapless h past) {q : Nat} (hl : h.Level s.position q) (id : Nat) :
    Converging h past (c.advance id true) (some ⟨[], q, true⟩) := by
  refine .settled rfl rfl (Or.inl rfl) ?_
  rw [(c.oldest_advance id true).2, ← History.state_level hl]
  exact hc.shown_of_gapless hcoherent hs

/-- A report that changes the state of the position as it changes the fold. -/
theorem relay (hc : Converging h past c (some s)) (hcoherent : Coherent past c) {e : Change}
    (he : e.isReport = true) (ha : Admits past e) {s' : Session} (hsettled : s'.settled = s.settled)
    (hstate : ∀ x, h.state s'.position x = if e.resource = x then e.outcome else
      h.state s.position x)
    (hwaiting : ∀ r ∈ s.waiting, r ∈ s'.waiting ∨ e.resource = r.resource)
    (hdone : s.waiting = [] → s'.waiting = []) :
    Converging h (past ++ [e]) (c.relay e).1 (some s') := by
  obtain ⟨hresumed, hcontains⟩ := c.head_relay e
  cases hc with
  | replaying hs hr live seen =>
    refine .replaying (hsettled.trans hs) (hresumed.trans hr) ?_ ?_
    · intro x r hx
      rw [hcontains]
      -- what is left to be replayed shrinks only by what the newest ledger now knows
      by_cases hex : e.resource = x
      · exact Or.inr (Or.inr hex)
      · rw [hstate, if_neg hex] at hx
        rcases live x r hx with hmem | hknown
        · rcases hwaiting r hmem with hmem | hname
          · exact Or.inl hmem
          · exact absurd (hname.trans (History.resource_of_state hx)) hex
        · exact Or.inr (Or.inl hknown)
    · intro x hx
      rw [view_snoc, hstate]
      by_cases hex : e.resource = x
      · rw [if_pos ⟨he, hex⟩, if_pos hex]
      · rw [if_neg fun hh => hex hh.2, if_neg hex]
        exact seen x (((hcontains x).mp hx).resolve_right hex)
  | settled hs hw hr shown =>
    refine .settled (hsettled.trans hs) (hdone hw) (Chain.relay_whole hr e) ?_
    intro x
    rw [hcoherent.shows_relay he ha, hstate, shown]

/-- After the replay a bookmark makes the oldest ledger show the state. -/
theorem bookmark {p v : Nat} {settled : Bool}
    (hc : Converging h past c (some ⟨[], p, settled⟩)) (hcoherent : Coherent past c) (e : Change)
    (hl : h.Level p v) (past' : List Change) :
    Converging h past' (c.checkpoint e).1 (some ⟨[], v, true⟩) := by
  refine .settled rfl rfl (Or.inr rfl) fun x => ?_
  rw [hcoherent.shows_checkpoint, ← History.state_level hl]
  cases hc with
  | replaying hs hr live seen =>
    rw [if_neg (by simp [hr]), hcoherent.shows_eq c.head_mem]
    split
    · next hknown => exact seen x hknown
    · next hunknown =>
      -- nothing is left to be replayed, so what is not known does not exist
      cases hx : h.state p x with
      | none => rfl
      | some r =>
        rcases live x r hx with hmem | hknown
        · simp at hmem
        · exact absurd hknown hunknown
  | settled hs hw hr shown => rw [Chain.kept hr, shown]

theorem sends (hc : Converging h past c (some s)) (hcoherent : Coherent past c)
    (htrue : Truthful h past (some s)) {e : Change} {s' : Session} (hs : s.Sends h e s')
    (ha : e.isReport = true → Admits past e) :
    Converging h (past ++ [e]) (c.dispatch e).1 (some s') := by
  cases hs with
  | replay r rest p settled =>
    have hr := htrue.waiting _ rfl r List.mem_cons_self
    rw [(c.dispatch_report rfl).1]
    refine hc.relay hcoherent rfl (ha rfl) rfl ?_ ?_ (by simp)
    · intro x
      split
      · next hx =>
        rw [← hx]
        exact hr
      · rfl
    · intro t ht
      rcases List.mem_cons.mp ht with rfl | ht
      · exact Or.inr rfl
      · exact Or.inl ht
  | change e p settled hn =>
    have he := h.reports e hn.mem
    rw [(c.dispatch_report he).1]
    exact hc.relay hcoherent he (ha he) rfl (History.state_next hn) (by simp) (by simp)
  | bookmark e p v settled he hv hl =>
    rw [(c.dispatch_bookmark he).1]
    exact hc.bookmark hcoherent e hl _

theorem failure (hc : Converging h past c last) {e : Change} (he : e.kind = .error) :
    Converging h (past ++ [e]) (c.dispatch e).1 last := by
  rw [(c.dispatch_error he).1]
  cases hc with
  | unopened hr hempty => exact .unopened hr hempty
  | settled hs hw hr shown => exact .settled hs hw hr shown
  | replaying hs hr live seen =>
    refine .replaying hs hr live fun x hx => ?_
    rw [view_snoc, if_neg (by simp [Change.isReport, he])]
    exact seen x hx

end Converging

theorem Told.opened {h : History} {told : List Notice} {s : Session} (ht : Told h told (some s)) :
    ∃ resumed, .opened resumed ∈ told := by
  generalize hlast : some s = last at ht
  induction ht generalizing s with
  | nothing => cases hlast
  | restart _ _ _ _ _ _ => exact ⟨false, by simp⟩
  | resume _ _ _ _ _ => exact ⟨true, by simp⟩
  | event _ _ ih =>
    obtain ⟨resumed, hmem⟩ := ih rfl
    exact ⟨resumed, List.mem_append_left _ hmem⟩
  | failure _ _ ih =>
    obtain ⟨resumed, hmem⟩ := ih hlast
    exact ⟨resumed, List.mem_append_left _ hmem⟩

/-- A handler at work follows the server: whatever sessions may have told what it heard, its chain
has got as far as they did. -/
structure Follows (h : History) (d : Desk) : Prop where
  sound : d.Sound
  begun : d.handler.sessions = 0 → ∀ resumed, .opened resumed ∉ d.heard
  converging : d.handler.stopped = false → ∀ last, Told h d.heard last →
    Converging h d.events d.handler.chain last

namespace Follows
variable {h : History} {d : Desk}

theorem start (target : Target) : Follows h (.start target) := by
  refine ⟨Serving.start target, by simp [Desk.start], ?_⟩
  intro _ last ht
  cases last with
  | none => exact .unopened rfl fun _ => rfl
  | some s =>
    obtain ⟨resumed, hmem⟩ := ht.opened
    simp [Desk.start] at hmem

theorem quiet (hd : Follows h d) {m : DeskMove} (hm : ∀ n, m ≠ .hear n)
    (ht : ∃ last, Told h (d.step m).heard last) : Follows h (d.step m) := by
  obtain ⟨hsessions, hlineage⟩ := Desk.step_quiet hd.sound.gathered hm
  have hheard := d.heard_quiet hm
  obtain ⟨last, ht⟩ := ht
  refine ⟨hd.sound.step m ht.truthful.orderly, ?_, ?_⟩
  · rw [hsessions, hheard]
    exact hd.begun
  · intro hlive last ht
    obtain ⟨hbefore, heq⟩ := hlineage hlive
    unfold Desk.events
    rw [hheard] at ht ⊢
    exact (hd.converging hbefore last ht).of_lineage heq

theorem hear_opened (hd : Follows h d) (hidle : d.relay = .listening) {resumed : Bool}
    (ht : ∃ last, Told h (d.heard ++ [.opened resumed]) last) :
    Follows h (d.step (.hear (.opened resumed))) := by
  have hhandler : (d.step (.hear (.opened resumed))).handler = d.handler.beginSession resumed :=
    Desk.handler_hear hidle _
  obtain ⟨last, ht⟩ := ht
  refine ⟨hd.sound.step _ ?_, ?_, ?_⟩
  · rw [Desk.events, Desk.heard_hear hidle]
    exact ht.truthful.orderly
  · intro hzero
    rw [hhandler] at hzero
    cases hzero
  · intro hlive last' ht'
    rw [hhandler] at hlive
    replace hlive : d.handler.stopped = false := hlive
    rw [Desk.heard_hear hidle] at ht'
    rw [Desk.events_hear hidle, noticed_opened, List.append_nil, hhandler]
    unfold Handler.beginSession
    rcases ht'.of_opened with ⟨rfl, p, records, last, hbefore, hl, rfl⟩ |
      ⟨rfl, s, q, hbefore, hs, hl, rfl⟩
    · by_cases hfirst : d.handler.sessions = 0
      · rw [if_pos hfirst]
        -- no session was announced before, so the first generation is as it was made
        cases last with
        | some s =>
          obtain ⟨resumed, hmem⟩ := hbefore.opened
          exact absurd hmem (hd.begun hfirst resumed)
        | none =>
          cases hd.converging hlive none hbefore with
          | unopened hr hempty => exact .restart hl hr hempty
      · rw [if_neg hfirst]
        exact .restart hl rfl fun _ => rfl
    · have hfirst : d.handler.sessions ≠ 0 := by
        intro hzero
        obtain ⟨resumed, hmem⟩ := hbefore.opened
        exact hd.begun hzero resumed hmem
      rw [if_neg hfirst]
      exact (hd.converging hlive _ hbefore).resume (hd.sound.coherent hlive) hs hl _

theorem hear_event (hd : Follows h d) (hidle : d.relay = .listening) {e : Change}
    (ht : ∃ last, Told h (d.heard ++ [.event e]) last) : Follows h (d.step (.hear (.event e))) := by
  have hhandler : (d.step (.hear (.event e))).handler = (d.handler.plan e).1 :=
    Desk.handler_hear hidle _
  obtain ⟨hsessions, hstopped⟩ := Serving.plan_keeps d.handler e
  obtain ⟨last, ht⟩ := ht
  have horderly : Orderly (d.events ++ [e]) := by
    have := ht.truthful.orderly
    rwa [noticed_append, noticed_event] at this
  refine ⟨hd.sound.step _ ?_, ?_, ?_⟩
  · rw [Desk.events_hear hidle]
    exact horderly
  · intro hzero resumed hmem
    rw [hhandler, hsessions] at hzero
    rw [Desk.heard_hear hidle] at hmem
    simp only [List.mem_append, List.mem_singleton, reduceCtorEq, or_false] at hmem
    exact hd.begun hzero resumed hmem
  · intro hlive last' ht'
    rw [hhandler, hstopped] at hlive
    rw [Desk.heard_hear hidle] at ht'
    rw [Desk.events_hear hidle, hhandler, Serving.plan_of_live hlive]
    have hcoherent := hd.sound.coherent hlive
    rcases ht'.of_event with ⟨s, s', before, hs, rfl⟩ | ⟨before, he⟩
    · exact (hd.converging hlive _ before).sends hcoherent before.truthful hs horderly.admits
    · exact (hd.converging hlive _ before).failure he

/-- A handler follows the server with every move, as long as it hears what sessions may tell. -/
theorem step (hd : Follows h d) (m : DeskMove) (ht : ∃ last, Told h (d.step m).heard last) :
    Follows h (d.step m) := by
  rcases d.hear_cases m with ⟨n, rfl, hidle⟩ | ⟨n, rfl, hbusy⟩ | hm
  · rw [Desk.heard_hear hidle] at ht
    cases n with
    | opened resumed => exact hd.hear_opened hidle ht
    | event e => exact hd.hear_event hidle ht
  · rw [Desk.step_hear_of_busy hbusy]
    exact hd
  · exact hd.quiet hm ht

end Follows

end SharedWatch
