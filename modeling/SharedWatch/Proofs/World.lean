import Mathlib.Logic.Relation
import SharedWatch.Proofs.Convergence
import SharedWatch.Proofs.Link

/-!
A shared watch and the server that it follows.

A `World` is a connection, the session that is open for it on the server's side, the queue between
the connection and its reader, and the handler at work that reads it. Each part moves on its own:
`World.Step` lets the server answer, refuse, send, fail and close, the connection hand over and end,
and the handler do whatever it can.

Main statement: after each bookmark that is dispatched, the chain has one generation, its ledger
holds exactly what exists on the server at the version of the bookmark, and every subscriber with an
open filter holds the same (`bookmark_converges`). A session that starts over may not be closed
before its first bookmark for that: the connection would go on from the version of some object of
the replay.

What is told stays true to the server under a weaker condition too (`Lossless`), which says when the
version that the connection goes on from stands for what it told: `Kept.run`.
-/

namespace SharedWatch

/-- The notice that a connection is handing over. -/
def Connection.pending (c : Connection) : List Notice :=
  match c.task with
  | .sending n => [n]
  | _ => []

/-- A connection, its server and its reader. -/
structure World where
  link : Connection
  /-- The session that the server last opened, until it is over. -/
  session : Option Session
  /-- What was handed over and not yet taken up. -/
  queue : List Notice
  desk : Desk

namespace World

/-- A handler that was just started, with its connection. -/
def start (target : Target) (settings : WatchSettings) : World :=
  ⟨.start settings none, none, [], .start target⟩

/-- All that the connection told its reader, whether it was taken up or not. -/
def told (w : World) : List Notice := w.desk.heard ++ w.queue ++ w.link.pending

/-- One step of one part. `closable` says which sessions may end without an error. -/
inductive Step (h : History) (closable : Session → Prop) : World → World → Prop where
  /-- A request without a resume point opens a session that replays a state, no older than any
  version that was told, in any order. -/
  | openFresh (w : World) (pause : Span) (request : OpenRequest) (p : Nat) (records : List Record)
      (choice : Nat) (htask : w.link.task = .opening pause request)
      (hresume : request.resume = none) (hl : h.Lists p records)
      (hp : ∀ e ∈ noticed w.told, e.number ≤ p) :
      Step h closable w
        { w with link := w.link.receive .opened choice, session := some ⟨records, p, false⟩ }
  /-- A request with a resume point opens a session that goes on from it. -/
  | openResumed (w : World) (pause : Span) (request : OpenRequest) (r : String) (choice : Nat)
      (htask : w.link.task = .opening pause request) (hresume : request.resume = some r) :
      Step h closable w
        { w with
          link := w.link.receive .opened choice
          session := some ⟨[], (counter? r).getD 0, true⟩ }
  | refuse (w : World) (pause : Span) (request : OpenRequest) (reason : String) (choice : Nat)
      (htask : w.link.task = .opening pause request) :
      Step h closable w { w with link := w.link.receive (.refused reason) choice }
  | send (w : World) (s s' : Session) (e : Change) (choice : Nat)
      (htask : w.link.task = .following) (hs : w.session = some s) (hsends : s.Sends h e s') :
      Step h closable w
        { w with link := w.link.receive (.item (.event e)) choice, session := some s' }
  /-- An error on the stream ends the session. -/
  | fail (w : World) (e : Change) (choice : Nat) (htask : w.link.task = .following)
      (he : e.kind = .error) :
      Step h closable w
        { w with link := w.link.receive (.item (.event e)) choice, session := none }
  /-- The server closes the stream, or the transport fails. -/
  | close (w : World) (s : Session) (i : StreamItem) (choice : Nat)
      (htask : w.link.task = .following) (hs : w.session = some s) (hc : closable s)
      (hi : ∀ e, i ≠ .event e) :
      Step h closable w { w with link := w.link.receive (.item i) choice, session := none }
  | handOver (w : World) (n : Notice) (choice : Nat) (htask : w.link.task = .sending n) :
      Step h closable w
        { w with link := w.link.receive .sent choice, queue := w.queue ++ [n] }
  /-- The connection finds that its reader has gone. -/
  | abandon (w : World) (n : Notice) (choice : Nat) (htask : w.link.task = .sending n) :
      Step h closable w { w with link := w.link.receive .abandoned choice }
  | cancel (w : World) (choice : Nat) :
      Step h closable w { w with link := w.link.receive .cancelled choice }
  /-- The relay takes up the next notice. -/
  | hear (w : World) (n : Notice) (rest : List Notice) (hqueue : w.queue = n :: rest)
      (hidle : w.desk.relay = .listening) :
      Step h closable w { w with queue := rest, desk := w.desk.step (.hear n) }
  /-- The relay makes deliveries, callers come and go. -/
  | act (w : World) (m : DeskMove) (hm : ∀ n, m ≠ .hear n) :
      Step h closable w { w with desk := w.desk.step m }

/-- The states that a shared watch can get into, in any number of steps. -/
inductive Reachable (h : History) (closable : Session → Prop) (target : Target)
    (settings : WatchSettings) : World → Prop where
  | start : Reachable h closable target settings (.start target settings)
  | step {w w' : World} (hw : Reachable h closable target settings w)
      (hstep : Step h closable w w') : Reachable h closable target settings w'

/-- Whether the end of a session loses its reader nothing: the session is settled, or the connection
has no version to go on from and starts over, or the replay is over, all that was told to exist does
exist, and no change lies between the version to go on from and where the session is. -/
def Lossless (h : History) (w : World) (s : Session) : Prop :=
  s.settled = true ∨ w.link.state = .running none ∨
    s.waiting = [] ∧ (∀ x, h.state s.position x = none → view (noticed w.told) x = none) ∧
      ∃ r q, w.link.state = .running (some r) ∧ counter? r = some q ∧ h.Level s.position q

/-- Any number of steps, in which sessions end without an error only where that loses nothing. -/
def Runs (h : History) : World → World → Prop :=
  Relation.ReflTransGen fun w w' => Step h (w.Lossless h) w w'

/-- Whether the version `r` stands for what was told: a session that goes on from it leaves no
gap. -/
def Resumable (h : History) (told : List Notice) (r : String) : Prop :=
  ∃ s q, Told h told (some s) ∧ s.Gapless h (noticed told) ∧ counter? r = some q ∧
    h.Level s.position q

/-- How a connection stands to what it told: the version that one goes on from stands for it, and
one that is open told what its session sent. -/
inductive Linked (h : History) (w : World) : Prop where
  | opening {resume : Option String} (ho : w.link.Opens resume)
      (hr : ∀ r, resume = some r → Resumable h w.told r) : Linked h w
  | following {resume : Option String} {s : Session} (hstate : w.link.state = .running resume)
      (htask : w.link.task = .following ∨ ∃ n, w.link.task = .sending n)
      (hs : w.session = some s) (ht : Told h w.told (some s))
      (hmark : s.settled = true → ∃ r, resume = some r ∧ counter? r = some s.position) : Linked h w
  | failing {n : Notice} (hstate : w.link.state = .failed) (htask : w.link.task = .sending n) :
      Linked h w
  | done (htask : w.link.task = .done) : Linked h w

/-- What every step keeps. -/
structure Kept (h : History) (w : World) : Prop where
  told : ∃ last, Told h w.told last
  linked : Linked h w
  follows : Follows h w.desk

theorem pending_of_opens {c : Connection} {resume : Option String} (h : c.Opens resume) :
    c.pending = [] := by
  obtain ⟨-, pause, request, htask, -⟩ := h
  simp [Connection.pending, htask]

theorem pending_of_sending {c : Connection} {n : Notice} (h : c.task = .sending n) :
    c.pending = [n] := by
  simp [Connection.pending, h]

theorem pending_of_following {c : Connection} (h : c.task = .following) : c.pending = [] := by
  simp [Connection.pending, h]

theorem pending_of_done {c : Connection} (h : c.task = .done) : c.pending = [] := by
  simp [Connection.pending, h]

theorem told_of_idle {w : World} (h : w.link.pending = []) : w.told = w.desk.heard ++ w.queue := by
  rw [told, h, List.append_nil]

/-- A reader that is given nothing new can only be told more by the link. -/
theorem told_link (w : World) (link : Connection) (session : Option Session) :
    told { w with link, session } = w.desk.heard ++ w.queue ++ link.pending := rfl

namespace Kept
variable {h : History} {w : World}

theorem start (target : Target) (settings : WatchSettings) : Kept h (.start target settings) := by
  have ho := Connection.start_opens settings none
  have htold : (World.start target settings).told = [] := by
    simp [World.told, World.start, Desk.start, pending_of_opens ho]
  refine ⟨⟨none, htold ▸ .nothing⟩, .opening ho (by simp), .start target⟩

/-- Whatever becomes of the link, what the reader was given was told. -/
theorem given (hw : Kept h w) : ∃ last, Told h (w.desk.heard ++ w.queue) last := by
  obtain ⟨last, ht⟩ := hw.told
  exact ht.of_append

theorem opens (hw : Kept h w) {pause : Span} {request : OpenRequest}
    (htask : w.link.task = .opening pause request) :
    w.link.Opens request.resume ∧ ∀ r, request.resume = some r → Resumable h w.told r := by
  cases hw.linked with
  | @opening resume ho hr =>
    obtain ⟨hstate, pause', request', htask', hresume⟩ := ho
    rw [htask] at htask'
    cases htask'
    subst hresume
    exact ⟨⟨hstate, pause, request, htask, rfl⟩, hr⟩
  | following _ htask' _ _ _ => rcases htask' with htask' | ⟨n, htask'⟩ <;> simp [htask] at htask'
  | failing _ htask' => simp [htask] at htask'
  | done htask' => simp [htask] at htask'

theorem open_session (hw : Kept h w) (htask : w.link.task = .following) :
    ∃ resume s, w.link.state = .running resume ∧ w.session = some s ∧ Told h w.told (some s) ∧
      (s.settled = true → ∃ r, resume = some r ∧ counter? r = some s.position) := by
  cases hw.linked with
  | opening ho _ =>
    obtain ⟨-, pause, request, htask', -⟩ := ho
    simp [htask] at htask'
  | @following resume s hstate _ hs ht hmark => exact ⟨resume, s, hstate, hs, ht, hmark⟩
  | failing _ htask' => simp [htask] at htask'
  | done htask' => simp [htask] at htask'

theorem openFresh (hw : Kept h w) {pause : Span} {request : OpenRequest} {p : Nat}
    {records : List Record} (choice : Nat) (htask : w.link.task = .opening pause request)
    (hresume : request.resume = none) (hl : h.Lists p records)
    (hp : ∀ e ∈ noticed w.told, e.number ≤ p) :
    Kept h { w with
      link := w.link.receive .opened choice
      session := some ⟨records, p, false⟩ } := by
  obtain ⟨ho, -⟩ := hw.opens htask
  obtain ⟨hstate, htask'⟩ := Connection.receive_opened ho choice
  obtain ⟨last, ht⟩ := hw.told
  have htold : World.told { w with
      link := w.link.receive .opened choice, session := some ⟨records, p, false⟩ } =
      w.told ++ [.opened false] := by
    rw [told_link, told_of_idle (pending_of_opens ho), pending_of_sending htask', hresume]
    rfl
  have hnew := Told.restart p records ht hl hp
  rw [← htold] at hnew
  exact ⟨⟨_, hnew⟩, .following hstate (Or.inr ⟨_, htask'⟩) rfl hnew (by simp), hw.follows⟩

theorem openResumed (hw : Kept h w) {pause : Span} {request : OpenRequest} {r : String}
    (choice : Nat) (htask : w.link.task = .opening pause request)
    (hresume : request.resume = some r) :
    Kept h { w with
      link := w.link.receive .opened choice
      session := some ⟨[], (counter? r).getD 0, true⟩ } := by
  obtain ⟨ho, hr⟩ := hw.opens htask
  obtain ⟨s, q, ht, hs, hq, hl⟩ := hr r hresume
  obtain ⟨hstate, htask'⟩ := Connection.receive_opened ho choice
  rw [hq, Option.getD_some]
  have htold : World.told { w with
      link := w.link.receive .opened choice, session := some ⟨[], q, true⟩ } =
      w.told ++ [.opened true] := by
    rw [told_link, told_of_idle (pending_of_opens ho), pending_of_sending htask', hresume]
    rfl
  have hnew := Told.resume q ht hs hl
  rw [← htold] at hnew
  rw [hresume] at hstate
  exact ⟨⟨_, hnew⟩,
    .following hstate (Or.inr ⟨_, htask'⟩) rfl hnew fun _ => ⟨r, rfl, hq⟩, hw.follows⟩

theorem refuse (hw : Kept h w) {pause : Span} {request : OpenRequest} (reason : String)
    (choice : Nat) (htask : w.link.task = .opening pause request) :
    Kept h { w with link := w.link.receive (.refused reason) choice } := by
  obtain ⟨ho, hr⟩ := hw.opens htask
  obtain ⟨last, ht⟩ := hw.told
  rcases Connection.receive_refused ho reason choice with ho' | ⟨hstate, htask'⟩
  · have htold :
        World.told { w with link := w.link.receive (.refused reason) choice } = w.told := by
      rw [told_link, told_of_idle (pending_of_opens ho), pending_of_opens ho', List.append_nil]
    exact ⟨⟨last, htold ▸ ht⟩, .opening ho' (htold ▸ hr), hw.follows⟩
  · have htold : World.told { w with link := w.link.receive (.refused reason) choice } =
        w.told ++ [.event (.error reason)] := by
      rw [told_link, told_of_idle (pending_of_opens ho), pending_of_sending htask']
    exact ⟨⟨last, htold ▸ .failure ht rfl⟩, .failing hstate htask', hw.follows⟩

theorem send (hw : Kept h w) {s s' : Session} {e : Change} (choice : Nat)
    (htask : w.link.task = .following) (hs : w.session = some s) (hsends : s.Sends h e s') :
    Kept h { w with link := w.link.receive (.item (.event e)) choice, session := some s' } := by
  obtain ⟨resume, t, hstate, ht', ht, hmark⟩ := hw.open_session htask
  rw [hs] at ht'
  cases ht'
  obtain ⟨hstate', htask'⟩ := Connection.receive_event hstate htask hsends.kind_ne_error choice
  have htold : World.told { w with
      link := w.link.receive (.item (.event e)) choice, session := some s' } =
      w.told ++ [.event e] := by
    rw [told_link, told_of_idle (pending_of_following htask), pending_of_sending htask']
  have hnew := Told.event ht hsends
  rw [← htold] at hnew
  refine ⟨⟨_, hnew⟩, .following hstate' (Or.inr ⟨_, htask'⟩) rfl hnew ?_, hw.follows⟩
  intro hsettled
  have hadvance : ∀ v, counter? e.version = some v →
      ∃ r, Connection.State.advance resume e.version = some r ∧ counter? r = some v := by
    intro v hv
    refine ⟨e.version, ?_, hv⟩
    unfold Connection.State.advance
    split
    · next hempty =>
      have hnone : counter? "" = none := by decide
      rw [hempty, hnone] at hv
      cases hv
    · rfl
  cases hsends with
  | replay r rest p settled =>
    -- a settled session has nothing to replay
    have hw := ht.waiting_of_settled hsettled
    simp at hw
  | change e p settled hn =>
    obtain ⟨v, hv⟩ := h.counted e hn.mem
    rw [Change.number_eq hv]
    exact hadvance v hv
  | bookmark e p v settled he hv hl => exact hadvance v hv

theorem fail (hw : Kept h w) {e : Change} (choice : Nat) (htask : w.link.task = .following)
    (he : e.kind = .error) :
    Kept h { w with link := w.link.receive (.item (.event e)) choice, session := none } := by
  obtain ⟨resume, s, hstate, -, ht, -⟩ := hw.open_session htask
  have ho := Connection.receive_error hstate htask he choice
  have htold : World.told { w with
      link := w.link.receive (.item (.event e)) choice, session := none } = w.told := by
    rw [told_link, told_of_idle (pending_of_following htask), pending_of_opens ho, List.append_nil]
  exact ⟨⟨_, htold ▸ ht⟩, .opening ho (by simp), hw.follows⟩

theorem close (hw : Kept h w) {s : Session} {i : StreamItem} (choice : Nat)
    (htask : w.link.task = .following) (hs : w.session = some s) (hlossless : w.Lossless h s)
    (hi : ∀ e, i ≠ .event e) :
    Kept h { w with link := w.link.receive (.item i) choice, session := none } := by
  obtain ⟨resume, t, hstate, ht', ht, hmark⟩ := hw.open_session htask
  rw [hs] at ht'
  cases ht'
  have ho := Connection.receive_closed hstate htask hi choice
  have htold : World.told { w with link := w.link.receive (.item i) choice, session := none } =
      w.told := by
    rw [told_link, told_of_idle (pending_of_following htask), pending_of_opens ho, List.append_nil]
  refine ⟨⟨_, htold ▸ ht⟩, .opening ho ?_, hw.follows⟩
  rintro r rfl
  rw [htold]
  rcases hlossless with hsettled | hfresh | ⟨hw, hgone, r', q, hstate', hq, hl⟩
  · -- a settled session is where the version of its last event says
    obtain ⟨r', hr', hposition⟩ := hmark hsettled
    cases hr'
    exact ⟨s, s.position, ht, .inl hsettled, hposition, fun _ _ => Iff.rfl⟩
  · rw [hstate] at hfresh
    cases hfresh
  · rw [hstate] at hstate'
    cases hstate'
    exact ⟨s, q, ht, .inr ⟨hw, hgone⟩, hq, hl⟩

theorem handOver (hw : Kept h w) {n : Notice} (choice : Nat) (htask : w.link.task = .sending n) :
    Kept h { w with link := w.link.receive .sent choice, queue := w.queue ++ [n] } := by
  have htold : ∀ link : Connection, link.pending = [] →
      World.told { w with link, queue := w.queue ++ [n] } = w.told := by
    intro link hlink
    simp only [World.told, hlink, pending_of_sending htask, List.append_nil, List.append_assoc]
  obtain ⟨last, ht⟩ := hw.told
  rw [Connection.receive_sent htask]
  cases hw.linked with
  | opening ho _ =>
    obtain ⟨-, pause, request, htask', -⟩ := ho
    simp [htask] at htask'
  | following hstate _ hs ht' hmark =>
    obtain ⟨hstate', htask'⟩ := Connection.proceed_running hstate choice
    have heq := htold _ (pending_of_following htask')
    exact ⟨⟨last, heq ▸ ht⟩, .following hstate' (Or.inl htask') hs (heq ▸ ht') hmark, hw.follows⟩
  | failing hstate _ =>
    have hterminal : w.link.state.isTerminal = true := by rw [hstate]; rfl
    have htask' := Connection.proceed_terminal hterminal choice
    exact ⟨⟨last, htold _ (pending_of_done htask') ▸ ht⟩, .done htask', hw.follows⟩
  | done htask' => simp [htask] at htask'

/-- A connection that ends leaves its reader with what it was given. -/
theorem ended (hw : Kept h w) {link : Connection} (htask : link.task = .done) :
    Kept h { w with link } := by
  obtain ⟨last, ht⟩ := hw.given
  have htold : World.told { w with link } = w.desk.heard ++ w.queue :=
    told_of_idle (pending_of_done htask)
  exact ⟨⟨last, htold ▸ ht⟩, .done htask, hw.follows⟩

/-- The link does not depend on what its reader does. -/
theorem read (hw : Kept h w) {queue : List Notice} {desk : Desk}
    (heq : desk.heard ++ queue = w.desk.heard ++ w.queue) (hfollows : Follows h desk) :
    Kept h { w with queue, desk } := by
  have htold : World.told { w with queue, desk } = w.told := by simp only [World.told, heq]
  obtain ⟨last, ht⟩ := hw.told
  refine ⟨⟨last, htold ▸ ht⟩, ?_, hfollows⟩
  cases hw.linked with
  | opening ho hr => exact .opening ho (htold ▸ hr)
  | following hstate htask hs ht hmark => exact .following hstate htask hs (htold ▸ ht) hmark
  | failing hstate htask => exact .failing hstate htask
  | done htask => exact .done htask

theorem hear (hw : Kept h w) {n : Notice} {rest : List Notice} (hqueue : w.queue = n :: rest)
    (hidle : w.desk.relay = .listening) :
    Kept h { w with queue := rest, desk := w.desk.step (.hear n) } := by
  have heq : (w.desk.step (.hear n)).heard ++ rest = w.desk.heard ++ w.queue := by
    rw [Desk.heard_hear hidle, hqueue, List.append_assoc, List.singleton_append]
  apply hw.read heq
  obtain ⟨last, ht⟩ := hw.given
  exact hw.follows.step _ (heq ▸ ht).of_append

theorem act (hw : Kept h w) {m : DeskMove} (hm : ∀ n, m ≠ .hear n) :
    Kept h { w with desk := w.desk.step m } := by
  have heq : (w.desk.step m).heard ++ w.queue = w.desk.heard ++ w.queue := by
    rw [w.desk.heard_quiet hm]
  apply hw.read heq
  obtain ⟨last, ht⟩ := hw.given
  exact hw.follows.quiet hm (heq ▸ ht).of_append

theorem step (hw : Kept h w) {w' : World} (hstep : Step h (w.Lossless h) w w') : Kept h w' := by
  cases hstep with
  | openFresh pause request p records choice htask hresume hl hp =>
    exact hw.openFresh choice htask hresume hl hp
  | openResumed pause request r choice htask hresume => exact hw.openResumed choice htask hresume
  | refuse pause request reason choice htask => exact hw.refuse reason choice htask
  | send s s' e choice htask hs hsends => exact hw.send choice htask hs hsends
  | fail e choice htask he => exact hw.fail choice htask he
  | close s i choice htask hs hc hi => exact hw.close choice htask hs hc hi
  | handOver n choice htask => exact hw.handOver choice htask
  | abandon n choice htask => exact hw.ended (Connection.receive_abandoned htask choice)
  | cancel choice => exact hw.ended (Connection.receive_cancelled w.link choice)
  | hear n rest hqueue hidle => exact hw.hear hqueue hidle
  | act m hm => exact hw.act hm

theorem run (hw : Kept h w) {w' : World} (hrun : Runs h w w') : Kept h w' := by
  induction hrun with
  | refl => exact hw
  | tail _ hstep ih => exact ih.step hstep

end Kept

/-- The fewer sessions may end, the fewer steps there are. -/
theorem Step.mono {h : History} {closable closable' : Session → Prop}
    (hc : ∀ s, closable s → closable' s) {w w' : World} (hstep : Step h closable w w') :
    Step h closable' w w' := by
  cases hstep with
  | openFresh pause request p records choice htask hresume hl hp =>
    exact .openFresh w pause request p records choice htask hresume hl hp
  | openResumed pause request r choice htask hresume =>
    exact .openResumed w pause request r choice htask hresume
  | refuse pause request reason choice htask => exact .refuse w pause request reason choice htask
  | send s s' e choice htask hs hsends => exact .send w s s' e choice htask hs hsends
  | fail e choice htask he => exact .fail w e choice htask he
  | close s i choice htask hs hclosable hi => exact .close w s i choice htask hs (hc s hclosable) hi
  | handOver n choice htask => exact .handOver w n choice htask
  | abandon n choice htask => exact .abandon w n choice htask
  | cancel choice => exact .cancel w choice
  | hear n rest hqueue hidle => exact .hear w n rest hqueue hidle
  | act m hm => exact .act w m hm

/-- The end of a settled session loses nothing. -/
theorem Reachable.runs {h : History} {target : Target} {settings : WatchSettings} {w : World}
    (hw : Reachable h (fun s => s.settled = true) target settings w) :
    Runs h (.start target settings) w := by
  induction hw with
  | start => exact .refl
  | step _ hstep ih => exact ih.tail (hstep.mono fun _ hs => .inl hs)

/-- When a bookmark was dispatched the chain has one generation, whose ledger holds exactly what
exists on the server at the version of the bookmark; so does the snapshot, and so does everybody
with an open filter. -/
theorem bookmark_converges {h : History} {target : Target} {settings : WatchSettings} {w : World}
    (hw : Reachable h (fun s => s.settled = true) target settings w) {b : Change}
    {rest : List Notice} (hqueue : w.queue = .event b :: rest) (hb : b.kind = .bookmark)
    (hidle : w.desk.relay = .listening) (hlive : w.desk.handler.stopped = false) {d : Desk}
    (hd : w.desk.step (.hear (.event b)) = d) :
    d.handler.chain.depth = 1 ∧ ∃ v, counter? b.version = some v ∧
      (∀ x, (d.handler.chain.head.ledger.get? x).map (·.object) = h.state v x) ∧
      (∀ r, r ∈ d.handler.chain.snapshot ↔ h.state v r.resource = some r) ∧
      ∀ s ∈ d.handler.chain.head.subscribers, s.filter.IsOpen →
        view (eventsFor s.id d.given) = h.state v := by
  have hkept := (Kept.start target settings).run hw.runs
  obtain ⟨last, ht⟩ := hkept.given
  rw [hqueue, ← List.singleton_append, ← List.append_assoc] at ht
  obtain ⟨last, ht⟩ := ht.of_append
  obtain ⟨v, hv, rfl⟩ := ht.of_bookmark hb
  have hfollows := hkept.follows.hear_event hidle ⟨_, ht⟩
  obtain ⟨hchain, hstopped, hplan⟩ := Desk.hear_bookmark hidle hlive hb
  rw [hd] at hfollows hchain hstopped hplan
  have hcoherent := hfollows.sound.coherent hstopped
  have hsingle : d.handler.chain.oldest = d.handler.chain.head := by
    rw [hchain]
    exact Chain.oldest_of_single rfl
  have hheard : d.heard = w.desk.heard ++ [.event b] := by
    rw [← hd, Desk.heard_hear hidle]
  have hshown : ∀ x, d.handler.chain.oldest.ledger.shows x = h.state v x := by
    cases hfollows.converging hstopped _ (hheard ▸ ht) with
    | replaying hs _ _ _ => cases hs
    | settled _ _ _ shown => exact shown
  refine ⟨by rw [hchain]; rfl, v, hv, ?_, ?_, ?_⟩
  · intro x
    have hhead : d.handler.chain.head.ledger = w.desk.handler.chain.merged.prune := by
      rw [hchain]
      rfl
    calc (d.handler.chain.head.ledger.get? x).map (·.object)
        = w.desk.handler.chain.merged.shows x := by rw [hhead, Ledger.map_object_prune]
      _ = d.handler.chain.oldest.ledger.shows x := by rw [hsingle, hhead, Ledger.shows_prune]
      _ = h.state v x := hshown x
  · intro r
    rw [hcoherent.mem_snapshot, hshown]
  · intro s hs hopen
    funext x
    rw [hfollows.sound.mirrored s (hsingle ▸ hs) hopen (by rw [hplan]; simp), hshown]

/-- A first replay is cut off by an error on the stream, a second one is complete. -/
theorem missedDeletion_reachable :
    ∃ w, Reachable missedDeletion (fun s => s.settled = true) ⟨"v1/Pod", none⟩ .standard w ∧
      w.queue = [.event (.bookmark "3")] ∧ w.desk.relay = .listening ∧
      w.desk.handler.stopped = false := by
  let a : Record := { Record.empty with name := "a", version := "1" }
  let b : Record := { Record.empty with name := "b", version := "2" }
  have hbefore : missedDeletion.Lists 2 [a, b] := by decide
  have hafter : missedDeletion.Lists 3 [b] := by decide
  have hw : Reachable missedDeletion (fun s => s.settled = true) ⟨"v1/Pod", none⟩ .standard _ :=
    .start
  replace hw := hw.step (.act _ (.subscribe ⟨7, .everything⟩) (by simp))
  -- two objects exist; the first one is replayed
  replace hw := hw.step (.openFresh _ _ _ 2 [a, b] 0 rfl rfl hbefore (by decide))
  replace hw := (hw.step (.handOver _ _ 0 rfl)).step (.hear _ _ _ rfl rfl)
  replace hw := hw.step (.send _ _ _ _ 0 rfl rfl (.replay a [b] 2 false))
  replace hw := (hw.step (.handOver _ _ 0 rfl)).step (.hear _ _ _ rfl rfl)
  replace hw := hw.step (.act _ (.deliver .accepted) (by simp))
  replace hw := hw.step (.act _ .conclude (by simp))
  -- in between the first one is deleted
  replace hw := hw.step (.fail _ (.error "expired") 0 rfl rfl)
  replace hw := hw.step (.openFresh _ _ _ 3 [b] 0 rfl rfl hafter (by decide))
  replace hw := (hw.step (.handOver _ _ 0 rfl)).step (.hear _ _ _ rfl rfl)
  replace hw := hw.step (.send _ _ _ _ 0 rfl rfl (.replay b [] 3 false))
  replace hw := (hw.step (.handOver _ _ 0 rfl)).step (.hear _ _ _ rfl rfl)
  replace hw := hw.step (.act _ (.deliver .accepted) (by simp))
  replace hw := hw.step (.act _ .conclude (by simp))
  replace hw := hw.step (.send _ _ _ _ 0 rfl rfl (.bookmark (.bookmark "3") 3 3 false rfl
    (by decide) fun _ _ => Iff.rfl))
  replace hw := hw.step (.handOver _ _ 0 rfl)
  exact ⟨_, hw, by decide +kernel, by decide +kernel, by decide +kernel⟩

theorem bookmark_converges_missedDeletion :
    ∃ w, Reachable missedDeletion (fun s => s.settled = true) ⟨"v1/Pod", none⟩ .standard w ∧
      w.queue = [.event (.bookmark "3")] ∧ w.desk.relay = .listening ∧
      w.desk.handler.stopped = false ∧
      (w.desk.step (.hear (.event (.bookmark "3")))).handler.chain.depth = 1 ∧
      ∀ r, r ∈ (w.desk.step (.hear (.event (.bookmark "3")))).handler.chain.snapshot ↔
        missedDeletion.state 3 r.resource = some r := by
  obtain ⟨w, hw, hqueue, hidle, hlive⟩ := missedDeletion_reachable
  obtain ⟨hdepth, v, hv, -, hsnapshot, -⟩ := bookmark_converges hw hqueue rfl hidle hlive rfl
  have hthree : counter? (Change.bookmark "3").version = some 3 := by decide
  rw [hthree] at hv
  cases hv
  exact ⟨w, hw, hqueue, hidle, hlive, hdepth, hsnapshot⟩

end World

end SharedWatch
