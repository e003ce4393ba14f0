import Mathlib.Data.List.DropRight
import SharedWatch.Proofs.Link

/-!
What a connection tells its reader, whatever its server does.

A `Source` answers each request with a stream of items or refuses it. A `Drive` is a connection with
all that passed between it and its source and its reader. Each task may go well, fail or be
cancelled at any time, so the items that were handed over can end anywhere.

Main statement: `output_grammar`. What is handed over is a sequence of sessions. Each one is
announced, and brings a beginning of its stream that stops before the first error; each request asks
from the last version that was handed over. An error is told once at most, as the last item, when
the connection gives up.
-/

namespace SharedWatch.Connection

/-- How requests are answered, by their number: with the items of a stream, or with the reason of a
refusal. Whatever an answer depends on, a run gets one for each number; a stream that stalls is one
whose further items are never read. -/
abbrev Source := Nat → Except String (Nat → StreamItem)

/-- A connection at work. -/
structure Drive where
  link : Connection
  /-- The requests that were answered. -/
  asked : List OpenRequest
  /-- The stream that was opened last. -/
  stream : Nat → StreamItem
  /-- How many of its items were read. -/
  read : Nat
  /-- What was handed over to the reader. -/
  items : List Notice

namespace Drive

inductive Move where
  /-- The task of the connection goes on. -/
  | go (choice : Nat)
  | cancel (choice : Nat)
  /-- The reader has gone. -/
  | abandon (choice : Nat)

def start (settings : WatchSettings) (selector : Option String) : Drive :=
  ⟨.start settings selector, [], fun _ => .ended, 0, []⟩

/-- One task gets done: a request is answered, an item is read, or one is handed over. -/
def proceed (source : Source) (d : Drive) (choice : Nat) : Drive :=
  match d.link.task with
  | .opening _ request =>
    match source d.asked.length with
    | .ok stream =>
      { d with link := d.link.receive .opened choice, asked := d.asked ++ [request], stream
               read := 0 }
    | .error reason =>
      { d with link := d.link.receive (.refused reason) choice, asked := d.asked ++ [request] }
  | .following =>
    { d with link := d.link.receive (.item (d.stream d.read)) choice, read := d.read + 1 }
  | .sending n => { d with link := d.link.receive .sent choice, items := d.items ++ [n] }
  | .done => d

def step (source : Source) (d : Drive) : Move → Drive
  | .go choice => d.proceed source choice
  | .cancel choice => { d with link := d.link.receive .cancelled choice }
  | .abandon choice => { d with link := d.link.receive .abandoned choice }

def run (source : Source) (d : Drive) (moves : List Move) : Drive := moves.foldl (step source) d

end Drive

/-! ## Streams and attempts -/

/-- An element of a list with one more is an element of the list, or that one. -/
theorem of_getElem?_snoc {α : Type} {xs : List α} {x y : α} {n : Nat}
    (h : (xs ++ [x])[n]? = some y) : xs[n]? = some y ∨ n = xs.length ∧ x = y := by
  rcases Nat.lt_or_ge n xs.length with hn | hn
  · rw [List.getElem?_append_left hn] at h
    exact Or.inl h
  · have hlt := (List.getElem?_eq_some_iff.mp h).1
    simp only [List.length_append, List.length_singleton] at hlt
    have hlast : n = xs.length := by omega
    subst hlast
    exact Or.inr ⟨rfl, by simpa using h⟩

/-- Whether a stream yields the given events first, with no error and no break among them. -/
def Begins (stream : Nat → StreamItem) (events : List Change) : Prop :=
  ∀ i e, events[i]? = some e → stream i = .event e ∧ e.kind ≠ .error

theorem begins_nil (stream : Nat → StreamItem) : Begins stream [] := by
  intro i e he
  simp at he

theorem Begins.of_append {stream : Nat → StreamItem} {events more : List Change}
    (h : Begins stream (events ++ more)) : Begins stream events := by
  intro i e he
  have hi : i < events.length := (List.getElem?_eq_some_iff.mp he).1
  exact h i e (by rw [List.getElem?_append_left hi, he])

theorem begins_snoc {stream : Nat → StreamItem} {events : List Change} {e : Change} :
    Begins stream (events ++ [e]) ↔
      Begins stream events ∧ stream events.length = .event e ∧ e.kind ≠ .error := by
  constructor
  · intro h
    exact ⟨h.of_append, h events.length e (by simp)⟩
  · rintro ⟨h, he⟩ i f hf
    rcases of_getElem?_snoc hf with hf | ⟨rfl, rfl⟩
    · exact h i f hf
    · exact he

/-- One request, its answer, and the events that were read and are for the reader. -/
structure Attempt where
  request : OpenRequest
  answer : Except String (Nat → StreamItem)
  events : List Change

namespace Attempt

/-- What the reader is told of an attempt: that a session has begun, resumed if the request carried
a resume point, and its events. -/
def items (a : Attempt) : List Notice :=
  match a.answer with
  | .ok _ => .opened a.request.resume.isSome :: a.events.map .event
  | .error _ => []

/-- Whether the events are a beginning of the stream, before its first error or break. -/
def Follows (a : Attempt) : Prop :=
  match a.answer with
  | .ok stream => Begins stream a.events
  | .error _ => a.events = []

/-- What the stream holds after the events. -/
def rest? (a : Attempt) : Option StreamItem :=
  match a.answer with
  | .ok stream => some (stream a.events.length)
  | .error _ => none

/-- Whether an error of the server follows the events. -/
def failed (a : Attempt) : Bool :=
  match a.rest? with
  | some (.event e) => e.kind = .error
  | _ => false

/-- Whether nothing for the reader follows: the stream breaks, ends, or has an error. -/
def Over (a : Attempt) : Prop := ∀ e, a.rest? = some (.event e) → e.kind = .error

theorem failed_iff {a : Attempt} :
    a.failed = true ↔ ∃ e, a.rest? = some (.event e) ∧ e.kind = .error := by
  unfold failed
  split
  · next e he => simp [he]
  · next hne =>
    constructor
    · intro h
      cases h
    · rintro ⟨e, he, -⟩
      exact absurd he (hne e)

theorem rest?_of_ok {a : Attempt} {stream : Nat → StreamItem} (ha : a.answer = .ok stream) :
    a.rest? = some (stream a.events.length) := by
  unfold rest?
  rw [ha]

theorem rest?_of_error {a : Attempt} {reason : String} (ha : a.answer = .error reason) :
    a.rest? = none := by
  unfold rest?
  rw [ha]

theorem items_of_ok {a : Attempt} {stream : Nat → StreamItem} (ha : a.answer = .ok stream) :
    a.items = .opened a.request.resume.isSome :: a.events.map .event := by
  unfold items
  rw [ha]

theorem items_of_error {a : Attempt} {reason : String} (ha : a.answer = .error reason) :
    a.items = [] := by
  unfold items
  rw [ha]

theorem follows_of_ok {a : Attempt} {stream : Nat → StreamItem} (ha : a.answer = .ok stream) :
    a.Follows ↔ Begins stream a.events := by
  unfold Follows
  rw [ha]

theorem follows_of_error {a : Attempt} {reason : String} (ha : a.answer = .error reason) :
    a.Follows ↔ a.events = [] := by
  unfold Follows
  rw [ha]

/-- What is told of an attempt begins with the announcement of a session. -/
theorem head_items {a : Attempt} {n : Notice} (h : a.items.head? = some n) :
    ∃ resumed, n = .opened resumed := by
  cases ha : a.answer with
  | ok stream =>
    rw [items_of_ok ha] at h
    exact ⟨_, (Option.some.inj h).symm⟩
  | error reason =>
    rw [items_of_error ha] at h
    cases h

/-- No event of an attempt is an error. -/
theorem Follows.kind_ne_error {a : Attempt} (h : a.Follows) {e : Change}
    (he : .event e ∈ a.items) : e.kind ≠ .error := by
  cases ha : a.answer with
  | ok stream =>
    rw [follows_of_ok ha] at h
    simp only [items_of_ok ha, List.mem_cons, reduceCtorEq, List.mem_map, Notice.event.injEq,
      exists_eq_right, false_or] at he
    obtain ⟨i, hi⟩ := List.getElem?_of_mem he
    exact (h i e hi).2
  | error reason =>
    rw [items_of_error ha] at he
    cases he

/-- The attempt after one more event. -/
def more (a : Attempt) (e : Change) : Attempt := { a with events := a.events ++ [e] }

@[simp] theorem request_more (a : Attempt) (e : Change) : (a.more e).request = a.request := rfl

@[simp] theorem events_more (a : Attempt) (e : Change) : (a.more e).events = a.events ++ [e] := rfl

theorem items_more {a : Attempt} {stream : Nat → StreamItem} (ha : a.answer = .ok stream)
    (e : Change) : (a.more e).items = a.items ++ [.event e] := by
  have hmore : (a.more e).answer = .ok stream := ha
  rw [items_of_ok ha, items_of_ok hmore]
  simp

theorem Follows.more {a : Attempt} (h : a.Follows) {stream : Nat → StreamItem}
    (ha : a.answer = .ok stream) {e : Change} (he : stream a.events.length = .event e)
    (hk : e.kind ≠ .error) : (a.more e).Follows := by
  have hmore : (a.more e).answer = .ok stream := ha
  rw [follows_of_ok hmore]
  exact begins_snoc.mpr ⟨(follows_of_ok ha).mp h, he, hk⟩

end Attempt

/-- The last version among some events that is not empty. -/
def lastVersion (events : List Change) : Option String :=
  ((events.map (·.version)).filter (· ≠ "")).getLast?

theorem lastVersion_snoc (events : List Change) (e : Change) :
    lastVersion (events ++ [e]) = State.advance (lastVersion events) e.version := by
  unfold lastVersion State.advance
  by_cases hv : e.version = "" <;> simp [hv, List.filter_append]

/-- The events since the last error of the server. -/
def sinceError (attempts : List Attempt) : List Change :=
  (attempts.rtakeWhile (!·.failed)).flatMap Attempt.events

/-- The last version, if any, since the start or the last error of the server. -/
def resumePoint (attempts : List Attempt) : Option String := lastVersion (sinceError attempts)

theorem resumePoint_failed (attempts : List Attempt) {a : Attempt} (ha : a.failed = true) :
    resumePoint (attempts ++ [a]) = none := by
  unfold resumePoint sinceError
  rw [List.rtakeWhile_concat_neg _ _ _ (by simp [ha])]
  rfl

theorem resumePoint_snoc (attempts : List Attempt) {a : Attempt} (ha : ¬ a.failed = true) :
    resumePoint (attempts ++ [a]) = lastVersion (sinceError attempts ++ a.events) := by
  unfold resumePoint sinceError
  rw [List.rtakeWhile_concat_pos _ _ _ (by simpa using ha), List.flatMap_append,
    List.flatMap_singleton]

/-- Attempts one after another. Each one is made when those before it are over, asks from the point
that they left, and gets the answer that is next. -/
inductive Consecutive (source : Source) : List Attempt → Prop where
  | nothing : Consecutive source []
  | another {attempts : List Attempt} {a : Attempt} (before : Consecutive source attempts)
      (hover : ∀ b ∈ attempts, b.Over) (hresume : a.request.resume = resumePoint attempts)
      (hanswer : a.answer = source attempts.length) (hfollows : a.Follows) :
      Consecutive source (attempts ++ [a])

namespace Consecutive
variable {source : Source} {attempts : List Attempt} {a : Attempt}

theorem of_snoc (h : Consecutive source (attempts ++ [a])) :
    Consecutive source attempts ∧ (∀ b ∈ attempts, b.Over) ∧
      a.request.resume = resumePoint attempts ∧ a.answer = source attempts.length ∧ a.Follows := by
  generalize hall : attempts ++ [a] = all at h
  cases h with
  | nothing => simp at hall
  | another before hover hresume hanswer hfollows =>
    obtain ⟨rfl, ha⟩ := List.append_inj' hall rfl
    cases ha
    exact ⟨before, hover, hresume, hanswer, hfollows⟩

theorem follows (h : Consecutive source attempts) (ha : a ∈ attempts) : a.Follows := by
  induction h with
  | nothing => cases ha
  | another _ _ _ _ hfollows ih =>
    rcases List.mem_append.mp ha with ha | ha
    · exact ih ha
    · exact List.mem_singleton.mp ha ▸ hfollows

theorem answer (h : Consecutive source attempts) {n : Nat} (ha : attempts[n]? = some a) :
    a.answer = source n := by
  induction h with
  | nothing => simp at ha
  | another _ _ _ hanswer _ ih =>
    rcases of_getElem?_snoc ha with ha | ⟨rfl, rfl⟩
    · exact ih ha
    · exact hanswer

/-- No error of the server is brought to the reader. -/
theorem kind_ne_error (h : Consecutive source attempts) {e : Change}
    (he : .event e ∈ attempts.flatMap Attempt.items) : e.kind ≠ .error := by
  obtain ⟨a, ha, he⟩ := List.mem_flatMap.mp he
  exact (h.follows ha).kind_ne_error he

/-- The attempt that is under way brings one more event. -/
theorem grow (h : Consecutive source (attempts ++ [a])) {stream : Nat → StreamItem} {e : Change}
    (ha : a.answer = .ok stream) (he : stream a.events.length = .event e) (hk : e.kind ≠ .error) :
    Consecutive source (attempts ++ [a.more e]) := by
  obtain ⟨before, hover, hresume, hanswer, hfollows⟩ := h.of_snoc
  exact before.another hover hresume hanswer (hfollows.more ha he hk)

end Consecutive

/-- An attempt that got a stream adds an announcement and its events to what attempts bring. -/
theorem items_snoc (attempts : List Attempt) {a : Attempt} {stream : Nat → StreamItem}
    (ha : a.answer = .ok stream) :
    (attempts ++ [a]).flatMap Attempt.items =
      attempts.flatMap Attempt.items ++
        .opened a.request.resume.isSome :: a.events.map .event := by
  rw [List.flatMap_append, List.flatMap_singleton, Attempt.items_of_ok ha]

theorem items_refused (attempts : List Attempt) {a : Attempt} {reason : String}
    (ha : a.answer = .error reason) :
    (attempts ++ [a]).flatMap Attempt.items = attempts.flatMap Attempt.items := by
  rw [List.flatMap_append, List.flatMap_singleton, Attempt.items_of_error ha, List.append_nil]

/-- What attempts bring begins with an announcement. -/
theorem announced {attempts : List Attempt} {before after : List Notice} {e : Change}
    (h : attempts.flatMap Attempt.items = before ++ .event e :: after) :
    ∃ resumed, .opened resumed ∈ before := by
  have hhead : ∀ n, (attempts.flatMap Attempt.items).head? = some n →
      ∃ resumed, n = .opened resumed := by
    intro n hn
    rw [List.head?_flatMap] at hn
    obtain ⟨a, -, ha⟩ := List.exists_of_findSome?_eq_some hn
    exact Attempt.head_items ha
  rw [h] at hhead
  cases before with
  | nil =>
    obtain ⟨resumed, hresumed⟩ := hhead (.event e) rfl
    cases hresumed
  | cons n before =>
    obtain ⟨resumed, rfl⟩ := hhead n rfl
    exact ⟨resumed, List.mem_cons_self⟩

/-! ## What a drive keeps -/

namespace Drive

/-- How what was handed over came about. `ending` is what a connection says when it gives up. -/
structure Account (source : Source) (d : Drive) (attempts : List Attempt) (ending : List Notice) :
    Prop where
  asked : d.asked = attempts.map (·.request)
  consecutive : Consecutive source attempts
  /-- The reader gets what the attempts bring, in order, and may get only a part of it. -/
  said : d.items <+: attempts.flatMap Attempt.items ++ ending
  /-- An attempt is made when all that those before it brought was handed over. -/
  sent : attempts.dropLast.flatMap Attempt.items <+: d.items
  /-- The last word is the reason of the last refusal. -/
  ended : ending = [] ∨ ∃ before a reason, attempts = before ++ [a] ∧ a.answer = .error reason ∧
    ending = [.event (.error reason)]

/-- Where a drive stands: about to make another attempt, at work on the last one, about to say that
it gives up, or done. -/
inductive Stage (d : Drive) (attempts : List Attempt) (ending : List Notice) : Prop where
  | opening (ho : d.link.Opens (resumePoint attempts)) (hover : ∀ a ∈ attempts, a.Over)
      (hitems : d.items = attempts.flatMap Attempt.items) (hending : ending = [])
  | running {before : List Attempt} {a : Attempt} (hattempts : attempts = before ++ [a])
      (ha : a.answer = .ok d.stream) (hread : d.read = a.events.length)
      (hover : ∀ b ∈ before, b.Over)
      (hstate : d.link.state = .running (lastVersion (sinceError before ++ a.events)))
      (htask : d.link.task = .following ∧ d.items = attempts.flatMap Attempt.items ∨
        ∃ n, d.link.task = .sending n ∧ d.items ++ [n] = attempts.flatMap Attempt.items)
      (hending : ending = [])
  | failing {n : Notice} (hstate : d.link.state = .failed) (htask : d.link.task = .sending n)
      (hitems : d.items = attempts.flatMap Attempt.items) (hending : ending = [n])
  | done (htask : d.link.task = .done)

/-- What every step keeps. -/
def Kept (source : Source) (d : Drive) : Prop :=
  ∃ attempts ending, Account source d attempts ending ∧ Stage d attempts ending

variable {source : Source} {d : Drive} {attempts : List Attempt} {ending : List Notice}

theorem start_kept (source : Source) (settings : WatchSettings) (selector : Option String) :
    Kept source (start settings selector) := by
  refine ⟨[], [], ⟨rfl, .nothing, List.nil_prefix, List.nil_prefix, Or.inl rfl⟩, ?_⟩
  exact .opening (start_opens settings selector) (by simp) rfl rfl

/-- Once done, a connection hands over nothing more. -/
theorem Account.kept_done (h : Account source d attempts ending) {link : Connection}
    (htask : link.task = .done) : Kept source { d with link } :=
  ⟨attempts, ending, ⟨h.asked, h.consecutive, h.said, h.sent, h.ended⟩, .done htask⟩

/-- One more attempt, before anything came of it. -/
def attempt (source : Source) (attempts : List Attempt) (request : OpenRequest) : Attempt :=
  ⟨request, source attempts.length, []⟩

theorem Account.attempted (h : Account source d attempts []) {request : OpenRequest}
    (hover : ∀ a ∈ attempts, a.Over) (hitems : d.items = attempts.flatMap Attempt.items)
    (hresume : request.resume = resumePoint attempts) {d' : Drive}
    (hasked : d'.asked = d.asked ++ [request]) (hsame : d'.items = d.items) :
    Account source d' (attempts ++ [attempt source attempts request]) [] := by
  refine ⟨?_, ?_, ?_, ?_, Or.inl rfl⟩
  · simp [hasked, h.asked, attempt]
  · refine h.consecutive.another hover hresume rfl ?_
    cases hsource : source attempts.length with
    | ok stream => exact (Attempt.follows_of_ok hsource).mpr (begins_nil stream)
    | error reason => exact (Attempt.follows_of_error hsource).mpr rfl
  · rw [hsame, hitems, List.flatMap_append, List.append_nil]
    exact List.prefix_append _ _
  · exact ⟨[], by rw [List.append_nil, List.dropLast_concat, hsame, hitems]⟩

/-- A session is opened. -/
theorem Account.opened (h : Account source d attempts []) {request : OpenRequest}
    (ho : d.link.Opens (resumePoint attempts)) (hover : ∀ a ∈ attempts, a.Over)
    (hitems : d.items = attempts.flatMap Attempt.items)
    (hresume : request.resume = resumePoint attempts) {stream : Nat → StreamItem}
    (hsource : source attempts.length = .ok stream) (choice : Nat) :
    Kept source
      { d with
        link := d.link.receive .opened choice, asked := d.asked ++ [request], stream
        read := 0 } := by
  obtain ⟨hstate, htask⟩ := receive_opened ho choice
  refine ⟨_, _, h.attempted hover hitems hresume rfl rfl,
    .running rfl hsource rfl hover ?_ (Or.inr ⟨_, htask, ?_⟩) rfl⟩
  · simp [hstate, attempt, resumePoint]
  · rw [items_snoc attempts hsource, ← hitems, attempt, hresume]
    rfl

/-- A refusal brings nothing and leaves the resume point as it was, or makes the connection give
up. -/
theorem Account.refused (h : Account source d attempts []) {request : OpenRequest}
    (ho : d.link.Opens (resumePoint attempts)) (hover : ∀ a ∈ attempts, a.Over)
    (hitems : d.items = attempts.flatMap Attempt.items)
    (hresume : request.resume = resumePoint attempts) {reason : String}
    (hsource : source attempts.length = .error reason) (choice : Nat) :
    Kept source
      { d with
        link := d.link.receive (.refused reason) choice, asked := d.asked ++ [request] } := by
  have haccount : Account source
      { d with
        link := d.link.receive (.refused reason) choice, asked := d.asked ++ [request] }
      (attempts ++ [attempt source attempts request]) [] :=
    h.attempted hover hitems hresume rfl rfl
  have hall : d.items = (attempts ++ [attempt source attempts request]).flatMap Attempt.items := by
    rw [items_refused attempts hsource, hitems]
  have hrest : (attempt source attempts request).rest? = none := Attempt.rest?_of_error hsource
  rcases receive_refused ho reason choice with hagain | ⟨hstate, htask⟩
  · refine ⟨_, _, haccount, .opening ?_ ?_ hall rfl⟩
    · rw [resumePoint_snoc attempts (by simp [Attempt.failed_iff, hrest]), attempt, List.append_nil]
      exact hagain
    · intro b hb e he
      rcases List.mem_append.mp hb with hb | hb
      · exact hover b hb e he
      · rw [List.mem_singleton.mp hb, hrest] at he
        cases he
  · refine ⟨_, [.event (.error reason)], ⟨haccount.asked, haccount.consecutive, ?_,
      haccount.sent, Or.inr ⟨_, _, reason, rfl, hsource, rfl⟩⟩, .failing hstate htask hall rfl⟩
    exact haccount.said.trans (by simp)

/-- The stream of the last attempt brings one more event for the reader. -/
theorem Account.relayed {before : List Attempt} {a : Attempt}
    (h : Account source d (before ++ [a]) []) (ha : a.answer = .ok d.stream)
    (hread : d.read = a.events.length) (hover : ∀ b ∈ before, b.Over)
    (hstate : d.link.state = .running (lastVersion (sinceError before ++ a.events)))
    (htask : d.link.task = .following) (hitems : d.items = (before ++ [a]).flatMap Attempt.items)
    {e : Change} (he : d.stream d.read = .event e) (hk : e.kind ≠ .error) (choice : Nat) :
    Kept source
      { d with link := d.link.receive (.item (.event e)) choice, read := d.read + 1 } := by
  obtain ⟨hstate', htask'⟩ := receive_event hstate htask hk choice
  have hmore : (before ++ [a.more e]).flatMap Attempt.items = d.items ++ [.event e] := by
    simp [hitems, List.flatMap_append, Attempt.items_more ha]
  refine ⟨_, [], ⟨?_, h.consecutive.grow ha (hread ▸ he) hk, ?_, ?_, Or.inl rfl⟩,
    .running rfl ha ?_ hover ?_ (Or.inr ⟨_, htask', hmore.symm⟩) rfl⟩
  · simp [h.asked]
  · rw [hmore, List.append_nil]
    exact List.prefix_append _ _
  · have hsent := h.sent
    rw [List.dropLast_concat] at hsent ⊢
    exact hsent
  · simp [hread]
  · rw [hstate', ← lastVersion_snoc, List.append_assoc, Attempt.events_more]

/-- The last attempt is over, and the next one asks from the point that it left. -/
theorem Account.over {before : List Attempt} {a : Attempt}
    (h : Account source d (before ++ [a]) []) (ha : a.Over) (hover : ∀ b ∈ before, b.Over)
    (hitems : d.items = (before ++ [a]).flatMap Attempt.items) {link : Connection} {read : Nat}
    (ho : link.Opens (resumePoint (before ++ [a]))) : Kept source { d with link, read } := by
  refine ⟨_, _, ⟨h.asked, h.consecutive, h.said, h.sent, h.ended⟩, .opening ho ?_ hitems rfl⟩
  intro b hb
  rcases List.mem_append.mp hb with hb | hb
  · exact hover b hb
  · exact List.mem_singleton.mp hb ▸ ha

/-- The stream of the last attempt yields an item. -/
theorem Account.read {before : List Attempt} {a : Attempt}
    (h : Account source d (before ++ [a]) []) (ha : a.answer = .ok d.stream)
    (hread : d.read = a.events.length) (hover : ∀ b ∈ before, b.Over)
    (hstate : d.link.state = .running (lastVersion (sinceError before ++ a.events)))
    (htask : d.link.task = .following) (hitems : d.items = (before ++ [a]).flatMap Attempt.items)
    (choice : Nat) :
    Kept source
      { d with
        link := d.link.receive (.item (d.stream d.read)) choice, read := d.read + 1 } := by
  have hrest : a.rest? = some (d.stream d.read) := by rw [Attempt.rest?_of_ok ha, hread]
  by_cases hevent : ∃ e, d.stream d.read = .event e
  · obtain ⟨e, he⟩ := hevent
    rw [he] at hrest ⊢
    by_cases hk : e.kind = .error
    · have hfailed : a.failed = true := Attempt.failed_iff.mpr ⟨e, hrest, hk⟩
      refine h.over ?_ hover hitems ?_
      · intro f hf
        rw [hrest] at hf
        cases hf
        exact hk
      · rw [resumePoint_failed before hfailed]
        exact receive_error hstate htask hk choice
    · exact h.relayed ha hread hover hstate htask hitems he hk choice
  · have hne : ∀ e, d.stream d.read ≠ .event e := fun e he => hevent ⟨e, he⟩
    have hnone : ∀ e, a.rest? ≠ some (.event e) := by
      intro e he
      rw [hrest] at he
      exact hne e (Option.some.inj he)
    have hfailed : ¬ a.failed = true := by
      rw [Attempt.failed_iff]
      rintro ⟨e, he, -⟩
      exact hnone e he
    refine h.over (fun e he => absurd he (hnone e)) hover hitems ?_
    rw [resumePoint_snoc before hfailed]
    exact receive_closed hstate htask hne choice

namespace Kept

theorem proceed (h : Kept source d) (choice : Nat) : Kept source (d.proceed source choice) := by
  obtain ⟨attempts, ending, haccount, hstage⟩ := h
  unfold Drive.proceed
  cases hstage with
  | opening ho hover hitems hending =>
    subst hending
    obtain ⟨-, pause, request, htask, hresume⟩ := id ho
    have hlength : d.asked.length = attempts.length := by rw [haccount.asked, List.length_map]
    rw [htask, hlength]
    cases hsource : source attempts.length with
    | ok stream => exact haccount.opened ho hover hitems hresume hsource choice
    | error reason => exact haccount.refused ho hover hitems hresume hsource choice
  | @running before a hattempts ha hread hover hstate htask hending =>
    subst hattempts hending
    rcases htask with ⟨htask, hitems⟩ | ⟨n, htask, hitems⟩
    · rw [htask]
      exact haccount.read ha hread hover hstate htask hitems choice
    · obtain ⟨hstate', htask'⟩ := proceed_running hstate choice
      rw [htask, receive_sent htask]
      refine ⟨_, [], ⟨haccount.asked, haccount.consecutive, ?_, ?_, haccount.ended⟩,
        .running rfl ha hread hover hstate' (Or.inl ⟨htask', hitems⟩) rfl⟩
      · simp [hitems]
      · exact haccount.sent.trans (List.prefix_append _ _)
  | @failing n hstate htask hitems hending =>
    subst hending
    rw [htask, receive_sent htask]
    refine ⟨attempts, _, ⟨haccount.asked, haccount.consecutive, ?_, ?_, haccount.ended⟩,
      .done (proceed_terminal (by rw [hstate]; rfl) choice)⟩
    · simp [hitems]
    · exact haccount.sent.trans (List.prefix_append _ _)
  | done htask =>
    rw [htask]
    exact ⟨attempts, ending, haccount, .done htask⟩

theorem abandon (h : Kept source d) (choice : Nat) :
    Kept source { d with link := d.link.receive .abandoned choice } := by
  obtain ⟨attempts, ending, haccount, hstage⟩ := id h
  by_cases hsending : ∃ n, d.link.task = .sending n
  · obtain ⟨n, htask⟩ := hsending
    exact haccount.kept_done (receive_abandoned htask choice)
  · rw [receive_abandoned_idle fun n hn => hsending ⟨n, hn⟩]
    exact h

theorem step (h : Kept source d) (m : Move) : Kept source (d.step source m) := by
  cases m with
  | go choice => exact h.proceed choice
  | cancel choice =>
    obtain ⟨attempts, ending, haccount, -⟩ := h
    exact haccount.kept_done (receive_cancelled d.link choice)
  | abandon choice => exact h.abandon choice

theorem run (h : Kept source d) (moves : List Move) : Kept source (d.run source moves) := by
  induction moves generalizing d with
  | nil => exact h
  | cons m moves ih => exact ih (h.step m)

end Kept

/-- The request that is due asks from the point that the attempts left, after all that they brought
was handed over. -/
theorem Stage.due (hstage : Stage d attempts ending) {pause : Span} {request : OpenRequest}
    (htask : d.link.task = .opening pause request) :
    (∀ a ∈ attempts, a.Over) ∧ d.items = attempts.flatMap Attempt.items ∧
      request.resume = resumePoint attempts := by
  cases hstage with
  | opening ho hover hitems _ =>
    obtain ⟨-, pause', request', htask', hresume⟩ := ho
    rw [htask] at htask'
    cases htask'
    exact ⟨hover, hitems, hresume⟩
  | running _ _ _ _ _ htask' _ =>
    rcases htask' with ⟨htask', -⟩ | ⟨n, htask', -⟩ <;> simp [htask] at htask'
  | failing _ htask' _ _ => simp [htask] at htask'
  | done htask' => simp [htask] at htask'

/-- An event that is handed over was brought by a session, or is the last item and gives the reason
of the last refusal. -/
theorem Account.brought_or_last (h : Account source d attempts ending)
    {before after : List Notice} {e : Change} (hitems : d.items = before ++ .event e :: after) :
    (∃ rest, attempts.flatMap Attempt.items = before ++ .event e :: rest) ∨
      after = [] ∧ ∃ n reason, d.asked.length = n + 1 ∧ source n = .error reason ∧
        e = .error reason := by
  obtain ⟨rest, hall⟩ := h.said
  rw [hitems, List.append_assoc, List.cons_append] at hall
  have hlast : ∀ left, ending = left ++ .event e :: (after ++ rest) →
      after = [] ∧ ∃ n reason, d.asked.length = n + 1 ∧ source n = .error reason ∧
        e = .error reason := by
    intro left hleft
    rcases h.ended with hnil | ⟨attempts', a, reason, rfl, ha, hending⟩
    · simp [hnil] at hleft
    · rw [hending] at hleft
      have hlength := congrArg List.length hleft
      simp only [List.length_append, List.length_cons, List.length_nil] at hlength
      have hnothing : left = [] ∧ after = [] ∧ rest = [] := by
        refine ⟨?_, ?_, ?_⟩ <;> exact List.eq_nil_of_length_eq_zero (by omega)
      obtain ⟨rfl, rfl, rfl⟩ := hnothing
      obtain ⟨hnotice, -⟩ := List.cons.inj hleft
      cases hnotice
      refine ⟨rfl, attempts'.length, reason, ?_, ?_, rfl⟩
      · simp [h.asked]
      · have hanswer : a.answer = source attempts'.length := h.consecutive.answer (by simp)
        rw [← hanswer, ha]
  rcases List.append_eq_append_iff.mp hall with ⟨left, hbrought, hleft⟩ | ⟨left, -, hleft⟩
  · cases left with
    | nil => exact Or.inr (hlast [] hleft.symm)
    | cons n left =>
      obtain ⟨rfl, -⟩ := List.cons.inj hleft
      exact Or.inl ⟨left, hbrought⟩
  · exact Or.inr (hlast left hleft)

theorem Account.brought (h : Account source d attempts ending) {before after : List Notice}
    {e : Change} (hitems : d.items = before ++ .event e :: after) (he : e.kind ≠ .error) :
    ∃ rest, attempts.flatMap Attempt.items = before ++ .event e :: rest := by
  rcases h.brought_or_last hitems with hbrought | ⟨-, n, reason, -, -, rfl⟩
  · exact hbrought
  · exact absurd rfl he

/-- The grammar of what a connection hands over, for every source and after any moves. -/
theorem output_grammar (source : Source) (settings : WatchSettings) (selector : Option String)
    (moves : List Move) :
    let d := (start settings selector).run source moves
    ∃ attempts ending,
      Account source d attempts ending ∧
      (∀ pause request, d.link.task = .opening pause request →
        (∀ a ∈ attempts, a.Over) ∧ d.items = attempts.flatMap Attempt.items ∧
          request.resume = resumePoint attempts) ∧
      ∀ before e after, d.items = before ++ .event e :: after →
        (e.kind ≠ .error ∧ ∃ resumed, .opened resumed ∈ before) ∨
          after = [] ∧ ∃ n reason, d.asked.length = n + 1 ∧ source n = .error reason ∧
            e = .error reason := by
  obtain ⟨attempts, ending, haccount, hstage⟩ := (start_kept source settings selector).run moves
  refine ⟨attempts, ending, haccount, fun _ _ => hstage.due, ?_⟩
  intro before e after hitems
  rcases haccount.brought_or_last hitems with ⟨rest, hbrought⟩ | hlast
  · exact Or.inl ⟨haccount.consecutive.kind_ne_error (by simp [hbrought]), announced hbrought⟩
  · exact Or.inr hlast

end Drive

end SharedWatch.Connection
