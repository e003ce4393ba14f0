import SharedWatch.Proofs.Output
import SharedWatch.Proofs.Server

/-!
What a connection has handed over of what exists on its server.

The server keeps its promises: a request without a resume point replays a state, one with a resume
point goes on from it, and a bookmark comes after everything up to it (`Session.Serves`).

Main statement: `resume_covers`. At every bookmark that is handed over, everything that exists at
its version was handed over since the last session that started over; so it was at every resume
point that is asked from. For that, a session that starts over may not be cut within its replay: the
connection then goes on from the version of the last replayed object, and never sees what the replay
had still to bring (`half_replay_skips`). Cut right after the replay it goes on from there too, and
what existed at that version must not have been changed before the state that was replayed
(`Session.Uncut`, `whole_replay_skips`).
-/

namespace SharedWatch

namespace History
variable {h : History} {p q : Nat}

/-- Whether the changes after one version up to another are of resources that did not exist at the
first one. -/
def Steady (h : History) (p q : Nat) : Prop :=
  ∀ e ∈ h.changes, p < e.number → e.number ≤ q → h.state p e.resource = none

theorem Steady.state (hs : h.Steady p q) (hle : p ≤ q) {x : ResourceName} {r : Record}
    (hx : h.state p x = some r) : h.state q x = some r := by
  have hsame : reportsOf x (h.upTo q) = reportsOf x (h.upTo p) := by
    unfold reportsOf upTo
    rw [List.filter_filter, List.filter_filter]
    refine List.filter_congr fun e he => ?_
    by_cases hex : e.resource = x
    · subst hex
      have hnumber : e.number ≤ q ↔ e.number ≤ p := by
        refine ⟨fun hq => ?_, fun hp => Nat.le_trans hp hle⟩
        by_contra hp
        rw [hs e he (by omega) hq] at hx
        cases hx
      rw [decide_eq_decide.mpr hnumber]
    · simp [hex]
  unfold History.state at hx ⊢
  rw [view_eq, latest] at hx ⊢
  rwa [hsame]

/-- What exists has the version of a change, no later than when it exists. -/
theorem counted_of_state {x : ResourceName} {r : Record} (hx : h.state p x = some r) :
    counter? r.version = some (Change.ofRecord .added r).number ∧
      (Change.ofRecord .added r).number ≤ p := by
  obtain ⟨e, he, hle, -, hobject, -, -⟩ := exists_change hx
  obtain ⟨n, hn⟩ := h.counted e he
  have hnumber : e.number = n := Change.number_eq hn
  have hversion : e.version = r.version := by rw [h.carried e he, hobject]
  rw [hversion] at hn
  have hcounter : counter? (Change.ofRecord .added r).version = some n := hn
  rw [Change.number_eq hcounter]
  exact ⟨hcounter, hnumber ▸ hle⟩

end History

/-! ## Sessions from their beginning -/

namespace Session

/-- The session that a request opens. -/
inductive Answers (h : History) (request : OpenRequest) : Session → Prop where
  | fresh (p : Nat) (records : List Record) (hresume : request.resume = none)
      (hl : h.Lists p records) : Answers h request ⟨records, p, false⟩
  | resumed (r : String) (hresume : request.resume = some r) :
      Answers h request ⟨[], (counter? r).getD 0, true⟩

/-- What a session sends, one event after another. -/
inductive SendsAll (h : History) (s : Session) : List Change → Session → Prop where
  | nothing : SendsAll h s [] s
  | more {events : List Change} {s' s'' : Session} {e : Change} (before : SendsAll h s events s')
      (he : s'.Sends h e s'') : SendsAll h s (events ++ [e]) s''

/-- Whether a stream is what a session sends in answer to a request, up to the first error or
break. -/
structure Serves (h : History) (s : Session) (request : OpenRequest) (stream : Nat → StreamItem) :
    Prop where
  answers : s.Answers h request
  sends : ∀ events, Connection.Begins stream events → ∃ s', s.SendsAll h events s'

/-- Whether a stream that closes or breaks does so before the first object of the replay, after
something later than the replay, or right after the replay, if what existed at the version of the
last object was not changed before the state that was replayed. -/
def Uncut (h : History) (s : Session) (stream : Nat → StreamItem) : Prop :=
  ∀ events, Connection.Begins stream events → (∀ e, stream events.length ≠ .event e) →
    events = [] ∨ s.waiting.length < events.length ∨
      s.waiting.length = events.length ∧ ∀ e ∈ events.getLast?, h.Steady e.number s.position

/-- Whether everything that exists at a session's position is still to be replayed or was
reported. -/
def Holds (h : History) (past : List Change) (s : Session) : Prop :=
  ∀ x r, h.state s.position x = some r →
    r ∈ s.waiting ∨ ∃ e ∈ past, e.isReport = true ∧ e.outcome = some r

variable {h : History} {s s' : Session} {events past : List Change} {e : Change}

theorem SendsAll.of_snoc (hs : s.SendsAll h (events ++ [e]) s') :
    ∃ t, s.SendsAll h events t ∧ t.Sends h e s' := by
  generalize hall : events ++ [e] = all at hs
  cases hs with
  | nothing => simp at hall
  | more before he =>
    obtain ⟨rfl, heq⟩ := List.append_inj' hall rfl
    cases heq
    exact ⟨_, before, he⟩

theorem SendsAll.waiting (hs : s.SendsAll h events s') :
    s'.waiting = s.waiting.drop events.length := by
  induction hs with
  | nothing => rfl
  | @more events t s'' e before he ih =>
    rw [List.length_append, List.length_singleton, ← List.drop_drop, ← ih]
    cases he <;> rfl

/-- No more events than the replay has objects are the first objects of the replay. -/
theorem SendsAll.replayed (hs : s.SendsAll h events s')
    (hshort : events.length ≤ s.waiting.length) :
    events = (s.waiting.take events.length).map (.ofRecord .added) ∧ s'.position = s.position := by
  induction hs with
  | nothing => exact ⟨by simp, rfl⟩
  | @more events t s'' e before he ih =>
    rw [List.length_append, List.length_singleton] at hshort
    obtain ⟨hevents, hposition⟩ := ih (by omega)
    have hwaiting := before.waiting
    cases he with
    | replay r rest p settled =>
      have hnext : s.waiting[events.length]? = some r := by
        rw [← List.head?_drop, ← hwaiting, List.head?_cons]
      refine ⟨?_, hposition⟩
      rw [List.length_append, List.length_singleton, List.take_add_one, hnext, List.map_append,
        ← hevents]
      rfl
    | change _ _ _ _ =>
      have hdone := List.drop_eq_nil_iff.mp hwaiting.symm
      omega
    | bookmark _ _ _ _ _ _ _ =>
      have hdone := List.drop_eq_nil_iff.mp hwaiting.symm
      omega

/-- A replayed object has the version of a change, no later than the session's position. -/
theorem Answers.counted_of_replayed {request : OpenRequest} (ha : s.Answers h request) {n : Nat}
    (he : e ∈ (s.waiting.take n).map (Change.ofRecord .added)) :
    counter? e.version = some e.number ∧ e.number ≤ s.position := by
  obtain ⟨r, hr, rfl⟩ := List.mem_map.mp he
  replace hr := List.mem_of_mem_take hr
  cases ha with
  | fresh p records hresume hl => exact History.counted_of_state ((hl.2 r).mp hr)
  | resumed _ _ => cases hr

/-- After the replay the version of each event is the new position. -/
theorem Sends.position (hs : s.Sends h e s') (hw : s.waiting = []) :
    counter? e.version = some s'.position ∧ s'.waiting = [] := by
  cases hs with
  | replay r rest p settled => cases hw
  | change e p settled hn =>
    obtain ⟨n, hn⟩ := h.counted e hn.mem
    exact ⟨by rw [hn, Change.number_eq hn], rfl⟩
  | bookmark e p v settled he hv hl => exact ⟨hv, rfl⟩

/-- A bookmark is sent after the replay, and no change lies between it and the position. -/
theorem Sends.of_bookmark (hs : s.Sends h e s') (he : e.kind = .bookmark) :
    s.waiting = [] ∧ ∃ v, counter? e.version = some v ∧ h.Level s.position v := by
  cases hs with
  | replay r rest p settled => cases he
  | change e p settled hn =>
    have hreport := h.reports e hn.mem
    simp [Change.isReport, he] at hreport
  | bookmark e p v settled _ hv hl => exact ⟨rfl, v, hv, hl⟩

theorem SendsAll.counted (hs : s.SendsAll h (events ++ [e]) s')
    (hlong : s.waiting.length < (events ++ [e]).length) :
    counter? e.version = some s'.position ∧ s'.waiting = [] := by
  obtain ⟨t, hbefore, he⟩ := hs.of_snoc
  refine he.position ?_
  rw [hbefore.waiting, List.drop_eq_nil_iff]
  simp only [List.length_append, List.length_singleton] at hlong
  omega

/-- A replayed object is reported, and so is a change. -/
theorem Holds.sends (hh : Holds h past s) (hs : s.Sends h e s') : Holds h (past ++ [e]) s' := by
  intro x r hx
  -- what was reported before stays reported
  have hold : (∃ f ∈ past, f.isReport = true ∧ f.outcome = some r) →
      ∃ f ∈ past ++ [e], f.isReport = true ∧ f.outcome = some r := by
    rintro ⟨f, hf, hr⟩
    exact ⟨f, List.mem_append_left _ hf, hr⟩
  cases hs with
  | replay q rest p settled =>
    rcases hh x r hx with hwaiting | hpast
    · rcases List.mem_cons.mp hwaiting with rfl | hrest
      · exact Or.inr ⟨_, List.mem_append_right _ List.mem_cons_self, rfl, rfl⟩
      · exact Or.inl hrest
    · exact Or.inr (hold hpast)
  | change e p settled hn =>
    right
    rw [History.state_next hn] at hx
    split at hx
    · exact ⟨e, by simp, h.reports e hn.mem, hx⟩
    · rcases hh x r hx with hwaiting | hpast
      · cases hwaiting
      · exact hold hpast
  | bookmark e p v settled he hv hl =>
    right
    rcases hh x r (by rw [← hx, History.state_level hl]) with hwaiting | hpast
    · cases hwaiting
    · exact hold hpast

theorem Holds.sendsAll (hh : Holds h past s) (hs : s.SendsAll h events s') :
    Holds h (past ++ events) s' := by
  induction hs with
  | nothing => simpa using hh
  | more _ he ih =>
    rw [← List.append_assoc]
    exact ih.sends he

end Session

/-! ## Since the last session that started over -/

/-- Whether a notice announces a session that starts over. -/
def Notice.restarts : Notice → Bool
  | .opened false => true
  | _ => false

/-- The events since the last session that started over. -/
def sinceReplay (notices : List Notice) : List Change := noticed (notices.rtakeWhile (!·.restarts))

theorem sinceReplay_opened (notices : List Notice) (resumed : Bool) :
    sinceReplay (notices ++ [.opened resumed]) = if resumed then sinceReplay notices else [] := by
  unfold sinceReplay
  cases resumed <;> simp [Notice.restarts]

theorem sinceReplay_event (notices : List Notice) (e : Change) :
    sinceReplay (notices ++ [.event e]) = sinceReplay notices ++ [e] := by
  unfold sinceReplay
  simp [Notice.restarts]

theorem sinceReplay_events (notices : List Notice) (events : List Change) :
    sinceReplay (notices ++ events.map .event) = sinceReplay notices ++ events := by
  induction events using List.reverseRecOn with
  | nil => simp
  | append_singleton events e ih =>
    rw [List.map_append, List.map_singleton, ← List.append_assoc, sinceReplay_event, ih,
      List.append_assoc]

/-- Whether everything that exists after the changes up to a version was reported. -/
def History.Covered (h : History) (v : Nat) (events : List Change) : Prop :=
  ∀ x r, h.state v x = some r → ∃ e ∈ events, e.isReport = true ∧ e.outcome = some r

theorem Session.Holds.covered {h : History} {past : List Change} {s : Session}
    (hh : Session.Holds h past s) (hw : s.waiting = []) : h.Covered s.position past := by
  intro x r hx
  rcases hh x r hx with hwaiting | hpast
  · rw [hw] at hwaiting
    cases hwaiting
  · exact hpast

namespace Connection

/-- Whether an attempt that was answered got the stream of a session, and an uncut one. -/
def Attempt.Served (h : History) (a : Attempt) : Prop :=
  ∀ stream, a.answer = .ok stream → ∃ s : Session, s.Serves h a.request stream ∧ s.Uncut h stream

variable {h : History} {source : Source} {attempts : List Attempt} {a : Attempt}
  {stream : Nat → StreamItem}

theorem lastVersion_counted (events : List Change) {e : Change} {n : Nat}
    (he : counter? e.version = some n) : lastVersion (events ++ [e]) = some e.version := by
  rw [lastVersion_snoc]
  refine if_neg ?_
  intro hv
  rw [hv] at he
  cases he

/-- If the resume point that attempts left is covered, then so is what a session that is opened from
it does not replay. -/
theorem Consecutive.holds (hc : Consecutive source (attempts ++ [a]))
    (hpoint : ∀ r, resumePoint attempts = some r →
      ∃ q, counter? r = some q ∧ h.Covered q (sinceReplay (attempts.flatMap Attempt.items)))
    {s : Session} (hs : s.Answers h a.request) :
    s.Holds h
      (sinceReplay (attempts.flatMap Attempt.items ++ [.opened a.request.resume.isSome])) := by
  obtain ⟨-, -, hresume, -, -⟩ := hc.of_snoc
  rw [sinceReplay_opened]
  cases hs with
  | fresh p records hnone hl =>
    intro x r hx
    refine Or.inl ((hl.2 r).mpr ?_)
    rw [History.resource_of_state hx]
    exact hx
  | resumed r hsome =>
    obtain ⟨q, hq, hcovered⟩ := hpoint r (hresume ▸ hsome)
    intro x t hx
    rw [hsome]
    exact Or.inr (hcovered x t (by simpa [hq] using hx))

/-- The point that attempts leave, once they are over, is covered. -/
theorem Consecutive.covered (hc : Consecutive source attempts)
    (hserved : ∀ a ∈ attempts, a.Served h) (hover : ∀ a ∈ attempts, a.Over) (r : String)
    (hr : resumePoint attempts = some r) :
    ∃ q, counter? r = some q ∧ h.Covered q (sinceReplay (attempts.flatMap Attempt.items)) := by
  induction hc generalizing r with
  | nothing => cases hr
  | @another attempts a before hbefore hresume hanswer hfollows ih =>
    have hpoint := ih (fun b hb => hserved b (by simp [hb])) hbefore
    have hc := before.another hbefore hresume hanswer hfollows
    have hfailed : ¬ a.failed = true := by
      intro hf
      rw [resumePoint_failed attempts hf] at hr
      cases hr
    rw [resumePoint_snoc attempts hfailed] at hr
    cases ha : a.answer with
    | error reason =>
      rw [(Attempt.follows_of_error ha).mp hfollows, List.append_nil] at hr
      rw [items_refused attempts ha]
      exact hpoint r hr
    | ok stream =>
      obtain ⟨s, hs, huncut⟩ := hserved a (by simp) stream ha
      have hbegins := (Attempt.follows_of_ok ha).mp hfollows
      -- an event after the last one would have been for the reader, or an error
      have hend : ∀ e, stream a.events.length ≠ .event e := by
        intro e he
        have hrest : a.rest? = some (.event e) := by rw [Attempt.rest?_of_ok ha, he]
        exact hfailed (Attempt.failed_iff.mpr ⟨e, hrest, hover a (by simp) e hrest⟩)
      have hholds := hc.holds hpoint hs.answers
      rw [items_snoc attempts ha, List.append_cons, sinceReplay_events]
      obtain ⟨s', hsent⟩ := hs.sends a.events hbegins
      rcases List.eq_nil_or_concat a.events with hnil | ⟨events, e, hevents⟩
      · -- nothing was sent, so the session was resumed and the point is the one it began with
        rw [hnil, List.append_nil] at hr ⊢
        have hresumed : a.request.resume.isSome = true := by
          rw [hresume, resumePoint, hr]
          rfl
        rw [sinceReplay_opened, if_pos hresumed]
        exact hpoint r hr
      · rw [List.concat_eq_append] at hevents
        have hlast : a.events.getLast? = some e := by rw [hevents, List.getLast?_concat]
        rcases huncut a.events hbegins hend with hnil | hlong | ⟨hwhole, hsteady⟩
        · simp [hevents] at hnil
        · rw [hevents] at hsent hlong hr ⊢
          obtain ⟨hcounted, hw⟩ := hsent.counted hlong
          rw [← List.append_assoc, lastVersion_counted _ hcounted] at hr
          cases hr
          exact ⟨s'.position, hcounted, (hholds.sendsAll hsent).covered hw⟩
        · -- the point is the version of the last object of the replay
          obtain ⟨hreplayed, hposition⟩ := hsent.replayed (Nat.le_of_eq hwhole.symm)
          have hw : s'.waiting = [] := by
            rw [hsent.waiting, List.drop_eq_nil_iff]
            exact Nat.le_of_eq hwhole
          obtain ⟨hq, hle⟩ := hs.answers.counted_of_replayed
            (hreplayed ▸ List.mem_of_getLast? hlast)
          rw [hevents, ← List.append_assoc, lastVersion_counted _ hq] at hr
          cases hr
          refine ⟨e.number, hq, fun x t hx => ?_⟩
          refine (hholds.sendsAll hsent).covered hw x t ?_
          rw [hposition]
          exact (hsteady e hlast).state hle hx

/-- A bookmark among the events of the last attempt came after the replay, so everything that exists
at its version is covered. -/
theorem Consecutive.marked (hc : Consecutive source (attempts ++ [a]))
    (hpoint : ∀ r, resumePoint attempts = some r →
      ∃ q, counter? r = some q ∧ h.Covered q (sinceReplay (attempts.flatMap Attempt.items)))
    (ha : a.answer = .ok stream) {s : Session} (hs : s.Serves h a.request stream)
    {events later : List Change} {b : Change} (hevents : a.events = events ++ b :: later)
    (hb : b.kind = .bookmark) :
    ∃ v, counter? b.version = some v ∧ h.Covered v (sinceReplay
      (attempts.flatMap Attempt.items ++
        .opened a.request.resume.isSome :: events.map .event)) := by
  obtain ⟨-, -, -, -, hfollows⟩ := hc.of_snoc
  have hbegins := (Attempt.follows_of_ok ha).mp hfollows
  rw [hevents, List.append_cons] at hbegins
  obtain ⟨s', hsent⟩ := hs.sends _ hbegins.of_append
  obtain ⟨t, hbefore, hmark⟩ := hsent.of_snoc
  obtain ⟨hw, v, hv, hl⟩ := hmark.of_bookmark hb
  have hholds := (hc.holds hpoint hs.answers).sendsAll hbefore
  refine ⟨v, hv, ?_⟩
  rw [List.append_cons, sinceReplay_events]
  intro x r hx
  exact hholds.covered hw x r (by rw [History.state_level hl, hx])

/-- At a bookmark everything that exists at its version is covered. -/
theorem Consecutive.bookmark_covered (hc : Consecutive source attempts)
    (hserved : ∀ a ∈ attempts, a.Served h) {before rest : List Notice} {b : Change}
    (hitems : attempts.flatMap Attempt.items = before ++ .event b :: rest)
    (hb : b.kind = .bookmark) :
    ∃ v, counter? b.version = some v ∧ h.Covered v (sinceReplay before) := by
  induction hc generalizing rest with
  | nothing => simp at hitems
  | @another attempts a hbefore hover hresume hanswer hfollows ih =>
    have hold : ∀ b ∈ attempts, b.Served h := fun b hb => hserved b (by simp [hb])
    have hc := hbefore.another hover hresume hanswer hfollows
    cases ha : a.answer with
    | error reason =>
      rw [items_refused attempts ha] at hitems
      exact ih hold hitems
    | ok stream =>
      rw [items_snoc attempts ha] at hitems
      -- the bookmark is from an earlier attempt or from the last one; no announcement is one
      rcases List.append_eq_append_iff.mp hitems with
        ⟨_ | ⟨n, left⟩, hleft, hright⟩ | ⟨_ | ⟨n, left⟩, hleft, hright⟩
      · cases hright
      · rw [List.cons_append] at hright
        obtain ⟨rfl, hmap⟩ := List.cons.inj hright
        obtain ⟨events, later, hevents, rfl, hlater⟩ := List.map_eq_append_iff.mp hmap
        obtain ⟨e, later, rfl, he, -⟩ := List.map_eq_cons_iff.mp hlater
        cases he
        obtain ⟨s, hs, -⟩ := hserved a (by simp) stream ha
        rw [hleft]
        exact hc.marked (hbefore.covered hold hover) ha hs hevents hb
      · cases hright
      · obtain ⟨rfl, -⟩ := List.cons.inj hright
        exact ih hold hleft

namespace Drive
variable {d : Drive} {ending : List Notice}

/-- The attempts of a drive are served if the requests that were asked are. -/
theorem Account.served (haccount : Account source d attempts ending)
    (hserved : ∀ n request stream, d.asked[n]? = some request → source n = .ok stream →
      ∃ s : Session, s.Serves h request stream ∧ s.Uncut h stream) :
    ∀ a ∈ attempts, a.Served h := by
  intro a ha stream hstream
  obtain ⟨n, hn⟩ := List.getElem?_of_mem ha
  refine hserved n a.request stream ?_ ?_
  · rw [haccount.asked, List.getElem?_map, hn]
    rfl
  · rw [← haccount.consecutive.answer hn, hstream]

/-- Resuming skips nothing. At every bookmark that is handed over, everything that exists on the
server at its version was reported since the last session that started over; at every resume point
that is asked from, everything that exists at the point was. -/
theorem resume_covers (h : History) (source : Source) (settings : WatchSettings)
    (selector : Option String) (moves : List Move) {d : Drive}
    (hd : (start settings selector).run source moves = d)
    (hserved : ∀ n request stream, d.asked[n]? = some request → source n = .ok stream →
      ∃ s : Session, s.Serves h request stream ∧ s.Uncut h stream) :
    (∀ before b after, d.items = before ++ .event b :: after → b.kind = .bookmark →
      ∃ v, counter? b.version = some v ∧ h.Covered v (sinceReplay before)) ∧
    ∀ pause request r, d.link.task = .opening pause request → request.resume = some r →
      ∃ q, counter? r = some q ∧ h.Covered q (sinceReplay d.items) := by
  obtain ⟨attempts, ending, haccount, hstage⟩ :=
    hd ▸ (start_kept source settings selector).run moves
  have hattempts := haccount.served hserved
  constructor
  · intro before b after hitems hb
    obtain ⟨rest, hall⟩ := haccount.brought hitems (by rw [hb]; decide)
    exact haccount.consecutive.bookmark_covered hattempts hall hb
  · intro pause request r htask hr
    obtain ⟨hover, hitems, hresume⟩ := hstage.due htask
    rw [hitems]
    exact haccount.consecutive.covered hattempts hover r (hresume ▸ hr)

end Drive

end Connection

/-! ## Sessions that are played to an end -/

/-- A stream that ends after some events. -/
def play (events : List Change) (i : Nat) : StreamItem :=
  match events[i]? with
  | some e => .event e
  | none => .ended

theorem play_event {events : List Change} {i : Nat} {e : Change} (h : play events i = .event e) :
    events[i]? = some e := by
  unfold play at h
  cases hi : events[i]? with
  | none =>
    rw [hi] at h
    cases h
  | some f =>
    rw [hi] at h
    cases h
    rfl

theorem Connection.Begins.of_play {all events : List Change}
    (h : Connection.Begins (play all) events) : events <+: all := by
  rw [List.prefix_iff_getElem?]
  intro i hi
  exact play_event (h i events[i] (List.getElem?_eq_getElem hi)).1

namespace Session
variable {h : History} {s s' : Session} {events more : List Change} {request : OpenRequest}

theorem SendsAll.of_append (hs : s.SendsAll h (events ++ more) s') :
    ∃ t, s.SendsAll h events t := by
  induction more using List.reverseRecOn generalizing s' with
  | nil => exact ⟨s', by simpa using hs⟩
  | append_singleton more e ih =>
    rw [← List.append_assoc] at hs
    obtain ⟨t, hbefore, -⟩ := hs.of_snoc
    exact ih hbefore

theorem serves_play (ha : s.Answers h request) (hs : s.SendsAll h events s') :
    s.Serves h request (play events) := by
  refine ⟨ha, fun begun hbegun => ?_⟩
  obtain ⟨more, rfl⟩ := hbegun.of_play
  exact hs.of_append

/-- A stream that ends after more events than the replay has objects is not cut. -/
theorem uncut_play (hlong : s.waiting.length < events.length) : s.Uncut h (play events) := by
  intro begun hbegun hend
  obtain ⟨more, rfl⟩ := hbegun.of_play
  cases more with
  | nil => exact Or.inr (Or.inl (by simpa using hlong))
  | cons e more => exact absurd (by simp [play]) (hend e)

end Session

/-- Two objects are made, one after the other. -/
def twoObjects : History where
  changes :=
    [.ofRecord .added { Record.empty with name := "a", version := "3" },
      .ofRecord .added { Record.empty with name := "b", version := "7" }]
  reports := by decide
  carried := by decide
  counted := by
    intro e he
    rw [← Option.isSome_iff_exists]
    revert e
    decide
  ascending := by decide

namespace Connection.Drive

/-- A source that plays sessions, and then refuses. -/
def playAll (sessions : List (List Change)) : Source := fun n =>
  match sessions[n]? with
  | some events => .ok (play events)
  | none => .error "gone"

/-- A connection to a source that plays sessions, after some tasks went well. -/
def played (sessions : List (List Change)) (tasks : Nat) : Drive :=
  (start .standard none).run (playAll sessions) (.replicate tasks (.go 0))

/-- The first session replays both objects, the newer one first, and sends a bookmark; the second
one goes on from there. -/
def wholeReplay : List (List Change) :=
  let a : Record := { Record.empty with name := "a", version := "3" }
  let b : Record := { Record.empty with name := "b", version := "7" }
  [[.ofRecord .added b, .ofRecord .added a, .bookmark "7"], [.bookmark "8"]]

/-- The first session is closed when it has replayed the newer object. -/
def halfReplay : List (List Change) :=
  let b : Record := { Record.empty with name := "b", version := "7" }
  [[.ofRecord .added b], [.bookmark "8"]]

theorem resume_of_asked {d : Drive} {resumes : List (Option String)} {n : Nat}
    {request : OpenRequest} (hasked : d.asked.map (·.resume) = resumes)
    (hn : d.asked[n]? = some request) : resumes[n]? = some request.resume := by
  rw [← hasked, List.getElem?_map, hn]
  rfl

/-- A session that goes on from a version with no change between it and a bookmark. -/
theorem serves_resumed {h : History} {request : OpenRequest} {r : String} {b : Change} {v : Nat}
    (hresume : request.resume = some r) (hb : b.kind = .bookmark)
    (hv : counter? b.version = some v) (hl : h.Level ((counter? r).getD 0) v) :
    Session.Serves h ⟨[], (counter? r).getD 0, true⟩ request (play [b]) := by
  have hmark : Session.Sends h ⟨[], (counter? r).getD 0, true⟩ b ⟨[], v, true⟩ :=
    .bookmark _ _ v true hb hv hl
  have hsent : Session.SendsAll h ⟨[], (counter? r).getD 0, true⟩ [b] ⟨[], v, true⟩ :=
    Session.SendsAll.nothing.more hmark
  exact Session.serves_play (.resumed r hresume) hsent

/-- A session that starts over is closed after the first object of its replay, and one that goes on
from there sends a bookmark. -/
theorem serves_cut {h : History} {record : Record} {b : Change} {p v : Nat} (rest : List Record)
    (hasked : (played [[.ofRecord .added record], [b]] 9).asked.map (·.resume) =
      [none, some record.version])
    (hl : h.Lists p (record :: rest)) (hb : b.kind = .bookmark) (hv : counter? b.version = some v)
    (hlevel : h.Level ((counter? record.version).getD 0) v) (n : Nat) (request : OpenRequest)
    (stream : Nat → StreamItem)
    (hn : (played [[.ofRecord .added record], [b]] 9).asked[n]? = some request)
    (hsource : playAll [[.ofRecord .added record], [b]] n = .ok stream) :
    ∃ (s : Session) (events : List Change), stream = play events ∧ s.Serves h request stream ∧
      s.waiting.length ≤ rest.length + events.length := by
  have hresume := resume_of_asked hasked hn
  clear hn hasked
  match n with
  | 0 =>
    cases Except.ok.inj hsource
    have hsent : Session.SendsAll h ⟨record :: rest, p, false⟩ [.ofRecord .added record]
        ⟨rest, p, false⟩ := Session.SendsAll.nothing.more (.replay record rest p false)
    exact ⟨_, _, rfl, Session.serves_play (.fresh p _ (Option.some.inj hresume).symm hl) hsent,
      Nat.le_refl _⟩
  | 1 =>
    cases Except.ok.inj hsource
    exact ⟨_, _, rfl, serves_resumed (Option.some.inj hresume).symm hb hv hlevel, Nat.zero_le _⟩
  | n + 2 => cases hsource

theorem resume_covers_wholeReplay :
    (∀ n request stream, (played wholeReplay 13).asked[n]? = some request →
      playAll wholeReplay n = .ok stream →
      ∃ s : Session, s.Serves twoObjects request stream ∧ s.Uncut twoObjects stream) ∧
    ∃ before, (played wholeReplay 13).items = before ++ [.event (.bookmark "8")] ∧
      twoObjects.Covered 8 (sinceReplay before) := by
  let a : Record := { Record.empty with name := "a", version := "3" }
  let b : Record := { Record.empty with name := "b", version := "7" }
  have hasked : (played wholeReplay 13).asked.map (·.resume) = [none, some "7"] := by
    decide +kernel
  have hserved : ∀ n request stream, (played wholeReplay 13).asked[n]? = some request →
      playAll wholeReplay n = .ok stream →
      ∃ s : Session, s.Serves twoObjects request stream ∧ s.Uncut twoObjects stream := by
    intro n request stream hn hsource
    have hresume := resume_of_asked hasked hn
    match n with
    | 0 =>
      cases Except.ok.inj hsource
      have hnewer : Session.SendsAll twoObjects ⟨[b, a], 7, false⟩ [.ofRecord .added b]
          ⟨[a], 7, false⟩ := Session.SendsAll.nothing.more (.replay b [a] 7 false)
      have holder : Session.SendsAll twoObjects ⟨[b, a], 7, false⟩
          [.ofRecord .added b, .ofRecord .added a] ⟨[], 7, false⟩ :=
        hnewer.more (.replay a [] 7 false)
      have hmark : Session.SendsAll twoObjects ⟨[b, a], 7, false⟩
          [.ofRecord .added b, .ofRecord .added a, .bookmark "7"] ⟨[], 7, true⟩ :=
        holder.more (.bookmark _ 7 7 false rfl (by decide) fun _ _ => Iff.rfl)
      exact ⟨_, Session.serves_play
        (.fresh 7 [b, a] (Option.some.inj hresume).symm (by decide)) hmark,
        Session.uncut_play (by decide)⟩
    | 1 =>
      cases Except.ok.inj hsource
      exact ⟨_, serves_resumed (Option.some.inj hresume).symm rfl (v := 8) (by decide)
        (by unfold History.Level; decide), Session.uncut_play (by decide)⟩
    | n + 2 => cases hsource
  refine ⟨hserved, (played wholeReplay 13).items.dropLast, by decide +kernel, ?_⟩
  obtain ⟨v, hv, hcovered⟩ := (resume_covers twoObjects _ _ _ _ rfl hserved).1
    (played wholeReplay 13).items.dropLast (.bookmark "8") [] (by decide +kernel) rfl
  have height : counter? (Change.bookmark "8").version = some 8 := by decide
  rw [height] at hv
  cases hv
  exact hcovered

/-- A replay that is closed in the middle loses what it had still to bring: the connection goes on
from the newer object, and a bookmark comes though the older one was never reported. -/
theorem half_replay_skips :
    (∀ n request stream, (played halfReplay 9).asked[n]? = some request →
      playAll halfReplay n = .ok stream →
      ∃ s : Session, s.Serves twoObjects request stream) ∧
    ∃ before, (played halfReplay 9).items = before ++ [.event (.bookmark "8")] ∧
      ¬ twoObjects.Covered 8 (sinceReplay before) := by
  let a : Record := { Record.empty with name := "a", version := "3" }
  let b : Record := { Record.empty with name := "b", version := "7" }
  have hasked : (played halfReplay 9).asked.map (·.resume) = [none, some b.version] := by
    decide +kernel
  have hlevel : twoObjects.Level ((counter? b.version).getD 0) 8 := by
    unfold History.Level
    decide
  refine ⟨?_, [.opened false, .event (.ofRecord .added b), .opened true], by decide +kernel, ?_⟩
  · intro n request stream hn hsource
    obtain ⟨s, -, -, hs, -⟩ := serves_cut (p := 7) [a] hasked (by decide) rfl
      (by decide) hlevel n request stream hn hsource
    exact ⟨s, hs⟩
  · intro hcovered
    obtain ⟨e, he, -, hout⟩ := hcovered ⟨"", "a"⟩ a (by decide)
    have hevents : sinceReplay [.opened false, .event (.ofRecord .added b), .opened true] =
        [.ofRecord .added b] := by decide
    rw [hevents, List.mem_singleton] at he
    rw [he] at hout
    revert hout
    decide

/-- The first session replays all that is left after a deletion, and is closed. -/
def shortReplay : List (List Change) :=
  let b : Record := { Record.empty with name := "b", version := "2" }
  [[.ofRecord .added b], [.bookmark "2"]]

/-- A replay that is closed right after its last object is not enough: the deletion of what it left
out is newer than that object, so at a bookmark of the object's version the deleted one existed, and
it was never reported. -/
theorem whole_replay_skips :
    (∀ n request stream, (played shortReplay 9).asked[n]? = some request →
      playAll shortReplay n = .ok stream →
      ∃ (s : Session) (events : List Change), stream = play events ∧
        s.Serves missedDeletion request stream ∧ s.waiting.length ≤ events.length) ∧
    ∃ before, (played shortReplay 9).items = before ++ [.event (.bookmark "2")] ∧
      ¬ missedDeletion.Covered 2 (sinceReplay before) := by
  let a : Record := { Record.empty with name := "a", version := "1" }
  let b : Record := { Record.empty with name := "b", version := "2" }
  have hasked : (played shortReplay 9).asked.map (·.resume) = [none, some b.version] := by
    decide +kernel
  have hlevel : missedDeletion.Level ((counter? b.version).getD 0) 2 := by
    unfold History.Level
    decide
  refine ⟨?_, [.opened false, .event (.ofRecord .added b), .opened true], by decide +kernel, ?_⟩
  · intro n request stream hn hsource
    obtain ⟨s, events, hstream, hs, hlong⟩ := serves_cut (p := 3) [] hasked (by decide)
      rfl (by decide) hlevel n request stream hn hsource
    exact ⟨s, events, hstream, hs, by simpa using hlong⟩
  · intro hcovered
    obtain ⟨e, he, -, hout⟩ := hcovered ⟨"", "a"⟩ a (by decide)
    have hevents : sinceReplay [.opened false, .event (.ofRecord .added b), .opened true] =
        [.ofRecord .added b] := by decide
    rw [hevents, List.mem_singleton] at he
    rw [he] at hout
    revert hout
    decide

end Connection.Drive

end SharedWatch
