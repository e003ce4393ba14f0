import Mathlib.Algebra.Group.Nat.Defs
import Mathlib.Data.List.DropRight
import Mathlib.Order.Monotone.Defs
import SharedWatch.Connection.Backoff

/-!
How long the delays of a backoff are.

`Span.total` takes spans to numbers: comparing, multiplying with the carry into the seconds and
halving are what they are for nanoseconds, and a product that leaves the range of spans is longer
than every span.

Main statement: `delays_bounded`. The ceiling is the base doubled, at most the limit, in exact
arithmetic, and the delays that can come next are those between half of the ceiling and the ceiling,
whatever was drawn and reset before.
-/

namespace SharedWatch

/-! ## Spans in nanoseconds -/

namespace Span
variable {a b s d : Span} {secs nanos k : Nat}

theorem total_lt (s : Span) : s.total < 18446744073709551616 * 1000000000 := by
  have hsecs := s.secs_lt
  have hnanos := s.nanos_lt
  unfold total
  omega

theorem eq_of_total (h : a.total = b.total) : a = b := by
  have ha := a.nanos_lt
  have hb := b.nanos_lt
  unfold total at h
  have hsecs : a.secs = b.secs := by omega
  have hnanos : a.nanos = b.nanos := by omega
  cases a
  cases b
  cases hsecs
  cases hnanos
  rfl

theorem le_iff : a.le b = true ↔ a.total ≤ b.total := by
  have ha := a.nanos_lt
  have hb := b.nanos_lt
  simp only [le, total, Bool.or_eq_true, Bool.and_eq_true, decide_eq_true_eq, beq_iff_eq]
  omega

theorem total_min (a b : Span) : (a.min b).total = Nat.min a.total b.total := by
  unfold Span.min
  split
  · next h => exact (Nat.min_eq_left (le_iff.mp h)).symm
  · next h => exact (Nat.min_eq_right (by rw [le_iff] at h; omega)).symm

theorem total_max (a b : Span) : (a.max b).total = Nat.max a.total b.total := by
  unfold Span.max
  split
  · next h => exact (Nat.max_eq_right (le_iff.mp h)).symm
  · next h => exact (Nat.max_eq_left (by rw [le_iff] at h; omega)).symm

theorem total_of_make? (h : make? secs nanos = some s) :
    s.total = secs * 1000000000 + nanos := by
  unfold make? at h
  split at h
  · cases h
    unfold total
    have hsplit := Nat.div_add_mod nanos 1000000000
    dsimp only
    omega
  · cases h

theorem le_of_make?_eq_none (h : make? secs nanos = none) :
    18446744073709551616 * 1000000000 ≤ secs * 1000000000 + nanos := by
  unfold make? at h
  split at h
  · cases h
  · omega

theorem make?_isSome (h : secs * 1000000000 + nanos < 18446744073709551616 * 1000000000) :
    ∃ s, make? secs nanos = some s := by
  cases hs : make? secs nanos with
  | some s => exact ⟨s, rfl⟩
  | none => exact absurd h (Nat.not_lt.mpr (le_of_make?_eq_none hs))

theorem total_mul (s : Span) (k : Nat) :
    s.secs * k * 1000000000 + s.nanos * k = s.total * k := by
  unfold total
  rw [Nat.add_mul, Nat.mul_right_comm]

theorem total_of_times? (h : s.times? k = some d) : d.total = s.total * k := by
  rw [total_of_make? h, total_mul]

/-- A product that leaves the range of spans is longer than every span. -/
theorem lt_of_times?_eq_none (h : s.times? k = none) (d : Span) : d.total < s.total * k := by
  have hlong := le_of_make?_eq_none h
  rw [total_mul] at hlong
  exact Nat.lt_of_lt_of_le d.total_lt hlong

theorem total_half (s : Span) : s.half.total = s.total / 2 := by
  unfold half total
  dsimp only
  omega

end Span

/-! ## The window of one delay -/

namespace Backoff

theorem total_ceiling (b : Backoff) (n : Nat) :
    (b.ceiling n).total = Nat.min (b.base.total * 2 ^ min n 31) b.limit.total := by
  unfold ceiling
  split
  · next d hd => rw [Span.total_min, Span.total_of_times? hd]; rfl
  · next hnone => exact (Nat.min_eq_right (Nat.le_of_lt (Span.lt_of_times?_eq_none hnone _))).symm

theorem ceiling_monotone (b : Backoff) : Monotone fun n => (b.ceiling n).total := by
  intro m n hmn
  have hpow : 2 ^ min m 31 ≤ 2 ^ min n 31 := Nat.pow_le_pow_right (by decide) (by omega)
  have hproduct := Nat.mul_le_mul_left b.base.total hpow
  show (b.ceiling m).total ≤ (b.ceiling n).total
  rw [total_ceiling, total_ceiling]
  exact Nat.le_min.mpr ⟨Nat.le_trans (Nat.min_le_left _ _) hproduct, Nat.min_le_right _ _⟩

/-- Doubling stops after thirty-one steps, so a counter that stops later changes nothing. -/
theorem ceiling_min (b : Backoff) (n : Nat) : b.ceiling (min n 4294967295) = b.ceiling n := by
  apply Span.eq_of_total
  rw [total_ceiling, total_ceiling]
  congr 3
  omega

/-- How a delay is drawn: so many nanoseconds above half of the ceiling. -/
theorem total_draw (c : Span) (choice : Nat) :
    (draw c choice).total = c.total / 2 + choice % (c.total - c.total / 2 + 1) := by
  have hlt := c.total_lt
  unfold draw
  dsimp only
  split
  · next hle =>
    -- only an empty span is no longer than its half
    rw [Span.le_iff, Span.total_half] at hle
    have hzero : c.total = 0 := by omega
    rw [hzero, Nat.mod_one]
  · next hle =>
    rw [Span.le_iff, Span.total_half] at hle
    rw [Span.total_half]
    have hchoice : choice % (c.total - c.total / 2 + 1) < c.total - c.total / 2 + 1 :=
      Nat.mod_lt _ (Nat.succ_pos _)
    have hhalf : c.half.secs * 1000000000 + c.half.nanos = c.total / 2 := c.total_half
    obtain ⟨d, hd⟩ : ∃ d, Span.make? c.half.secs
        (c.half.nanos + choice % (c.total - c.total / 2 + 1)) = some d :=
      Span.make?_isSome (by omega)
    rw [hd, Option.getD_some, Span.total_of_make? hd]
    omega

/-- The delays that can be drawn are those from half of the ceiling up to the ceiling. -/
theorem exists_draw_iff (c d : Span) :
    (∃ choice, draw c choice = d) ↔ c.total / 2 ≤ d.total ∧ d.total ≤ c.total := by
  constructor
  · rintro ⟨choice, rfl⟩
    have hchoice : choice % (c.total - c.total / 2 + 1) < c.total - c.total / 2 + 1 :=
      Nat.mod_lt _ (Nat.succ_pos _)
    rw [total_draw]
    omega
  · rintro ⟨hfloor, hceiling⟩
    refine ⟨d.total - c.total / 2, Span.eq_of_total ?_⟩
    rw [total_draw, Nat.mod_eq_of_lt (by omega)]
    omega

/-! ## Any use of a backoff -/

/-- What is asked of a backoff: the next delay, or to start over. -/
inductive Call where
  | next (choice : Nat)
  | reset
  deriving DecidableEq

def Call.isNext : Call → Bool
  | .next _ => true
  | .reset => false

def call (b : Backoff) : Call → Backoff
  | .next choice => (b.next choice).2
  | .reset => b.reset

def run (b : Backoff) (calls : List Call) : Backoff := calls.foldl call b

/-- How many delays were drawn since the start or the last reset. -/
def drawnSince (calls : List Call) : Nat := (calls.rtakeWhile Call.isNext).length

theorem drawnSince_next (calls : List Call) (choice : Nat) :
    drawnSince (calls ++ [.next choice]) = drawnSince calls + 1 := by
  unfold drawnSince
  rw [List.rtakeWhile_concat_pos _ _ _ rfl, List.length_append, List.length_singleton]

theorem drawnSince_reset (calls : List Call) : drawnSince (calls ++ [.reset]) = 0 := by
  unfold drawnSince
  rw [List.rtakeWhile_concat_neg _ _ _ Bool.false_ne_true, List.length_nil]

/-- Only the count moves, and it stops at the end of its word. -/
theorem run_new (base limit : Span) (calls : List Call) :
    (new base limit).run calls =
      { new base limit with drawn := min (drawnSince calls) 4294967295 } := by
  induction calls using List.reverseRecOn with
  | nil => rfl
  | append_singleton calls c ih =>
    have hrun : (new base limit).run (calls ++ [c]) = ((new base limit).run calls).call c := by
      unfold run
      rw [List.foldl_append, List.foldl_cons, List.foldl_nil]
    rw [hrun, ih]
    cases c with
    | next choice =>
      rw [drawnSince_next]
      have hcount : min (min (drawnSince calls) 4294967295 + 1) 4294967295 =
          min (drawnSince calls + 1) 4294967295 := by omega
      show { new base limit with drawn := min (min (drawnSince calls) 4294967295 + 1) 4294967295 } =
        { new base limit with drawn := min (drawnSince calls + 1) 4294967295 }
      rw [hcount]
    | reset =>
      rw [drawnSince_reset]
      rfl

theorem next_run_new (base limit : Span) (calls : List Call) (choice : Nat) :
    (((new base limit).run calls).next choice).1 =
      draw ((new base limit).ceiling (drawnSince calls)) choice := by
  rw [run_new, ← ceiling_min]
  rfl

/-- What a backoff may answer, for every base and limit and after any calls. -/
theorem delays_bounded (base limit : Span) :
    (∀ n, ((new base limit).ceiling n).total =
        min (base.total * 2 ^ min n 31) (max base.total limit.total) ∧
      base.total ≤ ((new base limit).ceiling n).total ∧
      ((new base limit).ceiling n).total ≤ max base.total limit.total) ∧
    (Monotone fun n => ((new base limit).ceiling n).total) ∧
    ∀ calls d, (∃ choice, (((new base limit).run calls).next choice).1 = d) ↔
      ((new base limit).ceiling (drawnSince calls)).total / 2 ≤ d.total ∧
        d.total ≤ ((new base limit).ceiling (drawnSince calls)).total := by
  have hlimit : (new base limit).limit.total = max base.total limit.total :=
    (Span.total_max limit base).trans (Nat.max_comm _ _)
  refine ⟨?_, ceiling_monotone _, ?_⟩
  · intro n
    have htotal := total_ceiling (new base limit) n
    rw [hlimit] at htotal
    have hbase : base.total ≤ base.total * 2 ^ min n 31 :=
      Nat.le_mul_of_pos_right _ (Nat.two_pow_pos _)
    refine ⟨htotal, ?_, ?_⟩
    · rw [htotal]
      exact Nat.le_min.mpr ⟨hbase, Nat.le_max_left _ _⟩
    · rw [htotal]
      exact Nat.min_le_right _ _
  · intro calls d
    simp only [next_run_new]
    exact exists_draw_iff _ d

/-- A product beyond the range of spans is cut to the limit, also where that is the base itself. -/
example : let base := Span.ofSecs 18446744073709551615
    (new base (.ofMillis 1)).ceiling 1 = base ∧ (new base .longest).ceiling 1 = .longest := by
  decide

end Backoff

end SharedWatch
