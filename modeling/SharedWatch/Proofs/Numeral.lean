import Mathlib.Data.List.Induction
import SharedWatch.Proofs.Written
import SharedWatch.Sharing.Version

/-!
Which texts are numerals.

A number can be spelled with any number of zeros before its digits and with a plus sign before
those, and in no other way (`numeral?_eq_some_iff`). So a version is a counter exactly if it spells
a number of its word, and counters are compared as numbers whatever their spelling
(`supersedes_iff_of_spells`).
-/

namespace SharedWatch

namespace Text

/-- The spellings of a number: perhaps a plus sign, any number of zeros, and its digits. -/
def Spells (s : String) (n : Nat) : Prop :=
  ∃ sign zeros, (sign = [] ∨ sign = ['+']) ∧
    s.toList = sign ++ (List.replicate zeros '0' ++ Nat.toDigits 10 n)

/-! ## Rows of digits -/

theorem digitsValue_eq (cs : List Char) : digitsValue cs = Nat.ofDigitChars 10 cs 0 := rfl

theorem digitsValue_spelled (zeros n : Nat) :
    digitsValue (List.replicate zeros '0' ++ Nat.toDigits 10 n) = n := by
  rw [digitsValue_eq, Nat.ofDigitChars_append, Nat.ofDigitChars_replicate_zero, Nat.mul_zero,
    Nat.ofDigitChars_ten_toDigits]

theorem digits_spelled (zeros n : Nat) :
    Json.Digits (List.replicate zeros '0' ++ Nat.toDigits 10 n) :=
  Json.digits_append (Json.digits_zeros zeros) (Json.digits_natChars n)

/-- A digit is the one that its value is written with. -/
theorem digit_eq {c : Char} (h : isDigit c = true) :
    digitValue c < 10 ∧ c = Nat.digitChar (digitValue c) := by
  have hall : ∀ k < 10, Char.ofNat (48 + k) = Nat.digitChar k := by decide
  simp only [isDigit, Bool.and_eq_true, decide_eq_true_eq, Char.le_def, UInt32.le_iff_toNat_le] at h
  have hlow : 48 ≤ c.toNat := h.1
  have hhigh : c.toNat ≤ 57 := h.2
  have hvalue : 48 + digitValue c = c.toNat := by
    unfold digitValue
    omega
  refine ⟨by omega, ?_⟩
  rw [← hall _ (by omega), hvalue, Char.ofNat_toNat]

/-- A row of digits is what its value is written with, behind some zeros. -/
theorem exists_zeros {ds : List Char} (hne : ds ≠ []) (hds : Json.Digits ds) :
    ∃ zeros, ds = List.replicate zeros '0' ++ Nat.toDigits 10 (digitsValue ds) := by
  induction ds using List.reverseRecOn with
  | nil => exact absurd rfl hne
  | append_singleton ds d ih =>
    obtain ⟨hlt, hd⟩ := digit_eq (hds d (List.mem_append_right _ (List.mem_singleton_self d)))
    have hvalue : digitsValue (ds ++ [d]) = 10 * digitsValue ds + digitValue d := by
      rw [digitsValue, List.foldl_append]
      rfl
    have hlast : Nat.toDigits 10 (digitValue d) = [d] := by
      rw [Nat.toDigits_of_lt_base hlt, ← hd]
    rcases Nat.eq_zero_or_pos (digitsValue ds) with hzero | hpos
    · -- so far there are only zeros
      have hzeros : ∃ zeros, ds = List.replicate zeros '0' := by
        by_cases hds' : ds = []
        · exact ⟨0, hds'⟩
        · obtain ⟨zeros, heq⟩ := ih hds' fun c hc => hds c (List.mem_append_left _ hc)
          rw [hzero, Nat.toDigits_zero, ← List.replicate_succ'] at heq
          exact ⟨zeros + 1, heq⟩
      obtain ⟨zeros, heq⟩ := hzeros
      refine ⟨zeros, ?_⟩
      rw [hvalue, hzero, Nat.mul_zero, Nat.zero_add, hlast, ← heq]
    · have hds' : ds ≠ [] := by
        rintro rfl
        exact absurd hpos (by decide)
      obtain ⟨zeros, heq⟩ := ih hds' fun c hc => hds c (List.mem_append_left _ hc)
      refine ⟨zeros, ?_⟩
      rw [hvalue, ← Nat.toDigits_append_toDigits (by decide) hpos hlt, hlast, ← List.append_assoc,
        ← heq]

theorem digits?_eq_some_iff {cs : List Char} {n : Nat} :
    digits? cs = some n ↔ ∃ zeros, cs = List.replicate zeros '0' ++ Nat.toDigits 10 n := by
  have hread : digits? cs = some n ↔ cs ≠ [] ∧ Json.Digits cs ∧ digitsValue cs = n := by
    have hcond : (cs.isEmpty || !cs.all isDigit) = true ↔ ¬ (cs ≠ [] ∧ Json.Digits cs) := by
      simp [Json.Digits, Classical.or_iff_not_imp_left]
    rw [digits?, ← and_assoc]
    by_cases h : cs ≠ [] ∧ Json.Digits cs
    · rw [if_neg (hcond.not.mpr (not_not.mpr h)), Option.some.injEq, and_iff_right h]
    · rw [if_pos (hcond.mpr h)]
      exact iff_of_false nofun fun hc => h hc.1
  rw [hread]
  constructor
  · rintro ⟨hne, hds, rfl⟩
    exact exists_zeros hne hds
  · rintro ⟨zeros, rfl⟩
    exact ⟨List.append_ne_nil_of_right_ne_nil _ Nat.toDigits_ne_nil, digits_spelled zeros n,
      digitsValue_spelled zeros n⟩

/-! ## Numerals -/

theorem unsign_of_digits {cs : List Char} (h : Json.Digits cs) : unsign cs = cs := by
  unfold unsign
  split
  · next rest =>
    have hplus : isDigit '+' = false := by decide
    rw [h '+' List.mem_cons_self] at hplus
    cases hplus
  · rfl

/-- The numerals below a bound are the spellings of the numbers below it. -/
theorem numeral?_eq_some_iff {bound n : Nat} {s : String} :
    numeral? bound s = some n ↔ Spells s n ∧ n < bound := by
  rw [numeral?, Option.filter_eq_some_iff, decide_eq_true_eq, digits?_eq_some_iff]
  refine and_congr_left fun _ => ⟨?_, ?_⟩
  · rintro ⟨zeros, hdigits⟩
    unfold unsign at hdigits
    split at hdigits
    · next rest hs => exact ⟨['+'], zeros, .inr rfl, by rw [hs, hdigits]; rfl⟩
    · exact ⟨[], zeros, .inl rfl, hdigits⟩
  · rintro ⟨sign, zeros, rfl | rfl, hs⟩
    · rw [List.nil_append] at hs
      exact ⟨zeros, by rw [hs, unsign_of_digits (digits_spelled zeros n)]⟩
    · exact ⟨zeros, by rw [hs]; rfl⟩

end Text

/-! ## Versions -/

/-- Counters are the spellings of the numbers of their word. -/
theorem counter?_eq_some_iff {version : String} {n : Nat} :
    counter? version = some n ↔ Text.Spells version n ∧ n < Text.word64 :=
  Text.numeral?_eq_some_iff

theorem supersedes_iff_of_spells {a b : String} {m n : Nat} (ha : Text.Spells a m)
    (hb : Text.Spells b n) (hm : m < Text.word64) (hn : n < Text.word64) :
    supersedes a b = true ↔ n < m := by
  simp [supersedes, counter?_eq_some_iff.mpr ⟨ha, hm⟩, counter?_eq_some_iff.mpr ⟨hb, hn⟩]

end SharedWatch
