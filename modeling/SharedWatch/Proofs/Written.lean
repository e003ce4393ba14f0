import Mathlib.Data.List.Basic
import SharedWatch.Json.Printer
import SharedWatch.Json.Reader

/-!
What the reader makes of written texts and numbers.

Whatever stands after a value, the reader sees where the value ends: `Reads` says what it makes of
the characters of one value when nothing but a comma, a closing bracket or the end follows. A text
is read back from its escapes (`chars_written`), an integer of 64 bits from its digits
(`reads_magnitude`). A floating-point number is read as one (`reads_floating`); whether it is the
same one is left open.
-/

namespace SharedWatch.Json

open Text (isDigit digitValue word64)

/-- What may follow a value within a text. -/
def AtEnd : List Char → Prop
  | [] => True
  | c :: _ => c = ',' ∨ c = ']' ∨ c = '\x7d'

/-- What a reader makes of the characters of one value, whatever may follow them. -/
def Reads {α : Type} (r : Reader α) (text : List Char) (result : Except Flaw α) : Prop :=
  ∀ rest, AtEnd rest → r (text ++ rest) = result.map (·, rest)

/-! ## Texts -/

theorem hex4?_hexDigit :
    ∀ n < 32, hex4? '0' '0' (hexDigit (n / 16)) (hexDigit (n % 16)) = some n := by
  decide

/-- Every character is read back from its escape. -/
theorem charsFrom_escapeChar (c : Char) (seen rest : List Char) :
    charsFrom seen (escapeChar c ++ rest) = charsFrom (c :: seen) rest := by
  -- one case for each form of an escape; the last is that of control characters without a letter
  unfold escapeChar
  split
  · next h => subst h; simp [charsFrom, shortForm?]
  split
  · next h => subst h; simp [charsFrom, shortForm?]
  split
  · next hquote hslash hplain =>
    have hnot : ¬ c.toNat < 32 := by omega
    simp [charsFrom, hslash, hnot]
  split
  · next h => subst h; simp [charsFrom, shortForm?]
  split
  · next h => subst h; simp [charsFrom, shortForm?]
  split
  · next h => subst h; simp [charsFrom, shortForm?]
  split
  · next h =>
    have hc : c = Char.ofNat 8 := by rw [← h, Char.ofNat_toNat]
    subst hc; simp [charsFrom, shortForm?]
  split
  · next h =>
    have hc : c = Char.ofNat 12 := by rw [← h, Char.ofNat_toNat]
    subst hc; simp [charsFrom, shortForm?]
  · next hcontrol _ _ _ _ _ =>
    have hlt : c.toNat < 32 := by omega
    have hlow : isLowHalf c.toNat = false := by simp [isLowHalf]; omega
    have hhigh : isHighHalf c.toNat = false := by simp [isHighHalf]; omega
    simp [charsFrom, hex4?_hexDigit c.toNat hlt, hlow, hhigh]

theorem charsFrom_flatMap (cs seen rest : List Char) :
    charsFrom seen (cs.flatMap escapeChar ++ '"' :: rest) = .ok (seen.reverse ++ cs, rest) := by
  induction cs generalizing seen with
  | nil => simp [charsFrom]
  | cons c cs ih =>
    rw [List.flatMap_cons, List.append_assoc, charsFrom_escapeChar, ih]
    simp

theorem chars_written (s : String) (rest : List Char) :
    chars (s.toList.flatMap escapeChar ++ '"' :: rest) = .ok (s, rest) := by
  simp [chars, charsFrom_flatMap]

/-! ## Digits -/

/-- Nothing but digits. -/
def Digits (ds : List Char) : Prop := ∀ c ∈ ds, isDigit c = true

theorem digits_natChars (n : Nat) : Digits (natChars n) := by
  intro c hc
  have h : c.isDigit = true := Nat.isDigit_of_mem_toDigits (by decide) (by decide) hc
  simp only [Char.isDigit, Bool.and_eq_true, decide_eq_true_eq] at h
  simp only [isDigit, Bool.and_eq_true, decide_eq_true_eq]
  exact h

theorem exists_natChars_eq (n : Nat) : ∃ c cs, natChars n = c :: cs ∧ isDigit c = true := by
  obtain ⟨c, cs, hcs⟩ := List.exists_cons_of_ne_nil (l := natChars n) Nat.toDigits_ne_nil
  exact ⟨c, cs, hcs, digits_natChars n c (by rw [hcs]; exact List.mem_cons_self)⟩

/-- Digits end where a text that starts with none begins. -/
def NoDigit (rest : List Char) : Prop := ∀ c, rest.head? = some c → isDigit c = false

theorem AtEnd.noDigit {rest : List Char} (h : AtEnd rest) : NoDigit rest := by
  intro c hc
  cases rest with
  | nil => cases hc
  | cons d rest =>
    simp only [List.head?_cons, Option.some.injEq] at hc
    subst hc
    rcases h with rfl | rfl | rfl <;> decide

theorem takeWhile_digits {ds rest : List Char} (hds : Digits ds)
    (hrest : NoDigit rest) : (ds ++ rest).takeWhile isDigit = ds := by
  rw [List.takeWhile_append_of_pos hds]
  cases rest with
  | nil => simp
  | cons c rest => simp [hrest c rfl]

theorem dropWhile_digits {ds rest : List Char} (hds : Digits ds)
    (hrest : NoDigit rest) : (ds ++ rest).dropWhile isDigit = rest := by
  rw [List.dropWhile_append_of_pos hds]
  cases rest with
  | nil => simp
  | cons c rest => simp [hrest c rfl]

/-- No positive number is written with a zero in front. -/
theorem head_natChars {n : Nat} (h : 0 < n) (ds : List Char) : natChars n ≠ '0' :: ds := by
  induction n using Nat.strongRecOn generalizing ds with
  | ind n ih =>
    unfold natChars
    rw [Nat.toDigits_eq_if (by decide)]
    split
    · next hlt =>
      intro heq
      have hdigit : ∀ k < 10, 0 < k → Nat.digitChar k ≠ '0' := by decide
      exact hdigit n hlt h (List.head_eq_of_cons_eq heq)
    · next hge =>
      have hpos : 0 < n / 10 := by omega
      intro heq
      obtain ⟨c, cs, hcs⟩ : ∃ c cs, natChars (n / 10) = c :: cs :=
        List.exists_cons_of_ne_nil Nat.toDigits_ne_nil
      have hhead := ih (n / 10) (by omega) hpos cs
      unfold natChars at hcs hhead
      rw [hcs] at heq hhead
      simp at heq hhead
      exact hhead heq.1

/-- A significand takes all digits of a number that fits its word. -/
theorem absorb_eq {ds : List Char} {n k : Nat} (h : Nat.ofDigitChars 10 ds n < word64) :
    absorb n k ds = (Nat.ofDigitChars 10 ds n, k + ds.length, true) := by
  induction ds generalizing n k with
  | nil => rfl
  | cons c cs ih =>
    rw [Nat.ofDigitChars_cons] at h ⊢
    have hnext : n * 10 + digitValue c = 10 * n + (c.toNat - '0'.toNat) := by
      rw [Nat.mul_comm]; rfl
    have hle : 10 * n + (c.toNat - '0'.toNat) ≤
        Nat.ofDigitChars 10 cs (10 * n + (c.toNat - '0'.toNat)) := by
      rw [Nat.ofDigitChars_eq_ofDigitChars_zero]
      exact Nat.le_add_right_of_le (Nat.le_mul_of_pos_left _ (Nat.pow_pos (by decide)))
    rw [absorb, hnext, if_pos (by omega), ih h, List.length_cons]
    congr 2
    omega

theorem withRest_eq (rest : List Char) (r : Except Flaw Json) :
    withRest rest r = r.map (·, rest) := by
  cases r <;> rfl

theorem AtEnd.cases {rest : List Char} (h : AtEnd rest) :
    rest = [] ∨ ∃ c cs, rest = c :: cs ∧ c ≠ '.' ∧ c ≠ 'e' ∧ c ≠ 'E' := by
  cases rest with
  | nil => exact .inl rfl
  | cons c cs =>
    refine .inr ⟨c, cs, rfl, ?_⟩
    rcases h with rfl | rfl | rfl <;> decide

/-- What a number is, by what follows its digits. -/
def afterDigits (negative : Bool) (ds : List Char) : Reader Json := fun rest =>
  let (n, taken, all) := absorb 0 0 ds
  match rest with
  | '.' :: rest => fractionPart negative n (ds.length - taken) rest
  | c :: _ =>
    if c = 'e' ∨ c = 'E' then afterFraction negative n (ds.length - taken) rest
    else if all then withRest rest (signed negative n)
    else withRest rest (assemble negative n (ds.length - taken))
  | [] =>
    if all then withRest [] (signed negative n)
    else withRest [] (assemble negative n (ds.length - taken))

theorem number_eq (negative : Bool) {ds rest : List Char} (hds : Digits ds)
    (hne : ds ≠ []) (hzero : ∀ d more, ds ≠ '0' :: d :: more) (hrest : NoDigit rest) :
    number negative (ds ++ rest) = afterDigits negative ds rest := by
  unfold number
  simp only [takeWhile_digits hds hrest, dropWhile_digits hds hrest]
  rfl

theorem reads_natChars (negative : Bool) {n : Nat} (h : n < word64) :
    Reads (number negative) (natChars n) (signed negative n) := by
  intro rest hrest
  have hvalue : Nat.ofDigitChars 10 (natChars n) 0 = n :=
    Nat.ofDigitChars_toDigits (by decide) (by decide)
  have habsorb := absorb_eq (n := 0) (k := 0) (hvalue.symm ▸ h)
  rw [hvalue] at habsorb
  have hzero : ∀ d ds, natChars n ≠ '0' :: d :: ds := by
    intro d ds heq
    rcases Nat.eq_zero_or_pos n with rfl | hpos
    · cases heq
    · exact head_natChars hpos _ heq
  rw [number_eq negative (digits_natChars n) Nat.toDigits_ne_nil hzero hrest.noDigit]
  rcases hrest.cases with rfl | ⟨c, cs, rfl, hdot, he, hE⟩
  · simp [afterDigits, habsorb, withRest_eq]
  · simp [afterDigits, habsorb, withRest_eq, he, hE]

theorem reads_magnitude_neg {n : Int} (hlow : -9223372036854775808 ≤ n) (hneg : n < 0) :
    Reads (number true) (natChars n.natAbs) (.ok (.int n)) := by
  have hsigned : signed true n.natAbs = .ok (.int n) := by
    have hrange : 1 ≤ n.natAbs ∧ n.natAbs ≤ 9223372036854775808 := by omega
    have hback : -(n.natAbs : Int) = n := by omega
    rw [signed, Bool.not_true, if_neg Bool.false_ne_true, if_pos hrange, hback]
  have hword : n.natAbs < word64 := by unfold word64; omega
  exact hsigned ▸ reads_natChars true hword

theorem reads_magnitude {n : Int} (hneg : ¬ n < 0) (hhigh : n < 18446744073709551616) :
    Reads (number false) (natChars n.natAbs) (.ok (.int n)) := by
  have hsigned : signed false n.natAbs = .ok (.int n) := by
    have hback : (n.natAbs : Int) = n := by omega
    rw [signed, Bool.not_false, if_pos rfl, hback]
  have hword : n.natAbs < word64 := by unfold word64; omega
  exact hsigned ▸ reads_natChars false hword

/-! ## Floating-point numbers -/

/-- What is read is a floating-point number, if anything. -/
def OnlyFloat (result : Except Flaw Json) : Prop := ∀ v, result = .ok v → ∃ x, v = .float x

theorem onlyFloat_error (e : Flaw) : OnlyFloat (.error e) := by
  intro v h
  cases h

theorem onlyFloat_float (x : Binary64) : OnlyFloat (.ok (.float x)) := by
  intro v h
  cases h
  exact ⟨x, rfl⟩

theorem onlyFloat_assemble (negative : Bool) (significand : Nat) (e : Int) :
    OnlyFloat (assemble negative significand e) := by
  unfold assemble
  split
  · exact onlyFloat_error _
  · simp only
    split
    · exact onlyFloat_float _
    split
    · exact onlyFloat_error _
    split
    · exact onlyFloat_error _
    · exact onlyFloat_float _

/-- What an exponent with its sign and magnitude makes of a significand. -/
def scaled (negative : Bool) (significand : Nat) (e : Int) (down : Bool) (n : Nat) :
    Except Flaw Json :=
  if 2147483648 ≤ n then
    if significand ≠ 0 ∧ !down then .error .malformed else .ok (.float (Binary64.zero negative))
  else assemble negative significand (if down then e - n else e + n)

theorem onlyFloat_scaled (negative : Bool) (significand : Nat) (e : Int) (down : Bool) (n : Nat) :
    OnlyFloat (scaled negative significand e down n) := by
  unfold scaled
  split
  · split
    · exact onlyFloat_error _
    · exact onlyFloat_float _
  · exact onlyFloat_assemble _ _ _

theorem reads_exponentPart (negative : Bool) (significand : Nat) (e k : Int) :
    Reads (exponentPart negative significand e) (intChars k)
      (scaled negative significand e (decide (k < 0)) (Text.digitsValue (natChars k.natAbs))) := by
  intro rest hrest
  have hdigits := digits_natChars k.natAbs
  obtain ⟨c, cs, hcs, hc⟩ := exists_natChars_eq k.natAbs
  have hplus : c ≠ '+' := by rintro rfl; cases hc
  have hminus : c ≠ '-' := by rintro rfl; cases hc
  have htake := takeWhile_digits hdigits hrest.noDigit
  have hdrop := dropWhile_digits hdigits hrest.noDigit
  rw [hcs, List.cons_append] at htake hdrop
  unfold intChars exponentPart scaled
  by_cases hk : k < 0
  · simp [hk, hcs, hc, htake, hdrop, withRest_eq]
    split <;> rfl
  · simp [hk, hcs, hc, htake, hdrop, withRest_eq, hplus, hminus]
    split
    · split <;> rfl
    · rfl

/-- How a number ends after its digits and its fraction: with an exponent, or at once. -/
def Exponent (text : List Char) : Prop := text = [] ∨ ∃ k, text = 'e' :: intChars k

theorem Exponent.noDigit {text rest : List Char} (h : Exponent text) (hrest : AtEnd rest) :
    NoDigit (text ++ rest) := by
  rcases h with rfl | ⟨k, rfl⟩
  · exact hrest.noDigit
  · intro c hc
    simp only [List.cons_append, List.head?_cons, Option.some.injEq] at hc
    subst hc
    rfl

theorem reads_afterFraction (negative : Bool) (significand : Nat) (e : Int) {text : List Char}
    (h : Exponent text) :
    ∃ r, Reads (afterFraction negative significand e) text r ∧ OnlyFloat r := by
  rcases h with rfl | ⟨k, rfl⟩
  · refine ⟨_, fun rest hrest => ?_, onlyFloat_assemble negative significand e⟩
    rcases hrest.cases with rfl | ⟨c, cs, rfl, -, he, hE⟩
    · simp [afterFraction, withRest_eq]
    · simp [afterFraction, withRest_eq, he, hE]
  · have hreads := reads_exponentPart negative significand e k
    refine ⟨_, fun rest hrest => ?_, onlyFloat_scaled negative significand e (decide (k < 0))
      (Text.digitsValue (natChars k.natAbs))⟩
    rw [List.cons_append, afterFraction, if_pos (.inl rfl)]
    exact hreads rest hrest

theorem reads_fractionPart (negative : Bool) (significand : Nat) (e : Int) {ds text : List Char}
    (hds : Digits ds) (hne : ds ≠ []) (h : Exponent text) :
    ∃ r, Reads (fractionPart negative significand e) (ds ++ text) r ∧ OnlyFloat r := by
  obtain ⟨r, hreads, honly⟩ := reads_afterFraction negative (absorb significand 0 ds).1
    (e - (absorb significand 0 ds).2.1) h
  refine ⟨r, fun rest hrest => ?_, honly⟩
  have htake := takeWhile_digits hds (h.noDigit hrest)
  have hdrop := dropWhile_digits hds (h.noDigit hrest)
  rw [List.append_assoc]
  unfold fractionPart
  simp only [htake, hdrop, List.isEmpty_iff, hne, if_false]
  exact hreads rest hrest

/-- How the digits of a floating-point number go on: with a fraction or an exponent. -/
inductive FloatTail : List Char → Prop
  | fraction {ds text : List Char} (hds : Digits ds) (hne : ds ≠ [])
      (h : Exponent text) : FloatTail ('.' :: (ds ++ text))
  | exponent (k : Int) : FloatTail ('e' :: intChars k)

theorem FloatTail.noDigit {text : List Char} (h : FloatTail text) (rest : List Char) :
    NoDigit (text ++ rest) := by
  intro c hc
  cases h with
  | fraction hds hne h =>
    simp only [List.cons_append, List.head?_cons, Option.some.injEq] at hc
    subst hc
    rfl
  | exponent k =>
    simp only [List.cons_append, List.head?_cons, Option.some.injEq] at hc
    subst hc
    rfl

/-- Digits with a fraction or an exponent are read as a floating-point number, if at all. -/
theorem reads_floating (negative : Bool) {ds tail : List Char}
    (hds : Digits ds) (hne : ds ≠ []) (htail : FloatTail tail) :
    ∃ r, Reads (number negative) (ds ++ tail) r ∧ OnlyFloat r := by
  by_cases hzero : ∀ d more, ds ≠ '0' :: d :: more
  · have heq := fun rest => number_eq negative hds hne hzero (htail.noDigit rest)
    cases htail with
    | fraction hfs hfne h =>
      obtain ⟨r, hreads, honly⟩ := reads_fractionPart negative (absorb 0 0 ds).1
        (ds.length - (absorb 0 0 ds).2.1) hfs hfne h
      refine ⟨r, fun rest hrest => ?_, honly⟩
      rw [List.append_assoc, heq rest]
      exact hreads rest hrest
    | exponent k =>
      obtain ⟨r, hreads, honly⟩ := reads_afterFraction negative (absorb 0 0 ds).1
        (ds.length - (absorb 0 0 ds).2.1) (.inr ⟨k, rfl⟩)
      refine ⟨r, fun rest hrest => ?_, honly⟩
      rw [List.append_assoc, heq rest]
      exact hreads rest hrest
  · -- digits that start with a superfluous zero are refused whatever follows
    push Not at hzero
    obtain ⟨d, more, rfl⟩ := hzero
    refine ⟨.error .malformed, fun rest hrest => ?_, onlyFloat_error _⟩
    simp only [List.append_assoc, number, takeWhile_digits hds (htail.noDigit rest)]
    rfl

theorem digits_take {n : Nat} (k : Nat) : Digits ((natChars n).take k) :=
  fun c hc => digits_natChars n c (List.mem_of_mem_take hc)

theorem digits_drop {n : Nat} (k : Nat) : Digits ((natChars n).drop k) :=
  fun c hc => digits_natChars n c (List.mem_of_mem_drop hc)

theorem digits_append {p q : List Char} (hp : Digits p)
    (hq : Digits q) : Digits (p ++ q) := by
  intro c hc
  rcases List.mem_append.mp hc with h | h
  · exact hp c h
  · exact hq c h

theorem digits_zeros (k : Nat) : Digits (List.replicate k '0') := by
  intro c hc
  rw [List.eq_of_mem_replicate hc]
  rfl

/-- The text of a magnitude is digits that go on with a fraction or an exponent. -/
theorem exists_decimalChars_eq (d : Decimal) :
    ∃ ds tail, decimalChars d = ds ++ tail ∧ Digits ds ∧ ds ≠ [] ∧
      FloatTail tail := by
  have hne : natChars d.digits ≠ [] := Nat.toDigits_ne_nil
  have hpos : 0 < (natChars d.digits).length := List.length_pos_of_ne_nil hne
  -- the four places where the point can stand
  unfold decimalChars
  simp only
  split
  · refine ⟨_, ['.', '0'], rfl, digits_append (digits_natChars _) (digits_zeros _),
      by simp [hne], ?_⟩
    exact .fraction (digits_zeros 1) (by decide) (.inl rfl)
  split
  · next hnot hlead =>
    refine ⟨_, _, rfl, digits_take _, ?_, ?_⟩
    · simp [hne]
      omega
    · rw [← List.append_nil (List.drop _ _)]
      refine .fraction (digits_drop _) ?_ (.inl rfl)
      simp
      omega
  split
  · refine ⟨['0'], _, rfl, digits_zeros 1, by decide, ?_⟩
    have htail := FloatTail.fraction (digits_append
      (digits_zeros (-((natChars d.digits).length + d.exponent)).toNat)
      (digits_natChars d.digits)) (by simp [hne]) (.inl rfl)
    rwa [List.append_nil] at htail
  · refine ⟨_, _, List.append_assoc .., digits_take 1, by simp [hne], ?_⟩
    split
    · exact .exponent _
    · next hmany =>
      refine .fraction (digits_drop 1) ?_ (.inr ⟨_, rfl⟩)
      rw [Ne, List.drop_eq_nil_iff]
      omega

end SharedWatch.Json
