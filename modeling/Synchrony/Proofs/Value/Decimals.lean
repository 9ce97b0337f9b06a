import Mathlib.Algebra.Order.Field.Power
import Mathlib.Data.List.TakeWhile
import Mathlib.Tactic.FieldSimp
import Mathlib.Tactic.Linarith
import Mathlib.Tactic.Ring
import Synchrony.Double.Shortest

/-!
# Different numbers have different texts

A decimal text says a quantity (`Double.quantity`), and the shortest decimal that is written for a
number is one of the quantities that round to it (`Double.within_shortest`). No quantity rounds to two
numbers (`Double.Within.unique`). So a number can be told from its text (`Double.render_inj`), including
the sign of a zero.
-/

namespace Synchrony.Double

/-! ### What a decimal text says -/

/-- The power of ten behind the letter of an exponent, with its sign. -/
def power : List Char → ℤ
  | '-' :: ds => -(Nat.ofDigitChars 10 ds 0 : ℤ)
  | '+' :: ds => Nat.ofDigitChars 10 ds 0
  | _ => 0

/-- What a text without a sign says: its digits, shifted by the places and by the exponent. -/
def quantity (text : List Char) : ℚ :=
  let front := text.takeWhile (· ≠ 'e')
  let whole := front.takeWhile (· ≠ '.')
  let places := (front.dropWhile (· ≠ '.')).drop 1
  Nat.ofDigitChars 10 (whole ++ places) 0 *
    10 ^ (power ((text.dropWhile (· ≠ 'e')).drop 1) - places.length)

/-- Digits only. -/
def Decimal (text : List Char) : Prop := ∀ c ∈ text, c.isDigit = true

variable {whole places front behind : List Char}

lemma decimal_digits (n : ℕ) : Decimal (digits n) := fun _ =>
  Nat.isDigit_of_mem_toDigits (by decide) (by decide)

lemma decimal_zeros (n : ℕ) : Decimal (List.replicate n '0') := by
  intro c hc
  rw [List.eq_of_mem_replicate hc]
  rfl

lemma Decimal.append (h : Decimal whole) (h' : Decimal places) : Decimal (whole ++ places) := by
  intro c hc
  rcases List.mem_append.1 hc with hc | hc
  · exact h c hc
  · exact h' c hc

lemma Decimal.notMem (h : Decimal whole) {c : Char} (hc : c.isDigit = false) : c ∉ whole := by
  intro hmem
  rw [h c hmem] at hc
  cases hc

/-- A text is cut at the first character of a kind. -/
lemma takeWhile_dropWhile_append_cons {c : Char} (h : c ∉ front) (behind : List Char) :
    (front ++ c :: behind).takeWhile (· ≠ c) = front ∧
      (front ++ c :: behind).dropWhile (· ≠ c) = c :: behind := by
  have hfront (a : Char) (ha : a ∈ front) : decide (a ≠ c) = true :=
    decide_eq_true (ne_of_mem_of_not_mem ha h)
  rw [List.takeWhile_append_of_pos hfront, List.dropWhile_append_of_pos hfront]
  simp

lemma takeWhile_dropWhile_of_notMem {c : Char} (h : c ∉ front) :
    front.takeWhile (· ≠ c) = front ∧ front.dropWhile (· ≠ c) = [] := by
  have hfront (a : Char) (ha : a ∈ front) : decide (a ≠ c) = true :=
    decide_eq_true (ne_of_mem_of_not_mem ha h)
  exact ⟨List.takeWhile_eq_self_iff.2 hfront, List.dropWhile_eq_nil_iff.2 hfront⟩

lemma quantity_point (hwhole : Decimal whole) (hplaces : Decimal places) :
    quantity (whole ++ '.' :: places) =
      Nat.ofDigitChars 10 (whole ++ places) 0 * 10 ^ (-places.length : ℤ) := by
  have hletter : 'e' ∉ whole ++ '.' :: places := by
    rw [List.mem_append, List.mem_cons, not_or, not_or]
    exact ⟨hwhole.notMem rfl, by decide, hplaces.notMem rfl⟩
  obtain ⟨hfront, hbehind⟩ := takeWhile_dropWhile_of_notMem hletter
  obtain ⟨hcut, hrest⟩ := takeWhile_dropWhile_append_cons (hwhole.notMem (c := '.') rfl) places
  simp only [quantity, hfront, hbehind, hcut, hrest, List.drop_nil, power, List.drop_succ_cons,
    List.drop_zero, zero_sub]

lemma quantity_exponent {point : List Char} (hwhole : Decimal whole) (hplaces : Decimal places)
    (hpoint : point = [] ∧ places = [] ∨ point = '.' :: places) (behind : List Char) :
    quantity (whole ++ point ++ 'e' :: behind) =
      Nat.ofDigitChars 10 (whole ++ places) 0 * 10 ^ (power behind - places.length : ℤ) := by
  have hletter : 'e' ∉ whole := hwhole.notMem rfl
  have hdot : '.' ∉ whole := hwhole.notMem rfl
  rcases hpoint with ⟨rfl, rfl⟩ | rfl
  · obtain ⟨hfront, hbehind⟩ := takeWhile_dropWhile_append_cons hletter behind
    obtain ⟨hcut, hrest⟩ := takeWhile_dropWhile_of_notMem hdot
    simp only [quantity, List.append_nil, hfront, hbehind, hcut, hrest, List.drop_nil,
      List.drop_succ_cons, List.drop_zero]
  · have hletter : 'e' ∉ whole ++ '.' :: places := by
      rw [List.mem_append, List.mem_cons, not_or, not_or]
      exact ⟨hletter, by decide, hplaces.notMem rfl⟩
    obtain ⟨hfront, hbehind⟩ := takeWhile_dropWhile_append_cons hletter behind
    obtain ⟨hcut, hrest⟩ := takeWhile_dropWhile_append_cons hdot places
    simp only [quantity, hfront, hbehind, hcut, hrest, List.drop_succ_cons, List.drop_zero]

lemma power_sign (n : ℤ) : power ((if n < 0 then '-' else '+') :: digits n.natAbs) = n := by
  split
  · simp only [power, digits, Nat.ofDigitChars_ten_toDigits]
    omega
  · simp only [power, digits, Nat.ofDigitChars_ten_toDigits]
    omega

/-- What is written for a decimal says the decimal. -/
theorem quantity_renderDecimal (d : ℕ) (k : ℤ) : quantity (renderDecimal d k) = d * 10 ^ k := by
  have hdigits := decimal_digits d
  have hvalue : Nat.ofDigitChars 10 (digits d) 0 = d := Nat.ofDigitChars_ten_toDigits
  have hpos : 0 < (digits d).length := Nat.length_toDigits_pos
  rw [renderDecimal]
  generalize digits d = ds at hdigits hvalue hpos
  have htake (n : ℕ) : Decimal (ds.take n) := fun c hc => hdigits c (List.mem_of_mem_take hc)
  have hdrop (n : ℕ) : Decimal (ds.drop n) := fun c hc => hdigits c (List.mem_of_mem_drop hc)
  dsimp only
  split
  · rw [quantity_exponent (htake 1) (hdrop 1), List.take_append_drop, hvalue, power_sign,
      List.length_drop]
    · congr 2
      omega
    · cases ds.drop 1 with
      | nil => exact .inl ⟨rfl, rfl⟩
      | cons c rest => exact .inr rfl
  have hzero : Decimal ['0'] := decimal_zeros 1
  split
  · rename_i hk
    rw [quantity_point (hdigits.append (decimal_zeros _)) hzero, Nat.ofDigitChars_append,
      Nat.ofDigitChars_append, hvalue, Nat.ofDigitChars_replicate_zero]
    obtain ⟨n, rfl⟩ := Int.eq_ofNat_of_zero_le hk
    have hlast (m : ℕ) : Nat.ofDigitChars 10 ['0'] m = 10 * m := rfl
    rw [hlast, Int.toNat_natCast, List.length_singleton, zpow_natCast, Nat.cast_one, zpow_neg_one]
    push_cast
    field_simp
  split
  · rw [quantity_point (htake _) (hdrop _), List.take_append_drop, hvalue, List.length_drop]
    congr 2
    omega
  · rw [← List.singleton_append (l := '.' :: _), quantity_point hzero ((decimal_zeros _).append hdigits),
      List.length_append, List.length_replicate, Nat.ofDigitChars_append, Nat.ofDigitChars_append,
      Nat.ofDigitChars_replicate_zero]
    have hnone : Nat.ofDigitChars 10 ['0'] 0 = 0 := rfl
    rw [hnone, Nat.mul_zero, hvalue]
    congr 2
    omega

/-! ### The quantities that round to a number -/

/-- How many quarters of the smallest positive number make one. -/
def quarters : ℕ := 4 * Nat.pow 2 1074

/-- The lower end of the interval of a number, in quarters of the smallest one. -/
def low (mantissa exponent : ℕ) : ℕ :=
  (4 * mantissa - if mantissa = Nat.pow 2 52 ∧ exponent ≠ 0 then 1 else 2) * Nat.pow 2 exponent

/-- The upper end. -/
def high (mantissa exponent : ℕ) : ℕ := (4 * mantissa + 2) * Nat.pow 2 exponent

/-- The quantity is in the interval of a number, whose ends belong to it if the mantissa is even. -/
structure Within (mantissa exponent : ℕ) (q : ℚ) : Prop where
  low_le : low mantissa exponent ≤ q * quarters
  le_high : q * quarters ≤ high mantissa exponent
  strict : mantissa % 2 = 1 → low mantissa exponent < q * quarters ∧ q * quarters < high mantissa exponent

variable {m e m' e' d : ℕ} {k : ℤ} {q : ℚ}

/-- The ends are compared in natural numbers. -/
lemma rounds_iff : rounds m e d k = true ↔
    if m % 2 = 0 then
      low m e * Nat.pow 10 (-k).toNat ≤ d * Nat.pow 10 k.toNat * quarters ∧
        d * Nat.pow 10 k.toNat * quarters ≤ high m e * Nat.pow 10 (-k).toNat
    else
      low m e * Nat.pow 10 (-k).toNat < d * Nat.pow 10 k.toNat * quarters ∧
        d * Nat.pow 10 k.toNat * quarters < high m e * Nat.pow 10 (-k).toNat := by
  simp only [rounds, low, high, quarters]
  split <;> simp only [Bool.and_eq_true, decide_eq_true_eq]

/-- A power of ten is a quotient of two natural ones. -/
lemma zpow_mul_pow_toNat (k : ℤ) :
    (10 : ℚ) ^ k * (Nat.pow 10 (-k).toNat : ℕ) = (Nat.pow 10 k.toNat : ℕ) := by
  obtain ⟨n, rfl | rfl⟩ := Int.eq_nat_or_neg k
  · simp
  · simp

lemma within_of_rounds (h : rounds m e d k = true) : Within m e (d * 10 ^ k) := by
  have hdown : (0 : ℚ) < (Nat.pow 10 (-k).toNat : ℕ) := by
    exact_mod_cast Nat.pow_pos (by decide)
  have hpoint : (d : ℚ) * 10 ^ k * quarters * (Nat.pow 10 (-k).toNat : ℕ) =
      (d * Nat.pow 10 k.toNat * quarters : ℕ) := by
    rw [Nat.cast_mul, Nat.cast_mul, ← zpow_mul_pow_toNat k, mul_right_comm, mul_assoc (d : ℚ)]
  rw [rounds_iff] at h
  generalize Nat.pow 10 (-k).toNat = down at h hdown hpoint
  generalize d * Nat.pow 10 k.toNat * quarters = point at h hpoint
  have hle (n : ℕ) : (n : ℚ) ≤ d * 10 ^ k * quarters ↔ n * down ≤ point := by
    rw [← mul_le_mul_iff_of_pos_right hdown, hpoint]
    exact_mod_cast Iff.rfl
  have hge (n : ℕ) : d * 10 ^ k * quarters ≤ (n : ℚ) ↔ point ≤ n * down := by
    rw [← mul_le_mul_iff_of_pos_right hdown, hpoint]
    exact_mod_cast Iff.rfl
  have hends : low m e * down ≤ point ∧ point ≤ high m e * down ∧
      (m % 2 = 1 → low m e * down < point ∧ point < high m e * down) := by
    split at h <;> omega
  constructor
  · exact (hle _).2 hends.1
  · exact (hge _).2 hends.2.1
  · intro hodd
    rw [← not_le, ← not_le, hge, hle, not_le, not_le]
    exact hends.2.2 hodd

/-! ### One number for each quantity -/

/-- The parts of a number. -/
def Normal (mantissa exponent : ℕ) : Prop :=
  mantissa < Nat.pow 2 53 ∧ (exponent = 0 ∨ Nat.pow 2 52 ≤ mantissa)

lemma two_pow_pos (n : ℕ) : 0 < Nat.pow 2 n := Nat.pow_pos (by decide)

/-- The interval of the smaller number ends where that of the larger one begins, or before. -/
lemma high_le_low (hm : Normal m e) (hm' : Normal m' e') (h : e < e' ∨ e = e' ∧ m < m') :
    high m e ≤ low m' e' ∧ (high m e = low m' e' → m % 2 = 1 ∨ m' % 2 = 1) := by
  obtain ⟨hm, he⟩ := hm
  obtain ⟨hm', he'⟩ := hm'
  have hfull : Nat.pow 2 53 = 2 * Nat.pow 2 52 := rfl
  have heven : Nat.pow 2 52 % 2 = 0 := rfl
  rw [low, high]
  rw [hfull] at hm hm'
  generalize Nat.pow 2 52 = half at hm hm' he he' heven ⊢
  rcases h with h | ⟨rfl, h⟩
  · -- the larger power of two makes up for the smaller digits
    obtain ⟨n, rfl⟩ := Nat.exists_eq_add_of_lt h
    have hhalf : half ≤ m' := by omega
    have hsplit : Nat.pow 2 (e + n + 1) = 2 * Nat.pow 2 n * Nat.pow 2 e := by
      rw [Nat.pow_eq, Nat.pow_eq, Nat.pow_eq, Nat.pow_succ, Nat.pow_add]
      ring
    have hend : 4 * m + 2 ≤ (4 * m' - if m' = half ∧ e + n + 1 ≠ 0 then 1 else 2) * (2 * Nat.pow 2 n) ∧
        (4 * m + 2 = (4 * m' - if m' = half ∧ e + n + 1 ≠ 0 then 1 else 2) * (2 * Nat.pow 2 n) →
          m % 2 = 1) := by
      have hlow : 4 * half - 1 ≤ 4 * m' - if m' = half ∧ e + n + 1 ≠ 0 then 1 else 2 := by
        split <;> omega
      generalize (4 * m' - if m' = half ∧ e + n + 1 ≠ 0 then 1 else 2) = l at hlow ⊢
      have hgrow : l * (2 * 1) ≤ l * (2 * Nat.pow 2 n) :=
        Nat.mul_le_mul_left l (Nat.mul_le_mul_left 2 (two_pow_pos n))
      generalize l * (2 * Nat.pow 2 n) = larger at hgrow ⊢
      omega
    rw [hsplit, ← Nat.mul_assoc]
    exact ⟨Nat.mul_le_mul_right _ hend.1, fun heq => .inl (hend.2 (Nat.eq_of_mul_eq_mul_right (two_pow_pos e) heq))⟩
  · have hend : 4 * m + 2 ≤ 4 * m' - (if m' = half ∧ e ≠ 0 then 1 else 2) ∧
        (4 * m + 2 = 4 * m' - (if m' = half ∧ e ≠ 0 then 1 else 2) → m % 2 = 1 ∨ m' % 2 = 1) := by
      split <;> omega
    exact ⟨Nat.mul_le_mul_right _ hend.1, fun heq => hend.2 (Nat.eq_of_mul_eq_mul_right (two_pow_pos e) heq)⟩

lemma Within.not_before (h : Within m e q) (h' : Within m' e' q) (hm : Normal m e)
    (hm' : Normal m' e') : ¬ (e < e' ∨ e = e' ∧ m < m') := by
  intro hbefore
  obtain ⟨hle, hodd⟩ := high_le_low hm hm' hbefore
  have hcast : (high m e : ℚ) ≤ low m' e' := by exact_mod_cast hle
  have heq : high m e = low m' e' := by
    have hback : (low m' e' : ℚ) ≤ high m e := h'.low_le.trans h.le_high
    exact Nat.le_antisymm hle (by exact_mod_cast hback)
  rcases hodd heq with hodd | hodd
  · exact absurd (h'.low_le.trans_lt (h.strict hodd).2) (not_lt.2 hcast)
  · exact absurd ((h'.strict hodd).1.trans_le h.le_high) (not_lt.2 hcast)

/-- No quantity rounds to two numbers. -/
theorem Within.unique (h : Within m e q) (h' : Within m' e' q) (hm : Normal m e)
    (hm' : Normal m' e') : m = m' ∧ e = e' := by
  have hbefore := h.not_before h' hm hm'
  have hbehind := h'.not_before h hm' hm
  omega

/-! ### The shortest decimal -/

/-- What one of two candidates is taken for. -/
lemma of_candidate {p : ℕ → Bool} {nearest other : ℕ}
    (h : (if p nearest && nearest != 0 then some nearest
      else if p other && other != 0 then some other else none) = some d) : p d = true ∧ d ≠ 0 := by
  split at h
  · rename_i hnearest
    cases h
    simpa using hnearest
  · split at h
    · rename_i hother
      cases h
      simpa using hother
    · cases h

lemma rounds_of_onGrid? (h : onGrid? m e k = some d) : rounds m e d k = true ∧ d ≠ 0 := by
  rw [onGrid?] at h
  exact of_candidate (p := (rounds m e · k)) h

lemma exists_ten_pow_eq (n : ℕ) : ∃ five, 0 < five ∧ Nat.pow 10 n = five * Nat.pow 2 n :=
  ⟨Nat.pow 5 n, Nat.pow_pos (by decide), Nat.mul_pow 5 2 n⟩

lemma roundDiv_mul_left (d : ℕ) {den : ℕ} (hden : 0 < den) : roundDiv (d * den) den = d := by
  simp [roundDiv, Nat.mul_div_left d hden, hden]

/-- A number is in its own interval. -/
lemma low_lt_high (hm : 0 < m) (e : ℕ) {unit : ℕ} (hunit : 0 < unit) :
    low m e * unit < 4 * m * Nat.pow 2 e * unit ∧ 4 * m * Nat.pow 2 e * unit < high m e * unit := by
  have hpow := two_pow_pos e
  have hlow : (4 * m - if m = Nat.pow 2 52 ∧ e ≠ 0 then 1 else 2) < 4 * m := by
    split <;> omega
  exact ⟨Nat.mul_lt_mul_of_pos_right (Nat.mul_lt_mul_of_pos_right hlow hpow) hunit,
    Nat.mul_lt_mul_of_pos_right (Nat.mul_lt_mul_of_pos_right (by omega) hpow) hunit⟩

/-- The finest grid has every number on it. -/
lemma isSome_onGrid? (hm : 0 < m) (e : ℕ) : (onGrid? m e (-1074)).isSome = true := by
  have hfinest : (- -1074 : ℤ).toNat = 1074 := rfl
  obtain ⟨five, hfive, hten⟩ := exists_ten_pow_eq 1074
  have htwo := two_pow_pos 1074
  have hpow := two_pow_pos e
  have hup : Nat.pow 10 (-1074 : ℤ).toNat = 1 := rfl
  have hdown : Nat.pow 10 (- -1074 : ℤ).toNat = five * Nat.pow 2 1074 := by
    rw [hfinest, hten]
  have hdiv {two : ℕ} (htwo : 0 < two) :
      roundDiv (m * Nat.pow 2 e * (five * two)) (1 * two) = m * Nat.pow 2 e * five := by
    rw [Nat.one_mul, ← Nat.mul_assoc, roundDiv_mul_left _ htwo]
  have hrounds : rounds m e (m * Nat.pow 2 e * five) (-1074) = true := by
    have hunit : 0 < five * Nat.pow 2 1074 := Nat.mul_pos hfive htwo
    have hends := low_lt_high hm e hunit
    have hpoint : m * Nat.pow 2 e * five * 1 * quarters = 4 * m * Nat.pow 2 e * (five * Nat.pow 2 1074) := by
      rw [quarters]
      generalize Nat.pow 2 1074 = two
      ring
    rw [rounds_iff, hup, hdown, hpoint]
    split <;> omega
  have hne : m * Nat.pow 2 e * five ≠ 0 := (Nat.mul_pos (Nat.mul_pos hm hpow) hfive).ne'
  rw [onGrid?, hup, hdown, hdiv htwo, hrounds, if_pos (by simpa using hne)]
  rfl

lemma onGrid?_shortestFrom {steps : ℕ}
    (h : ∃ j < steps, (onGrid? m e (k - j)).isSome = true) :
    onGrid? m e (shortestFrom m e k steps).2 = some (shortestFrom m e k steps).1 := by
  induction steps generalizing k with
  | zero =>
    obtain ⟨j, hj, -⟩ := h
    cases hj
  | succ steps ih =>
    rw [shortestFrom]
    cases hgrid : onGrid? m e k with
    | some d => exact hgrid
    | none =>
      obtain ⟨j, hj, hsome⟩ := h
      cases j with
      | zero =>
        rw [Nat.cast_zero, sub_zero, hgrid] at hsome
        cases hsome
      | succ j =>
        refine ih ⟨j, by omega, ?_⟩
        rwa [sub_sub, add_comm 1, ← Nat.cast_succ]

lemma Within.shortest (x : Double) (hx : x.isZero = false) :
    Within x.mantissa x.exponent (x.shortest.1 * 10 ^ x.shortest.2) ∧ x.shortest.1 ≠ 0 := by
  have hm : 0 < x.mantissa := by
    rw [isZero] at hx
    exact Nat.pos_of_ne_zero (by simpa using hx)
  have hgrid : onGrid? x.mantissa x.exponent x.shortest.2 = some x.shortest.1 :=
    onGrid?_shortestFrom ⟨1383, by decide, isSome_onGrid? hm x.exponent⟩
  obtain ⟨hrounds, hne⟩ := rounds_of_onGrid? hgrid
  exact ⟨within_of_rounds hrounds, hne⟩

/-! ### The text of a number -/

/-- The text of a number without its sign. -/
def body (x : Double) : List Char :=
  if x.isZero then ['0', '.', '0'] else renderDecimal x.shortest.1 x.shortest.2

lemma render_eq (x : Double) : x.render = if x.negative then '-' :: x.body else x.body := rfl

/-- A decimal is written with a digit first, and with a point or an exponent in it. -/
lemma renderDecimal_shape (d : ℕ) (k : ℤ) :
    ('.' ∈ renderDecimal d k ∨ 'e' ∈ renderDecimal d k) ∧
      ∃ c rest, renderDecimal d k = c :: rest ∧ c.isDigit = true := by
  have hdigits := decimal_digits d
  have hne : digits d ≠ [] := Nat.toDigits_ne_nil
  rw [renderDecimal]
  generalize digits d = ds at hdigits hne
  obtain ⟨c, cs, rfl⟩ := List.exists_cons_of_ne_nil hne
  have hc := hdigits c List.mem_cons_self
  dsimp only
  split
  · exact ⟨.inr (by simp), c, _, rfl, hc⟩
  split
  · exact ⟨.inl (by simp), c, _, rfl, hc⟩
  split
  · rename_i hlead
    refine ⟨.inl (by simp), ?_⟩
    obtain ⟨n, hn⟩ : ∃ n, (((c :: cs).length : ℤ) - 1 + k + 1).toNat = n + 1 :=
      Nat.exists_eq_add_of_le' (by omega)
    rw [hn]
    exact ⟨c, _, rfl, hc⟩
  · exact ⟨.inl (by simp), '0', _, rfl, rfl⟩

lemma body_shape (x : Double) :
    ('.' ∈ x.body ∨ 'e' ∈ x.body) ∧ ∃ c rest, x.body = c :: rest ∧ c.isDigit = true := by
  rw [body]
  split
  · exact ⟨.inl (by decide), '0', _, rfl, rfl⟩
  · exact renderDecimal_shape _ _

/-- The text of a number has a point or an exponent in it. -/
lemma point_or_exponent_mem_render (x : Double) : '.' ∈ x.render ∨ 'e' ∈ x.render := by
  have hbody := (body_shape x).1
  rw [render_eq]
  split
  · exact hbody.imp (List.mem_cons_of_mem _) (List.mem_cons_of_mem _)
  · exact hbody

lemma quantity_body (x : Double) (hx : x.isZero = false) :
    Within x.mantissa x.exponent (quantity x.body) ∧ quantity x.body ≠ 0 := by
  obtain ⟨hwithin, hne⟩ := Within.shortest x hx
  rw [body, hx, if_neg (by decide), quantity_renderDecimal]
  exact ⟨hwithin, mul_ne_zero (Nat.cast_ne_zero.2 hne) (zpow_ne_zero _ (by decide))⟩

lemma quantity_body_of_isZero {x : Double} (hx : x.isZero = true) : quantity x.body = 0 := by
  have hzero : Decimal ['0'] := decimal_zeros 1
  have hnone : Nat.ofDigitChars 10 (['0'] ++ ['0']) 0 = 0 := rfl
  rw [body, if_pos hx, ← List.singleton_append (l := ['.', '0']), quantity_point hzero hzero, hnone,
    Nat.cast_zero, zero_mul]

lemma normal_parts (x : Double) : Normal x.mantissa x.exponent := ⟨x.normal.1, x.normal.2.2⟩

/-- The text without the sign tells the number but for its sign. -/
lemma eq_of_body {x y : Double} (h : x.body = y.body) :
    x.mantissa = y.mantissa ∧ x.exponent = y.exponent := by
  cases hx : x.isZero with
  | false =>
    obtain ⟨hwithin, hne⟩ := quantity_body x hx
    cases hy : y.isZero with
    | false =>
      rw [h] at hwithin
      exact hwithin.unique (quantity_body y hy).1 (normal_parts x) (normal_parts y)
    | true => exact absurd (h ▸ quantity_body_of_isZero hy) hne
  | true =>
    cases hy : y.isZero with
    | false => exact absurd (h ▸ quantity_body_of_isZero hx) (quantity_body y hy).2
    | true =>
      -- a zero has the exponent zero, as its mantissa has no leading digit
      have hexponent {z : Double} (hz : z.isZero = true) : z.mantissa = 0 ∧ z.exponent = 0 := by
        have hm : z.mantissa = 0 := by simpa [isZero] using hz
        refine ⟨hm, z.normal.2.2.resolve_right fun hle => ?_⟩
        rw [hm] at hle
        exact absurd hle (by decide)
      rw [(hexponent hx).1, (hexponent hx).2, (hexponent hy).1, (hexponent hy).2]
      exact ⟨rfl, rfl⟩

/-- Numbers with the same text are the same, down to the sign of a zero. -/
theorem render_inj {x y : Double} : x.render = y.render ↔ x = y := by
  refine ⟨fun h => ?_, fun h => h ▸ rfl⟩
  have hminus (z : Double) (rest : List Char) : z.body ≠ '-' :: rest := by
    obtain ⟨-, c, after, heq, hc⟩ := body_shape z
    rw [heq]
    rintro ⟨⟩
    cases hc
  have hparts : x.negative = y.negative ∧ x.body = y.body := by
    rw [render_eq, render_eq] at h
    cases hx : x.negative <;> cases hy : y.negative
    all_goals simp only [hx, hy, if_true, if_false, Bool.false_eq_true] at h
    · exact ⟨rfl, h⟩
    · exact absurd h (hminus x _)
    · exact absurd h.symm (hminus y _)
    · exact ⟨rfl, List.tail_eq_of_cons_eq h⟩
  obtain ⟨hmantissa, hexponent⟩ := eq_of_body hparts.2
  cases x
  cases y
  cases hparts.1
  cases hmantissa
  cases hexponent
  rfl

end Synchrony.Double
