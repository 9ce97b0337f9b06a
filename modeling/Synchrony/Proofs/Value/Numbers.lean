import Mathlib.Data.List.Infix
import Synchrony.Proofs.Value.Reading

/-!
# Numbers read back

An integer of 64 bits reads back from its text as it was. Of a floating point number this has to be
seen in each case, since the reader rounds twice where the literal is long (`Double.ReadsBack`); but
then it reads back wherever it stands in a text. So a document is the one that a store on disk gives
back if each of its floating point numbers reads back (`Store.legible_of_exact`).
-/

namespace Synchrony

/-- The number is the one that its text stands for. -/
def Double.ReadsBack (x : Double) : Prop := Value.ofText? (Value.double x).toText = some (.double x)

namespace Value

/-- A value whose numbers read back, of objects and arrays that are nested at most so deep. -/
inductive Exact : Nat → Value → Prop where
  | null (n : Nat) : Exact n .null
  | bool (n : Nat) (b : Bool) : Exact n (.bool b)
  | int (n : Nat) {i : Int} (hlow : -(Nat.pow 2 63 : Int) ≤ i) (hhigh : i < Nat.pow 2 64) :
      Exact n (.int i)
  | double (n : Nat) {x : Double} (hx : x.ReadsBack) : Exact n (.double x)
  | str (n : Nat) (s : String) : Exact n (.str s)
  | arr {n : Nat} {items : List Value} (hitems : ∀ v ∈ items, Exact n v) :
      Exact (n + 1) (.arr items)
  | obj {n : Nat} {f : Fields} (hfields : ∀ e ∈ f.entries, Exact n e.2) : Exact (n + 1) f.toValue

namespace Reader

lemma eq_of_ends {rest : List Char} (h : Ends rest) :
    rest = [] ∨ ∃ after, rest = ',' :: after ∨ rest = ']' :: after ∨ rest = '\x7d' :: after := by
  cases rest with
  | nil => exact .inl rfl
  | cons c after =>
    have hc := h c rfl
    simp only [List.mem_cons, List.not_mem_nil, or_false] at hc
    exact .inr ⟨after, by simpa using hc⟩

/-! ### The parts of a number -/

/-- The digits of an exponent, and what follows them. -/
def power? (negative : Bool) (text : List Char) : Option (Option Int × List Char) :=
  match spanDigits text with
  | ([], _) => none
  | (ds, after) => some (some (if negative then -(ofDigits ds : Int) else ofDigits ds), after)

/-- The value of a number with these parts. -/
def valueOf? (negative : Bool) (whole : List Nat) (fraction : Option (List Nat))
    (exponent : Option Int) : Option Value :=
  let (significand, dropped) := gather 0 whole
  if fraction = none ∧ exponent = none then integer? negative significand dropped
  else
    let places := fraction.getD []
    let (significand, unused) := gather significand places
    let scale : Int := dropped.length - (places.length - unused.length)
    (Double.ofDecimal? negative significand (scale + exponent.getD 0)).map .double

lemma number?_eq (negative : Bool) (text : List Char) :
    number? negative text =
      if (spanDigits text).1 ≠ [] ∧
          ((spanDigits text).1.head? ≠ some 0 ∨ (spanDigits text).1.length = 1) then
        (fraction? (spanDigits text).2).bind fun f => (exponent? f.2).bind fun e =>
          (valueOf? negative (spanDigits text).1 f.1 e.1).map (·, e.2)
      else none := by
  rw [number?]
  rcases spanDigits text with ⟨whole, behind⟩
  by_cases hwhole : whole ≠ [] ∧ (whole.head? ≠ some 0 ∨ whole.length = 1)
  · simp only [guard, if_pos hwhole, Option.pure_def, Option.bind_eq_bind, Option.bind_some]
    refine Option.bind_congr fun f _ => Option.bind_congr fun e _ => ?_
    obtain ⟨fraction, behind⟩ := f
    obtain ⟨exponent, rest⟩ := e
    by_cases hinteger : fraction = none ∧ exponent = none
    · obtain ⟨rfl, rfl⟩ := hinteger
      simp only [valueOf?, and_self, if_true]
      generalize integer? negative (gather 0 whole).1 (gather 0 whole).2 = v
      cases v <;> rfl
    · simp only [valueOf?, if_neg hinteger]
      split
      · exact absurd ⟨rfl, rfl⟩ hinteger
      · rw [Option.map_map, Option.map_eq_bind]
        rfl
  · simp only [guard, if_neg hwhole]
    rfl

/-- After its letter an exponent may have a sign. -/
lemma exists_power? {c : Char} (hc : c = 'e' ∨ c = 'E') (text : List Char) :
    ∃ negative sign digits, text = sign ++ digits ∧
      ∀ rest, Ends rest → exponent? (c :: (text ++ rest)) = power? negative (digits ++ rest) := by
  rcases text with _ | ⟨s, text⟩
  · refine ⟨false, [], [], rfl, fun rest hrest => ?_⟩
    rw [exponent?.eq_def]
    simp only [if_pos hc]
    rcases eq_of_ends hrest with rfl | ⟨after, rfl | rfl | rfl⟩ <;> rfl
  by_cases hplus : s = '+'
  · subst hplus
    refine ⟨false, ['+'], text, rfl, fun rest _ => ?_⟩
    rw [exponent?.eq_def]
    simp only [if_pos hc]
    rfl
  by_cases hminus : s = '-'
  · subst hminus
    refine ⟨true, ['-'], text, rfl, fun rest _ => ?_⟩
    rw [exponent?.eq_def]
    simp only [if_pos hc]
    rfl
  · refine ⟨false, [], s :: text, rfl, fun rest _ => ?_⟩
    rw [exponent?.eq_def]
    simp only [if_pos hc, List.cons_append, power?]
    rcases hspan : spanDigits (s :: (text ++ rest)) with ⟨_ | ⟨d, ds⟩, after⟩ <;>
      simp [hplus, hminus, hspan]

/-! ### What stands behind a number -/

section Behind

variable {rest : List Char} (hrest : Ends rest)
include hrest

lemma spanDigits_of_ends : spanDigits rest = ([], rest) := by
  rcases eq_of_ends hrest with rfl | ⟨after, rfl | rfl | rfl⟩ <;> rfl

lemma fraction?_of_ends : fraction? rest = some (none, rest) := by
  rcases eq_of_ends hrest with rfl | ⟨after, rfl | rfl | rfl⟩ <;> rfl

lemma exponent?_of_ends : exponent? rest = some (none, rest) := by
  rcases eq_of_ends hrest with rfl | ⟨after, rfl | rfl | rfl⟩ <;> rfl

/-- What stands behind a number does not belong to its digits. -/
lemma spanDigits_append (text : List Char) :
    spanDigits (text ++ rest) = (spanDigits text).map id (· ++ rest) := by
  induction text with
  | nil => exact spanDigits_of_ends hrest
  | cons c text ih =>
    rw [List.cons_append, spanDigits, spanDigits, ih]
    cases digit? c <;> rfl

lemma fraction?_append (text : List Char) :
    fraction? (text ++ rest) = (fraction? text).map (Prod.map id (· ++ rest)) := by
  cases text with
  | nil => exact fraction?_of_ends hrest
  | cons c text =>
    by_cases hpoint : c = '.'
    · subst hpoint
      rw [List.cons_append, fraction?, fraction?, spanDigits_append hrest]
      rcases spanDigits text with ⟨_ | ⟨d, ds⟩, after⟩ <;> rfl
    · simp [fraction?, hpoint]

lemma power?_append (negative : Bool) (text : List Char) :
    power? negative (text ++ rest) = (power? negative text).map (Prod.map id (· ++ rest)) := by
  rw [power?, power?, spanDigits_append hrest]
  rcases spanDigits text with ⟨_ | ⟨d, ds⟩, after⟩ <;> rfl

lemma exponent?_append (text : List Char) :
    exponent? (text ++ rest) = (exponent? text).map (Prod.map id (· ++ rest)) := by
  rcases text with _ | ⟨c, text⟩
  · exact exponent?_of_ends hrest
  by_cases hc : c = 'e' ∨ c = 'E'
  · obtain ⟨negative, sign, digits, -, hpower⟩ := exists_power? hc text
    have halone := hpower [] ends_nil
    rw [List.append_nil, List.append_nil] at halone
    rw [List.cons_append, hpower rest hrest, halone, power?_append hrest]
  · simp [exponent?, hc]

/-- What stands behind a number does not belong to it. -/
lemma number?_append (negative : Bool) (text : List Char) :
    number? negative (text ++ rest) = (number? negative text).map (Prod.map id (· ++ rest)) := by
  rw [number?_eq, number?_eq, spanDigits_append hrest]
  rcases spanDigits text with ⟨whole, behind⟩
  simp only [Prod.map_fst, Prod.map_snd, id, fraction?_append hrest]
  split
  · rcases fraction? behind with _ | ⟨fraction, behind⟩
    · rfl
    simp only [Option.map_some, Option.bind_some, Prod.map_fst, Prod.map_snd, id,
      exponent?_append hrest]
    rcases exponent? behind with _ | ⟨exponent, after⟩
    · rfl
    simp [Function.comp_def]
  · rfl

end Behind

/-! ### What is left behind a number -/

lemma spanDigits_suffix (text : List Char) : (spanDigits text).2 <:+ text := by
  induction text with
  | nil => exact List.suffix_rfl
  | cons c text ih =>
    rw [spanDigits]
    cases digit? c with
    | some d => exact ih.trans (List.suffix_cons c text)
    | none => exact List.suffix_rfl

lemma fraction?_suffix {text after : List Char} {places : Option (List Nat)}
    (h : fraction? text = some (places, after)) : after <:+ text := by
  rw [fraction?.eq_def] at h
  split at h
  · rename_i text
    have hsuffix := spanDigits_suffix text
    rcases hspan : spanDigits text with ⟨_ | ⟨d, ds⟩, behind⟩
    · rw [hspan] at h
      cases h
    · rw [hspan] at h hsuffix
      cases h
      exact hsuffix.trans (List.suffix_cons _ _)
  · cases h
    exact List.suffix_rfl

lemma exponent?_suffix {text after : List Char} {exponent : Option Int}
    (h : exponent? text = some (exponent, after)) : after <:+ text := by
  rcases text with _ | ⟨c, text⟩
  · cases h
    exact List.suffix_rfl
  by_cases hc : c = 'e' ∨ c = 'E'
  · obtain ⟨negative, sign, digits, rfl, hpower⟩ := exists_power? hc text
    have halone := hpower [] ends_nil
    rw [List.append_nil, List.append_nil, h, power?] at halone
    have hsuffix := spanDigits_suffix digits
    rcases hspan : spanDigits digits with ⟨_ | ⟨d, ds⟩, behind⟩
    · rw [hspan] at halone
      cases halone
    · rw [hspan] at halone hsuffix
      cases halone
      exact (hsuffix.trans (List.suffix_append sign digits)).trans (List.suffix_cons _ _)
  · rw [exponent?.eq_def] at h
    simp only [if_neg hc] at h
    cases h
    exact List.suffix_rfl

lemma number?_suffix {negative : Bool} {text after : List Char} {v : Value}
    (h : number? negative text = some (v, after)) : after <:+ text := by
  rw [number?_eq] at h
  split at h
  · obtain ⟨⟨fraction, behind⟩, hfraction, h⟩ := Option.bind_eq_some_iff.1 h
    obtain ⟨⟨exponent, rest⟩, hexponent, h⟩ := Option.bind_eq_some_iff.1 h
    obtain ⟨w, -, heq⟩ := Option.map_eq_some_iff.1 h
    cases heq
    exact (exponent?_suffix hexponent).trans
      ((fraction?_suffix hfraction).trans (spanDigits_suffix text))
  · cases h

/-! ### Decimal digits -/

lemma digit?_digitChar : ∀ d < 10, digit? d.digitChar = some d := by decide

lemma spanDigits_map_digitChar {ds : List Nat} (hds : ∀ d ∈ ds, d < 10) :
    spanDigits (ds.map Nat.digitChar) = (ds, []) := by
  induction ds with
  | nil => rfl
  | cons d ds ih =>
    obtain ⟨hd, hds⟩ := List.forall_mem_cons.1 hds
    rw [List.map_cons, spanDigits, digit?_digitChar d hd, ih hds]

/-- The decimal digits of a number make it up again, and there is no zero before others. -/
lemma exists_digits (n : Nat) : ∃ ds : List Nat, Double.digits n = ds.map Nat.digitChar ∧
    (∀ d ∈ ds, d < 10) ∧ ofDigits ds = n ∧ ds ≠ [] ∧ (ds.head? ≠ some 0 ∨ ds.length = 1) := by
  induction n using Nat.strong_induction_on with
  | _ n ih =>
    rw [Double.digits, Nat.toDigits_eq_if (by decide)]
    split
    · rename_i hlt
      exact ⟨[n], rfl, by simpa using hlt, by simp [ofDigits], by simp, .inr rfl⟩
    · rename_i hge
      obtain ⟨ds, hdigits, hsmall, hvalue, hne, hhead⟩ := ih (n / 10) (by omega)
      have hlast : n % 10 < 10 := Nat.mod_lt n (by decide)
      refine ⟨ds ++ [n % 10], ?_, ?_, ?_, by simp, .inl ?_⟩
      · rw [List.map_append, ← hdigits]
        rfl
      · simpa [or_imp, forall_and] using ⟨hsmall, hlast⟩
      · rw [ofDigits, List.foldl_append, ← ofDigits, hvalue]
        simp only [List.foldl_cons, List.foldl_nil]
        omega
      · obtain ⟨d, ds, rfl⟩ := List.exists_cons_of_ne_nil hne
        rintro hzero
        obtain rfl : d = 0 := by simpa using hzero
        rcases hhead with hhead | hhead
        · exact hhead rfl
        · -- a single zero makes up zero, but a tenth of the number is more
          obtain rfl : ds = [] := by simpa using hhead
          simp only [ofDigits, List.foldl_cons, List.foldl_nil] at hvalue
          omega

lemma le_ofDigits (n : Nat) (ds : List Nat) : n ≤ ds.foldl (fun n d => n * 10 + d) n := by
  induction ds generalizing n with
  | nil => exact Nat.le_refl n
  | cons d ds ih => exact Nat.le_trans (by omega) (ih (n * 10 + d))

lemma gather_of_lt {n : Nat} {ds : List Nat}
    (h : ds.foldl (fun n d => n * 10 + d) n < Nat.pow 2 64) :
    gather n ds = (ds.foldl (fun n d => n * 10 + d) n, []) := by
  induction ds generalizing n with
  | nil => rfl
  | cons d ds ih =>
    rw [gather, if_pos (Nat.lt_of_le_of_lt (le_ofDigits _ ds) h)]
    exact ih h

/-- The digits of a number of 64 bits are read as an integer. -/
lemma number?_digits (negative : Bool) {n : Nat} (h : n < Nat.pow 2 64) :
    number? negative (Double.digits n) = (integer? negative n []).map (·, []) := by
  obtain ⟨ds, hdigits, hsmall, rfl, hne, hhead⟩ := exists_digits n
  rw [number?_eq, hdigits, spanDigits_map_digitChar hsmall, if_pos ⟨hne, hhead⟩]
  simp only [fraction?_of_ends ends_nil, exponent?_of_ends ends_nil, Option.bind_some, valueOf?,
    and_self, if_true, gather_of_lt h]
  rfl

end Reader

/-! ### The characters of numbers -/

/-- Whether a character may stand in the text of a number. -/
def isNumeral (c : Char) : Bool := c.isDigit || c = '-' || c = '+' || c = '.' || c = 'e'

lemma isNumeral_of_mem_digits {n : Nat} {c : Char} (h : c ∈ Double.digits n) :
    isNumeral c = true := by
  have hdigit := Nat.isDigit_of_mem_toDigits (by decide) (by decide) h
  simp [isNumeral, hdigit]

lemma isNumeral_of_mem_renderInt {i : Int} {c : Char} (h : c ∈ renderInt i) :
    isNumeral c = true := by
  cases i with
  | ofNat n => exact isNumeral_of_mem_digits h
  | negSucc n =>
    rcases List.mem_cons.1 h with rfl | h
    · rfl
    · exact isNumeral_of_mem_digits h

lemma isNumeral_of_mem_renderDecimal {d : Nat} {k : Int} {c : Char}
    (h : c ∈ Double.renderDecimal d k) : isNumeral c = true := by
  have htake {n : Nat} (h : c ∈ (Double.digits d).take n) : isNumeral c = true :=
    isNumeral_of_mem_digits (List.mem_of_mem_take h)
  have hdrop {n : Nat} (h : c ∈ (Double.digits d).drop n) : isNumeral c = true :=
    isNumeral_of_mem_digits (List.mem_of_mem_drop h)
  have hzeros {n : Nat} (h : c ∈ List.replicate n '0') : isNumeral c = true := by
    rw [List.eq_of_mem_replicate h]
    rfl
  simp only [Double.renderDecimal] at h
  split at h
  · simp only [List.mem_append, List.mem_cons] at h
    rcases h with (h | h) | rfl | rfl | h
    · exact htake h
    · split at h
      · cases h
      · rcases List.mem_cons.1 h with rfl | h
        · rfl
        · exact hdrop h
    · rfl
    · split <;> rfl
    · exact isNumeral_of_mem_digits h
  split at h
  · simp only [List.mem_append, List.mem_cons, List.not_mem_nil, or_false] at h
    rcases h with (h | h) | rfl | rfl
    · exact isNumeral_of_mem_digits h
    · exact hzeros h
    · rfl
    · rfl
  split at h
  · simp only [List.mem_append, List.mem_cons] at h
    rcases h with h | rfl | h
    · exact htake h
    · rfl
    · exact hdrop h
  · simp only [List.mem_append, List.mem_cons] at h
    rcases h with rfl | rfl | h | h
    · rfl
    · rfl
    · exact hzeros h
    · exact isNumeral_of_mem_digits h

lemma isNumeral_of_mem_render {x : Double} {c : Char} (h : c ∈ x.render) :
    isNumeral c = true := by
  have hbody (h : c ∈ if x.isZero then ['0', '.', '0'] else
      Double.renderDecimal x.shortest.1 x.shortest.2) : isNumeral c = true := by
    split at h
    · simp only [List.mem_cons, List.not_mem_nil, or_false] at h
      rcases h with rfl | rfl | rfl <;> rfl
    · exact isNumeral_of_mem_renderDecimal h
  simp only [Double.render] at h
  split at h
  · rcases List.mem_cons.1 h with rfl | h
    · rfl
    · exact hbody h
  · exact hbody h

lemma isBlank_of_isNumeral {c : Char} (h : isNumeral c = true) : Reader.isBlank c = false := by
  by_contra hblank
  simp only [Reader.isBlank, Bool.not_eq_false, Bool.or_eq_true, decide_eq_true_eq] at hblank
  rcases hblank with ((rfl | rfl) | rfl) | rfl <;> revert h <;> decide

lemma opens_of_isNumeral {text : List Char} (hne : text ≠ [])
    (h : ∀ c ∈ text, isNumeral c = true) : Opens text := by
  obtain ⟨c, text, rfl⟩ := List.exists_cons_of_ne_nil hne
  have hc := h c List.mem_cons_self
  refine ⟨c, text, rfl, isBlank_of_isNumeral hc, ?_, ?_⟩
  · rintro rfl
    revert hc
    decide
  · rintro rfl
    revert hc
    decide

/-! ### Numbers in texts -/

namespace Reader

/-- A text of such characters is read as a number. -/
lemma value?_numeral {c : Char} (hc : isNumeral c = true) (fuel depth : Nat) (text : List Char) :
    value? (fuel + 1) depth (c :: text) =
      if c = '-' then number? true text else number? false (c :: text) := by
  rw [value?, skip_cons (isBlank_of_isNumeral hc)]
  split
  case h_5 heq =>
    cases heq
    rfl
  case h_8 hminus _ _ =>
    refine (if_neg ?_).symm
    rintro rfl
    exact hminus text rfl
  all_goals
    rename_i heq
    cases heq
    exact absurd hc (by decide)

section Numerals

variable {text : List Char} (hne : text ≠ []) (htext : ∀ c ∈ text, isNumeral c = true)
include hne htext

/-- A number is read wherever it stands, and what may stand behind it is left. -/
lemma value?_append {rest : List Char} (hrest : Ends rest) (fuel depth : Nat) :
    value? (fuel + 1) depth (text ++ rest) = (value? 1 0 text).map (Prod.map id (· ++ rest)) := by
  obtain ⟨c, text, rfl⟩ := List.exists_cons_of_ne_nil hne
  have hc := htext c List.mem_cons_self
  rw [List.cons_append, value?_numeral hc, value?_numeral hc, ← List.cons_append]
  split
  · exact number?_append hrest true text
  · exact number?_append hrest false (c :: text)

lemma value?_eq (fuel depth : Nat) : value? (fuel + 1) depth text = value? 1 0 text := by
  obtain ⟨c, text, rfl⟩ := List.exists_cons_of_ne_nil hne
  have hc := htext c List.mem_cons_self
  rw [value?_numeral hc, value?_numeral hc]

lemma suffix_of_value? {after : List Char} {v : Value} (h : value? 1 0 text = some (v, after)) :
    after <:+ text := by
  obtain ⟨c, text, rfl⟩ := List.exists_cons_of_ne_nil hne
  rw [value?_numeral (htext c List.mem_cons_self)] at h
  split at h
  · exact (number?_suffix h).trans (List.suffix_cons c text)
  · exact number?_suffix h

end Numerals

lemma value?_renderInt {i : Int} (hlow : -(Nat.pow 2 63 : Int) ≤ i) (hhigh : i < Nat.pow 2 64) :
    value? 1 0 (renderInt i) = some (.int i, []) := by
  cases i with
  | ofNat n =>
    have hlt : n < Nat.pow 2 64 := Int.ofNat_lt.1 hhigh
    have hdigits {c : Char} (hc : c ∈ Double.digits n) : c.isDigit = true :=
      Nat.isDigit_of_mem_toDigits (by decide) (by decide) hc
    obtain ⟨c, text, heq⟩ : ∃ c text, Double.digits n = c :: text :=
      List.exists_cons_of_ne_nil Nat.toDigits_ne_nil
    have hmem : c ∈ Double.digits n := heq ▸ List.mem_cons_self
    have hminus : c ≠ '-' := by
      rintro rfl
      exact absurd (hdigits hmem) (by decide)
    rw [renderInt, heq, value?_numeral (isNumeral_of_mem_digits hmem), if_neg hminus, ← heq,
      number?_digits false hlt]
    rfl
  | negSucc n =>
    have hle : n + 1 ≤ Nat.pow 2 63 := by
      rw [Int.negSucc_eq] at hlow
      omega
    have hinteger : integer? true (n + 1) [] = some (.int (.negSucc n)) := by
      rw [integer?, if_neg (by simp), if_pos ⟨rfl, Nat.succ_ne_zero n, hle⟩]
      rfl
    rw [renderInt, value?_numeral rfl, if_pos rfl,
      number?_digits true (Nat.lt_of_le_of_lt hle (by decide)), hinteger]
    rfl

lemma givesBack_of_value? {v : Value} (hne : v.compact ≠ [])
    (hnumeral : ∀ c ∈ v.compact, isNumeral c = true)
    (hread : value? 1 0 v.compact = some (v, [])) (depth : Nat) : GivesBack depth v := by
  intro fuel rest hrest hfuel
  have hlength := List.length_pos_of_ne_nil hne
  obtain ⟨fuel, rfl⟩ := Nat.exists_eq_add_of_le' (show 1 ≤ fuel by omega)
  rw [value?_append hne hnumeral hrest, hread]
  rfl

lemma renderInt_ne_nil (i : Int) : renderInt i ≠ [] := by
  cases i with
  | ofNat n => exact Nat.toDigits_ne_nil
  | negSucc n => exact List.cons_ne_nil _ _

lemma givesBack_int {i : Int} (hlow : -(Nat.pow 2 63 : Int) ≤ i) (hhigh : i < Nat.pow 2 64)
    (depth : Nat) : GivesBack depth (.int i) := by
  refine givesBack_of_value? ?_ ?_ ?_ depth
  · exact renderInt_ne_nil i
  · exact fun c hc => isNumeral_of_mem_renderInt hc
  · exact value?_renderInt hlow hhigh

/-- The text of a number that reads back is read to its end. -/
lemma value?_render {x : Double} (hx : x.ReadsBack) :
    x.render ≠ [] ∧ value? 1 0 x.render = some (.double x, []) := by
  have htext : (Value.double x).toText.toList = x.render := by simp [toText, compact]
  rw [Double.ReadsBack, ofText?, htext] at hx
  obtain ⟨⟨v, after⟩, hread, hx⟩ := Option.bind_eq_some_iff.1 hx
  have hne : x.render ≠ [] := by
    intro hnil
    rw [hnil] at hread
    cases hread
  have hnumeral (c : Char) (hc : c ∈ x.render) := isNumeral_of_mem_render hc
  rw [value?_eq hne hnumeral] at hread
  have hsuffix := suffix_of_value? hne hnumeral hread
  -- behind the number only blanks could be left, and there are none in its text
  cases after with
  | nil =>
    cases hx
    exact ⟨hne, hread⟩
  | cons c after =>
    have hc := hnumeral c (hsuffix.subset List.mem_cons_self)
    simp [skip_cons (isBlank_of_isNumeral hc)] at hx

lemma givesBack_double {x : Double} (hx : x.ReadsBack) (depth : Nat) :
    GivesBack depth (.double x) := by
  obtain ⟨hne, hread⟩ := value?_render hx
  refine givesBack_of_value? ?_ ?_ ?_ depth
  · exact hne
  · exact fun c hc => isNumeral_of_mem_render hc
  · exact hread

end Reader

lemma Exact.opens {n : Nat} {v : Value} (h : Exact n v) : Opens v.compact := by
  cases h with
  | null n => exact (Plain.null n).opens
  | bool n b => exact (Plain.bool n b).opens
  | int n hlow hhigh =>
    exact opens_of_isNumeral (Reader.renderInt_ne_nil _) fun c hc => isNumeral_of_mem_renderInt hc
  | double n hx =>
    exact opens_of_isNumeral (Reader.value?_render hx).1 fun c hc => isNumeral_of_mem_render hc
  | str n s => exact quote_opens s
  | arr _ => exact arr_opens _
  | obj _ => exact toValue_opens _

/-- A value is read back from its text if its numbers are. -/
theorem Exact.givesBack {n depth : Nat} {v : Value} (h : Exact n v) (hdepth : n ≤ depth) :
    Reader.GivesBack depth v := by
  induction h generalizing depth with
  | null n => exact Reader.givesBack_null depth
  | bool n b => exact Reader.givesBack_bool depth b
  | int n hlow hhigh => exact Reader.givesBack_int hlow hhigh depth
  | double n hx => exact Reader.givesBack_double hx depth
  | str n s => exact Reader.givesBack_str depth s
  | arr hitems ih =>
    obtain ⟨depth, rfl⟩ := Nat.exists_eq_add_of_le' (show 1 ≤ depth by omega)
    exact Reader.givesBack_arr (fun v hv => (hitems v hv).opens) fun v hv => ih v hv (by omega)
  | obj hfields ih =>
    obtain ⟨depth, rfl⟩ := Nat.exists_eq_add_of_le' (show 1 ≤ depth by omega)
    exact Reader.givesBack_obj fun e he => ih e he (by omega)

/-- The text of such a value stands for it. -/
theorem Exact.ofText?_toText {v : Value} (h : Exact 127 v) : ofText? v.toText = some v :=
  (h.givesBack (Nat.le_refl 127)).ofText?_toText

end Value

/-- A document is the one that a store on disk gives back if its numbers read back. -/
theorem Store.legible_of_exact {doc : Fields} (h : ∀ e ∈ doc.entries, Value.Exact 126 e.2) :
    Legible doc :=
  legible_of_givesBack fun e he => (h e he).givesBack (Nat.le_refl 126)

end Synchrony
