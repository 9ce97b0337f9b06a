import Synchrony.Proofs.Yaml.Literal
import Synchrony.Proofs.Yaml.Quoted

/-!
# Written texts are printable

No character is written that a YAML text may not hold: what is not written as itself has an escape of
printable characters.
-/

namespace Synchrony.Yaml

variable {k n width : Nat} {cs : List Char} {c : Char}

lemma isPrintable_of_isWritable (hc : isWritable c = true) : isPrintable c = true := by
  simp only [isWritable, Bool.or_eq_true, Bool.and_eq_true, decide_eq_true_eq, beq_iff_eq] at hc
  simp only [isPrintable, Bool.or_eq_true, Bool.and_eq_true, decide_eq_true_eq, beq_iff_eq]
  omega

lemma all_isPrintable (h : cs.all isWritable = true) : cs.all isPrintable = true := by
  rw [List.all_eq_true] at h ⊢
  exact fun c hc => isPrintable_of_isWritable (h c hc)

lemma all_blanks (k : Nat) : (blanks k).all isPrintable = true := by
  rw [List.all_eq_true]
  intro c hc
  rw [List.eq_of_mem_replicate hc]
  rfl

lemma all_indented (begins : Bool) (h : cs.all isPrintable = true) :
    (indented k begins cs).all isPrintable = true := by
  induction cs generalizing begins with
  | nil => rfl
  | cons c cs ih =>
    rw [List.all_cons, Bool.and_eq_true] at h
    rw [indented]
    split
    · rw [List.all_cons, h.1, ih true h.2]
      rfl
    · rw [List.all_append, List.all_cons, h.1, ih false h.2]
      split
      · rw [all_blanks]
        rfl
      · rfl

lemma all_literalBlock (h : cs.all isWritable = true) : (literalBlock k cs).all isPrintable = true := by
  have hheader : (blockHeader cs).all isPrintable = true := by
    rw [blockHeader_eq]
    cases beginsBlank cs <;> cases chompingOf cs <;> rfl
  have hend : (if cs.getLast?.any isBreak then [] else ['\n']).all isPrintable = true := by
    split <;> rfl
  rw [literalBlock, List.all_append, List.all_cons, List.all_append, hheader, all_indented true (all_isPrintable h), hend]
  rfl

lemma all_singleQuoted (h : cs.all isWritable = true) : (singleQuoted k cs).all isPrintable = true := by
  have hchars : (cs.flatMap singleQuotedChar ++ ['\'']).all isPrintable = true := by
    have hall := all_isPrintable h
    rw [List.all_append, List.all_flatMap, Bool.and_eq_true]
    rw [List.all_eq_true] at hall ⊢
    refine ⟨fun c hc => ?_, rfl⟩
    by_cases hquote : c = '\''
    · rw [hquote]
      rfl
    · simp [singleQuotedChar, hquote, hall c hc]
  rw [singleQuoted_eq, List.all_cons, singleRest, all_indented false hchars]
  rfl

lemma isPrintable_toUpper : ∀ d < 16, isPrintable d.digitChar.toUpper = true := by decide

lemma all_toDigits (n : Nat) : ((Nat.toDigits 16 n).map Char.toUpper).all isPrintable = true := by
  induction n using Nat.strongRecOn with
  | ind n ih =>
    rw [Nat.toDigits_eq_if (by decide)]
    split
    · rename_i hlt
      rw [List.map_singleton, List.all_cons, isPrintable_toUpper n hlt]
      rfl
    · rw [List.map_append, List.all_append, ih (n / 16) (by omega), List.map_singleton, List.all_cons,
        isPrintable_toUpper _ (Nat.mod_lt n (by decide))]
      rfl

lemma all_hexDigits (width n : Nat) : (hexDigits width n).all isPrintable = true := by
  rw [hexDigits, List.all_append, all_toDigits, Bool.and_true, List.all_eq_true]
  intro c hc
  rw [List.eq_of_mem_replicate hc]
  rfl

lemma all_doubleQuotedChar (c : Char) : (doubleQuotedChar c).all isPrintable = true := by
  have hescaped := escaped_doubleQuotedChar c
  generalize doubleQuotedChar c = written at hescaped
  cases hescaped with
  | itself hwritable hletter =>
    rw [List.all_cons, isPrintable_of_isWritable hwritable]
    rfl
  | letter m h =>
    rw [List.all_cons, List.all_cons, (escape?_letter h).1]
    rfl
  | number m width hm hwidth =>
    rw [List.all_cons, List.all_cons, all_hexDigits]
    simp only [List.mem_cons, List.not_mem_nil, or_false, Prod.mk.injEq] at hm
    rcases hm with ⟨rfl, rfl⟩ | ⟨rfl, rfl⟩ | ⟨rfl, rfl⟩ <;> rfl

lemma all_doubleQuoted (cs : List Char) : (doubleQuoted cs).all isPrintable = true := by
  have hchars : (cs.flatMap doubleQuotedChar).all isPrintable = true := by
    rw [List.all_flatMap, List.all_eq_true]
    exact fun c _ => all_doubleQuotedChar c
  rw [doubleQuoted, List.cons_append, List.all_cons, List.all_append, hchars]
  rfl

/-- A text is written in printable characters. -/
lemma all_written (k : Nat) (text : String) : (written k text).all isPrintable = true := by
  have hstyled := styled_written k text
  generalize styleOf text = style, written k text = lines at hstyled
  cases hstyled with
  | plain hfits =>
    simp only [fitsPlain, Bool.and_eq_true] at hfits
    rw [List.all_append, all_isPrintable hfits.1.1.1.1.1]
    rfl
  | literal hfits =>
    simp only [fitsBlock, isClean, Bool.and_eq_true] at hfits
    exact all_literalBlock hfits.1.1
  | single hfits =>
    simp only [fitsSingle, isClean, Bool.and_eq_true] at hfits
    rw [List.all_append, all_singleQuoted hfits.1.1]
    rfl
  | double =>
    rw [List.all_append, all_doubleQuoted]
    rfl

end Synchrony.Yaml
