import Mathlib.Tactic.Common
import Synchrony.Yaml.Written

/-!
# Plain scalars are read back

A text is written in one of four ways (`Styled`), and whichever it is, the scanner reads the text back and
stops where the next line begins. Here are the texts that are written plain, and the names of settings.
-/

namespace Synchrony.Yaml

/-! ### Styles -/

/-- What is known of a text by the way it is written. -/
inductive Styled (k : Nat) (text : String) : ScalarStyle → List Char → Prop where
  | plain (hfits : fitsPlain text.toList = true) (hclear : isAmbiguous text = false) :
      Styled k text .plain (text.toList ++ ['\n'])
  | literal (hfits : fitsBlock text.toList = true) (hne : text.toList ≠ []) :
      Styled k text .literal (literalBlock k text.toList)
  | single (hfits : fitsSingle text.toList = true) (hline : text.toList.contains '\n' = false) :
      Styled k text .quoted (singleQuoted k text.toList ++ ['\n'])
  | double : Styled k text .quoted (doubleQuoted text.toList ++ ['\n'])

theorem styled_written (k : Nat) (text : String) : Styled k text (styleOf text) (written k text) := by
  rw [written]
  cases hlines : text.toList.contains '\n' with
  | true =>
    have hne : text.toList ≠ [] := by
      intro hnil
      rw [hnil] at hlines
      cases hlines
    cases hfits : fitsBlock text.toList with
    | true =>
      have hstyle : styleOf text = .literal := by simp only [styleOf, hlines, hfits, if_true]
      rw [hstyle]
      exact .literal hfits hne
    | false =>
      have hstyle : styleOf text = .quoted := by
        simp only [styleOf, hlines, hfits, if_true, Bool.false_eq_true, if_false]
      rw [hstyle]
      exact .double
  | false =>
    cases hfits : fitsPlain text.toList && !isAmbiguous text with
    | true =>
      have hstyle : styleOf text = .plain := by
        simp only [styleOf, hlines, hfits, if_true, Bool.false_eq_true, if_false]
      rw [Bool.and_eq_true, Bool.not_eq_true'] at hfits
      rw [hstyle]
      exact .plain hfits.1 hfits.2
    | false =>
      have hstyle : styleOf text = .quoted := by
        simp only [styleOf, hlines, hfits, Bool.false_eq_true, if_false]
      rw [hstyle]
      cases hsingle : fitsSingle text.toList with
      | true => exact .single hsingle hlines
      | false => exact .double

/-! ### The next line -/

/-- A line that follows begins with the letter of a name or with a dash, if it is not the end of the text. -/
def Starts (rest : List Char) : Prop := ∀ c ∈ rest.head?, c.isLower = true ∨ c = '-'

lemma starts_nil : Starts [] := nofun

lemma starts_cons {c : Char} (h : c.isLower = true ∨ c = '-') (rest : List Char) : Starts (c :: rest) := by
  intro d hd
  cases hd
  exact h

/-- None of these characters begins a line that follows. -/
lemma Starts.peek_ne {rest : List Char} (h : Starts rest) {d : Char}
    (hd : (d.isLower || d = '-' || d = '\x00') = false) (l col i : Nat) : (Cursor.mk rest l col i).peek ≠ d := by
  rintro rfl
  cases rest with
  | nil => cases hd
  | cons c rest =>
    rcases h c rfl with hc | hc <;> simp [Cursor.peek, hc] at hd

lemma Starts.isBlank_peek {rest : List Char} (h : Starts rest) (l col i : Nat) :
    isBlank (Cursor.mk rest l col i).peek = false := by
  simp [isBlank, h.peek_ne (d := ' ') rfl, h.peek_ne (d := '\t') rfl]

lemma Starts.isBreak_peek {rest : List Char} (h : Starts rest) (l col i : Nat) :
    isBreak (Cursor.mk rest l col i).peek = false := by
  simp [isBreak, h.peek_ne (d := '\r') rfl, h.peek_ne (d := '\n') rfl, h.peek_ne (d := '\u0085') rfl,
    h.peek_ne (d := '\u2028') rfl, h.peek_ne (d := '\u2029') rfl]

/-! ### Characters -/

variable {indent : Int} {n l col i fuel : Nat} {rest cs : List Char} {f : Fold} {c : Char}

@[simp] lemma blanks_zero : blanks 0 = [] := rfl

@[simp] lemma blanks_succ (n : Nat) : blanks (n + 1) = ' ' :: blanks n := List.replicate_succ

lemma peek_mk (rest : List Char) (l col i : Nat) : (Cursor.mk rest l col i).peek = rest.headD '\x00' := rfl

@[simp] lemma peek_cons (c : Char) (rest : List Char) (l col i : Nat) :
    (Cursor.mk (c :: rest) l col i).peek = c := rfl

@[simp] lemma peek_cons_succ (c : Char) (rest : List Char) (l col i k : Nat) :
    (Cursor.mk (c :: rest) l col i).peek (k + 1) = (Cursor.mk rest l col i).peek k := rfl

@[simp] lemma skip_cons (c : Char) (rest : List Char) (l col i : Nat) :
    (Cursor.mk (c :: rest) l col i).skip = ⟨rest, l, col + 1, i + 1⟩ := rfl

@[simp] lemma atEnd_cons (c : Char) (rest : List Char) (l col i : Nat) :
    (Cursor.mk (c :: rest) l col i).atEnd = false := rfl

@[simp] lemma readBreak_newline (rest : List Char) (l col i : Nat) :
    (Cursor.mk ('\n' :: rest) l col i).readBreak = (['\n'], ⟨rest, l + 1, 0, i + 1⟩) := rfl

/-- Behind the first column there are no document marks. -/
lemma atDocumentMark_of_pos (hcol : 0 < col) : (Cursor.mk rest l col i).atDocumentMark = false := by
  simp [Cursor.atDocumentMark, Cursor.atMark, Nat.ne_of_gt hcol]

/-- No character that is written as itself is NUL. -/
lemma isBreakZ_of_isWritable (hc : isWritable c = true) (hbreak : isBreak c = false) : isBreakZ c = false := by
  have hnul : c ≠ '\x00' := by
    rintro rfl
    cases hc
  simp [isBreakZ, hbreak, hnul]

/-- Among the characters that are written as themselves only the space is blank. -/
lemma isBlankZ_of_isWritable (hc : isWritable c = true) (hbreak : isBreak c = false) :
    isBlankZ c = decide (c = ' ') := by
  have htab : c ≠ '\t' := by
    rintro rfl
    cases hc
  simp [isBlankZ, isBlank, isBreakZ_of_isWritable hc hbreak, htab]

/-- A line break that is written as itself counts as itself. -/
lemma readBreak_of_isWritable (hc : isBreak c = true) (hwritable : isWritable c = true) :
    (Cursor.mk (c :: cs) l col i).readBreak = ([c], ⟨cs, l + 1, 0, i + 1⟩) := by
  simp only [isBreak, Bool.or_eq_true, decide_eq_true_eq] at hc
  rcases hc with (((rfl | rfl) | rfl) | rfl) | rfl
  · cases hwritable
  · rfl
  · cases hwritable
  · rfl
  · rfl

@[simp] lemma anyNeighbours_singleton (test : Char → Char → Bool) (c : Char) :
    anyNeighbours test [c] = false := rfl

lemma anyNeighbours_cons (test : Char → Char → Bool) (c d : Char) (cs : List Char) :
    anyNeighbours test (c :: d :: cs) = (test c d || anyNeighbours test (d :: cs)) := rfl

lemma anyNeighbours_of_cons {test : Char → Char → Bool} (h : anyNeighbours test (c :: cs) = false) :
    anyNeighbours test cs = false := by
  cases cs with
  | nil => rfl
  | cons d cs =>
    rw [anyNeighbours_cons, Bool.or_eq_false_iff] at h
    exact h.2

lemma hasMarks_cons (c d : Char) (cs : List Char) : hasMarks (c :: d :: cs) =
    ((c = ':' && isBlankZ d) || (isBlankZ c && d = '#') || hasMarks (d :: cs)) := by
  rw [hasMarks, anyNeighbours_cons, hasMarks, List.getLast?_cons_cons]
  ac_rfl

lemma hasMarks_of_cons (h : hasMarks (c :: cs) = false) : hasMarks cs = false := by
  cases cs with
  | nil => rfl
  | cons d cs =>
    rw [hasMarks_cons, Bool.or_eq_false_iff] at h
    exact h.2

/-- No colon of the text ends a word, be it in front of another character or at the end of the line. -/
lemma colon_of_hasMarks (h : hasMarks (c :: cs) = false) (tail : List Char) :
    (c = ':' && isBlankZ ((cs ++ '\n' :: tail).headD '\x00')) = false := by
  cases cs with
  | nil =>
    simp only [hasMarks, List.getLast?_singleton, Bool.or_eq_false_iff] at h
    have hne : c ≠ ':' := by simpa using h.1
    simp [hne]
  | cons d cs =>
    rw [hasMarks_cons, Bool.or_eq_false_iff, Bool.or_eq_false_iff] at h
    exact h.1.1

/-- What comes behind a line break is indented. -/
lemma indented_append (k : Nat) (begins : Bool) (cs tail : List Char) : indented k begins (cs ++ tail) =
    indented k begins cs ++ indented k ((cs.getLast?.map isBreak).getD begins) tail := by
  induction cs generalizing begins with
  | nil => rfl
  | cons c cs ih =>
    have hlast : ((c :: cs).getLast?.map isBreak).getD begins =
        (cs.getLast?.map isBreak).getD (isBreak c) := by
      cases cs with
      | nil => rfl
      | cons d cs =>
        rw [List.getLast?_cons_cons, List.getLast?_eq_some_getLast (List.cons_ne_nil d cs)]
        rfl
    rw [hlast, List.cons_append, indented, indented]
    cases hc : isBreak c <;> simp [ih]

namespace Fold

@[simp] lemma broken_close (f : Fold) : f.close.broken = false := rfl

@[simp] lemma broken_push (f : Fold) (c : Char) : (f.push c).broken = false := rfl

@[simp] lemma blanks_push (f : Fold) (c : Char) : (f.push c).blanks = [] := rfl

@[simp] lemma text_close_close (f : Fold) : f.close.close.text = f.close.text := by simp [close, gap]

@[simp] lemma text_close_push (f : Fold) (c : Char) : (f.push c).close.text = c :: f.close.text := by
  simp [push, close, gap]

/-- A blank counts if more text follows on its line. -/
lemma text_close_blank (hf : f.broken = false) (c : Char) : (f.blank c).close.text = c :: f.close.text := by
  simp [blank, close, gap, hf]

lemma broken_blank (f : Fold) (c : Char) : (f.blank c).broken = f.broken := by
  rw [blank]
  split <;> rfl

lemma text_close_of_blanks (hf : f.broken = false) (hblanks : f.blanks = []) : f.close.text = f.text := by
  simp [close, gap, hf, hblanks]

/-- Every line break but a line feed counts as itself, if there are no blanks in front of it. -/
lemma text_close_lineBreak (hblanks : f.broken = false → f.blanks = [] ∧ f.moreBreaks = [])
    (hfirst : f.broken = true → f.firstBreak ≠ ['\n']) (hc : c ≠ '\n') :
    (f.lineBreak [c]).close.text = c :: f.close.text := by
  cases hf : f.broken with
  | false => simp [lineBreak, close, gap, hf, hblanks hf, hc]
  | true => simp [lineBreak, close, gap, hf, hfirst hf]

lemma broken_lineBreak (f : Fold) (b : List Char) : (f.lineBreak b).broken = true := by
  cases hf : f.broken <;> simp [lineBreak, hf]

end Fold

/-! ### Plain scalars -/

/-- The blanks in front of a line that is not indented as deep end a plain scalar. -/
lemma plainGap_blanks (hrest : Starts rest) (hn : (col + n : Nat) < indent) (hfuel : n + 1 ≤ fuel)
    (hf : f.broken = true) : plainGap false indent fuel ⟨blanks n ++ rest, l, col, i⟩ f =
      some (f, ⟨rest, l, col + n, i + n⟩) := by
  induction n generalizing fuel col i with
  | zero =>
    obtain ⟨fuel, rfl⟩ := Nat.exists_eq_add_of_le' hfuel
    have hcol : (col : Int) < indent := hn
    simp [plainGap, hrest.isBlank_peek, hrest.isBreak_peek, hcol]
  | succ n ih =>
    obtain ⟨fuel, rfl⟩ := Nat.exists_eq_add_of_le' (show 1 ≤ fuel by omega)
    have hblank : isBlank ' ' = true := rfl
    rw [plainGap, blanks_succ, List.cons_append]
    simp only [peek_cons, hblank, if_true, skip_cons, Fold.blank, hf]
    rw [if_neg (by simp), ih (by omega) (by omega)]
    congr 3 <;> omega

/-- A plain scalar with this text (reversed) ends with its line, and the next one comes after blanks. -/
def EndsLine (read : Option (Fold × Cursor)) (text rest : List Char) (line column : Nat) : Prop :=
  ∃ f i, read = some (f, ⟨rest, line + 1, column, i⟩) ∧ f.text = text ∧ f.broken = true

section Plain

variable (hrest : Starts rest) (hn : (n : Int) < indent)
include hrest hn

/-- The next line ends a plain scalar that is indented deeper. -/
lemma plainChars_newline (hfuel : n + 3 ≤ fuel) (hf : f.broken = false) (hblanks : f.blanks = []) :
    EndsLine (plainChars false indent fuel ⟨'\n' :: (blanks n ++ rest), l, col, i⟩ f) f.close.text
      rest l n := by
  obtain ⟨fuel, rfl⟩ := Nat.exists_eq_add_of_le' (show 2 ≤ fuel by omega)
  have hblankZ : isBlankZ '\n' = true := rfl
  have hblank : isBlank '\n' = false := rfl
  have hbreak : isBreak '\n' = true := rfl
  have hline := f.broken_lineBreak ['\n']
  rw [plainChars]
  simp only [peek_cons, hblankZ, if_true, atEnd_cons, Bool.false_eq_true, if_false]
  rw [plainGap]
  simp only [peek_cons, hblank, hbreak, Bool.false_eq_true, if_false, if_true, readBreak_newline]
  rw [plainGap_blanks hrest (by simpa using hn) (by omega) hline, Nat.zero_add]
  exact ⟨_, _, rfl, by simp [Fold.lineBreak, hf, Fold.text_close_of_blanks hf hblanks], hline⟩

omit hrest hn in
/-- A character that neither is blank nor ends the scalar belongs to its text. -/
lemma plainChars_cons (hc : isBlankZ c = false)
    (hcolon : (c = ':' && isBlankZ (cs.headD '\x00')) = false) :
    plainChars false indent (fuel + 1) ⟨c :: cs, l, col, i⟩ f =
      plainChars false indent fuel ⟨cs, l, col + 1, i + 1⟩ (f.push c) := by
  rw [plainChars]
  simp only [peek_mk, List.headD_cons, hc, Bool.false_eq_true, if_false, Bool.false_and, endsPlain,
    peek_cons_succ, Bool.or_false, skip_cons]
  exact if_neg (ne_true_of_eq_false hcolon)

omit hrest hn in
lemma plainGap_space (hf : f.broken = false) :
    plainGap false indent (fuel + 1) ⟨' ' :: cs, l, col, i⟩ f =
      plainGap false indent fuel ⟨cs, l, col + 1, i + 1⟩ (f.blank ' ') := by
  have hblank : isBlank ' ' = true := rfl
  rw [plainGap]
  simp [hblank, hf]

omit hrest hn in
/-- A word begins with any character but a blank and a number sign. -/
lemma plainGap_cons (hc : isBlankZ c = false) (hsign : c ≠ '#') (hcol : indent ≤ col) (hpos : 0 < col) :
    plainGap false indent (fuel + 2) ⟨c :: cs, l, col, i⟩ f =
      plainChars false indent fuel ⟨c :: cs, l, col, i⟩ f := by
  simp only [isBlankZ, isBreakZ, Bool.or_eq_false_iff] at hc
  rw [plainGap]
  simp only [peek_cons, hc, Bool.false_eq_true, if_false, Bool.not_false, Bool.true_and]
  rw [if_neg (by simpa using hcol), plainWord]
  simp [atDocumentMark_of_pos hpos, hsign]

/--
A plain scalar is read to the end of its line, from inside a word or, if the scalar does not end there,
from between two words.
-/
lemma endsLine_plain (hcs : ∀ c ∈ cs, isWritable c = true ∧ isBreak c = false)
    (hmarks : hasMarks cs = false) (hlast : cs.getLast? ≠ some ' ') (hcol : indent ≤ col) (hpos : 0 < col)
    (hfuel : 3 * cs.length + n + 3 ≤ fuel) (hf : f.broken = false) :
    ((cs = [] → f.blanks = []) →
      EndsLine (plainChars false indent fuel ⟨cs ++ '\n' :: (blanks n ++ rest), l, col, i⟩ f)
        (cs.reverse ++ f.close.text) rest l n) ∧
    (cs ≠ [] → cs.head? ≠ some '#' →
      EndsLine (plainGap false indent fuel ⟨cs ++ '\n' :: (blanks n ++ rest), l, col, i⟩ f)
        (cs.reverse ++ f.close.text) rest l n) := by
  induction cs generalizing fuel col i f with
  | nil => exact ⟨fun hblanks => plainChars_newline hrest hn (by simpa using hfuel) hf (hblanks rfl), nofun⟩
  | cons c cs ih =>
    rw [List.length_cons] at hfuel
    obtain ⟨fuel, rfl⟩ := Nat.exists_eq_add_of_le' (show 3 ≤ fuel by omega)
    rw [List.forall_mem_cons] at hcs
    have hblankZ := isBlankZ_of_isWritable hcs.1.1 hcs.1.2
    have htail := hasMarks_of_cons hmarks
    have hlast' : cs.getLast? ≠ some ' ' := by
      cases cs with
      | nil => simp
      | cons d cs => rwa [List.getLast?_cons_cons] at hlast
    by_cases hspace : c = ' '
    · obtain rfl := hspace
      obtain ⟨d, cs, rfl⟩ : ∃ d cs', cs = d :: cs' := by
        cases cs with
        | nil => exact absurd rfl hlast
        | cons d cs => exact ⟨d, cs, rfl⟩
      have hsign : (d :: cs).head? ≠ some '#' := by
        rw [hasMarks_cons, Bool.or_eq_false_iff, Bool.or_eq_false_iff] at hmarks
        simpa [isBlankZ, isBlank] using hmarks.1.2
      -- both from inside a word and from between words the space is one more blank
      have hgap (fuel : Nat) (hfuel : 3 * (d :: cs).length + n + 3 ≤ fuel) :
          EndsLine (plainGap false indent (fuel + 1)
            ⟨' ' :: (d :: cs ++ '\n' :: (blanks n ++ rest)), l, col, i⟩ f)
            ((' ' :: d :: cs).reverse ++ f.close.text) rest l n := by
        rw [plainGap_space hf]
        rw [List.reverse_cons, List.append_assoc, List.singleton_append, ← Fold.text_close_blank hf]
        exact (ih hcs.2 htail hlast' (by omega) (Nat.succ_pos col) hfuel
          (by rw [Fold.broken_blank, hf])).2 (by simp) hsign
      refine ⟨fun _ => ?_, fun _ _ => hgap _ (by omega)⟩
      rw [plainChars, List.cons_append]
      simp only [peek_cons, hblankZ, decide_true, if_true, atEnd_cons, Bool.false_eq_true, if_false]
      exact hgap _ (by omega)
    · rw [decide_eq_false hspace] at hblankZ
      have hchars (fuel : Nat) (hfuel : 3 * cs.length + n + 3 ≤ fuel) :
          EndsLine (plainChars false indent (fuel + 1)
            ⟨c :: (cs ++ '\n' :: (blanks n ++ rest)), l, col, i⟩ f)
            ((c :: cs).reverse ++ f.close.text) rest l n := by
        rw [plainChars_cons hblankZ (colon_of_hasMarks hmarks _)]
        rw [List.reverse_cons, List.append_assoc, List.singleton_append, ← Fold.text_close_push]
        exact (ih hcs.2 htail hlast' (by omega) (Nat.succ_pos col) hfuel (Fold.broken_push f c)).1
          fun _ => Fold.blanks_push f c
      refine ⟨fun _ => hchars _ (by omega), fun _ hsign => ?_⟩
      rw [List.cons_append, plainGap_cons hblankZ (by simpa using hsign) hcol hpos]
      exact hchars _ (by omega)

/-- A text that can be written plain is read back from the rest of a line. -/
lemma readPlain_line (hcs : fitsPlain cs = true) (hne : cs ≠ []) (hcol : indent ≤ col) (hpos : 0 < col) :
    ∃ i', readPlain false indent ⟨cs ++ '\n' :: (blanks n ++ rest), l, col, i⟩ =
      some (String.ofList cs, true, ⟨rest, l + 1, n, i'⟩) := by
  simp only [fitsPlain, Bool.and_eq_true, Bool.not_eq_true', List.all_eq_true, List.any_eq_false] at hcs
  obtain ⟨⟨⟨⟨⟨hwritable, hbreak⟩, hfirst⟩, hlast⟩, hbegins⟩, hmarks⟩ := hcs
  have hlast : cs.getLast? ≠ some ' ' := by
    intro h
    rw [h] at hlast
    cases hlast
  have hsign : (Cursor.mk (cs ++ '\n' :: (blanks n ++ rest)) l col i).peek ≠ '#' := by
    obtain ⟨c, cs, rfl⟩ := List.exists_cons_of_ne_nil hne
    rintro rfl
    simp [beginsMarked] at hbegins
  obtain ⟨g, i', hread, htext, hbroken⟩ : EndsLine
      (plainChars false indent (3 * (cs ++ '\n' :: (blanks n ++ rest)).length + 2)
        ⟨cs ++ '\n' :: (blanks n ++ rest), l, col, i⟩ {}) (cs.reverse ++ ({} : Fold).close.text) rest l n :=
    (endsLine_plain hrest hn (fun c hc => ⟨hwritable c hc, by simpa using hbreak c hc⟩) hmarks hlast hcol hpos
      (by simp [blanks]; omega) rfl).1 fun _ => rfl
  refine ⟨i', ?_⟩
  rw [readPlain, plainWord]
  simp only [atDocumentMark_of_pos hpos, hsign, decide_false, Bool.or_false, Bool.false_eq_true, if_false]
  rw [hread]
  simp [htext, hbroken, Fold.close, Fold.gap]

end Plain

/-! ### Names -/

/-- The characters of the name of a section or a setting. -/
def isKeyChar (c : Char) : Bool := c.isLower || c = '_'

/-- None of these characters belongs to a name. -/
lemma ne_of_isKeyChar (hc : isKeyChar c = true) {d : Char} (hd : isKeyChar d = false) : c ≠ d := by
  rintro rfl
  rw [hc] at hd
  cases hd

lemma isBlankZ_of_isKeyChar (hc : isKeyChar c = true) : isBlankZ c = false := by
  have hne (d : Char) (hd : isKeyChar d = false) : c ≠ d := ne_of_isKeyChar hc hd
  simp [isBlankZ, isBlank, isBreakZ, isBreak, hne ' ' rfl, hne '\t' rfl, hne '\r' rfl, hne '\n' rfl,
    hne '\u0085' rfl, hne '\u2028' rfl, hne '\u2029' rfl, hne '\x00' rfl]

/-- No document mark begins with the character of a name. -/
lemma atDocumentMark_of_isKeyChar (hc : isKeyChar c = true) :
    (Cursor.mk (c :: rest) l col i).atDocumentMark = false := by
  simp [Cursor.atDocumentMark, Cursor.atMark, ne_of_isKeyChar hc (d := '-') rfl,
    ne_of_isKeyChar hc (d := '.') rfl]

variable {name after : List Char} (hname : ∀ c ∈ name, isKeyChar c = true)
  (hafter : isBlankZ (after.headD '\x00') = true)
include hname hafter

lemma plainChars_name (indent : Int) (l col i : Nat) (hfuel : name.length + 1 ≤ fuel) (hf : f.broken = false)
    (hblanks : f.blanks = []) : ∃ g, plainChars false indent fuel ⟨name ++ ':' :: after, l, col, i⟩ f =
      some (g, ⟨':' :: after, l, col + name.length, i + name.length⟩) ∧
        g.text = name.reverse ++ f.close.text ∧ g.broken = false := by
  induction name generalizing fuel col i f with
  | nil =>
    obtain ⟨fuel, rfl⟩ := Nat.exists_eq_add_of_le' (show 1 ≤ fuel from hfuel)
    refine ⟨f, ?_, (Fold.text_close_of_blanks hf hblanks).symm, hf⟩
    have hcolon : isBlankZ ':' = false := rfl
    rw [List.headD_eq_head?_getD] at hafter
    rw [List.nil_append, plainChars]
    simp [hcolon, endsPlain, peek_mk, hafter]
  | cons c name ih =>
    rw [List.length_cons] at hfuel
    obtain ⟨fuel, rfl⟩ := Nat.exists_eq_add_of_le' (show 1 ≤ fuel by omega)
    rw [List.forall_mem_cons] at hname
    have hcolon : c ≠ ':' := ne_of_isKeyChar hname.1 rfl
    obtain ⟨g, hread, htext, hbroken⟩ := ih hname.2 (col + 1) (i + 1) (show name.length + 1 ≤ fuel by omega)
      (Fold.broken_push f c) (Fold.blanks_push f c)
    refine ⟨g, ?_, by simp [htext], hbroken⟩
    rw [List.cons_append, plainChars_cons (isBlankZ_of_isKeyChar hname.1) (by simp [hcolon]), hread,
      List.length_cons, Nat.add_assoc, Nat.add_comm 1, Nat.add_assoc i, Nat.add_comm 1]

/-- A name is read up to the colon behind it. -/
lemma readPlain_name (hne : name ≠ []) (indent : Int) (l col i : Nat) : readPlain false indent ⟨name ++ ':' :: after, l, col, i⟩ =
    some (String.ofList name, false, ⟨':' :: after, l, col + name.length, i + name.length⟩) := by
  have hfuel : name.length + 1 ≤ 3 * (name ++ ':' :: after).length + 2 := by
    simp
    omega
  obtain ⟨g, hread, htext, hbroken⟩ := plainChars_name hname hafter indent l col i hfuel (f := {}) rfl rfl
  obtain ⟨c, name, rfl⟩ := List.exists_cons_of_ne_nil hne
  have hc := hname c List.mem_cons_self
  have hmark : (Cursor.mk (c :: name ++ ':' :: after) l col i).atDocumentMark = false :=
    atDocumentMark_of_isKeyChar hc
  have hsign : (Cursor.mk (c :: name ++ ':' :: after) l col i).peek ≠ '#' := ne_of_isKeyChar hc rfl
  rw [readPlain, plainWord]
  simp only [hmark, hsign, decide_false, Bool.or_false, Bool.false_eq_true, if_false]
  rw [hread]
  simp [htext, hbroken, Fold.close, Fold.gap]

end Synchrony.Yaml
