import Mathlib.Algebra.Group.Nat.Defs
import Mathlib.Data.Option.Basic
import Synchrony.Proofs.Yaml.Plain

/-!
# Scalars in quotes are read back

In double quotes every character that cannot stand there as itself has an escape. In single quotes a text
may have several lines; what they begin with is no part of it.
-/

namespace Synchrony.Yaml

variable {single : Bool} {k l col i fuel width : Nat} {rest cs tail : List Char} {f : Fold} {c : Char}

/-! ### Escapes -/

lemma hexNumber?_append_singleton (cs : List Char) (c : Char) :
    hexNumber? (cs ++ [c]) = (do pure ((← hexNumber? cs) * 16 + (← hexDigit? c))) := by
  rw [hexNumber?, List.foldl_append]
  rfl

lemma hexDigit?_toUpper : ∀ d < 16, hexDigit? d.digitChar.toUpper = some d := by decide

lemma hexNumber?_toDigits (n : Nat) : hexNumber? ((Nat.toDigits 16 n).map Char.toUpper) = some n := by
  induction n using Nat.strongRecOn with
  | ind n ih =>
    rw [Nat.toDigits_eq_if (by decide)]
    split
    · rename_i hlt
      simp [hexNumber?, hexDigit?_toUpper n hlt]
    · rw [List.map_append, List.map_singleton, hexNumber?_append_singleton, ih (n / 16) (by omega),
        hexDigit?_toUpper _ (Nat.mod_lt n (by decide))]
      simp
      omega

lemma hexNumber?_hexDigits (width n : Nat) : hexNumber? (hexDigits width n) = some n := by
  have hzeros (k : Nat) : hexNumber? (List.replicate k '0' ++ (Nat.toDigits 16 n).map Char.toUpper) =
      hexNumber? ((Nat.toDigits 16 n).map Char.toUpper) := by
    induction k with
    | zero => rfl
    | succ k ih => exact ih
  rw [hexDigits, hzeros, hexNumber?_toDigits]

lemma length_hexDigits {n : Nat} (hwidth : 0 < width) (hn : n < 16 ^ width) :
    (hexDigits width n).length = width := by
  have hlength := (Nat.length_toDigits_le_iff (by decide) hwidth).2 hn
  simp only [hexDigits, List.length_append, List.length_replicate, List.length_map]
  omega

lemma scalarChar?_toNat (c : Char) : scalarChar? c.toNat = some c := by
  have hvalid : c.toNat < 0xD800 ∨ 0xDFFF < c.toNat ∧ c.toNat < 0x110000 := c.valid
  rw [scalarChar?, if_neg (by omega), Char.ofNat_toNat]

lemma numericEscape?_hexDigits (hwidth : 0 < width) (hc : c.toNat < 16 ^ width) (m : Char) :
    numericEscape? ⟨'\\' :: m :: (hexDigits width c.toNat ++ rest), l, col, i⟩ width =
      some (c, ⟨rest, l, col + ((hexDigits width c.toNat).length + 1 + 1),
        i + ((hexDigits width c.toNat).length + 1 + 1)⟩) := by
  have hlength := length_hexDigits hwidth hc
  have htaken : (hexDigits width c.toNat ++ rest).take width = hexDigits width c.toNat :=
    List.take_left' hlength
  have hleft : (hexDigits width c.toNat ++ rest).drop width = rest := List.drop_left' hlength
  simp [numericEscape?, htaken, hlength, hexNumber?_hexDigits, scalarChar?_toNat, Cursor.skip,
    Nat.add_comm 2, hleft]

/-- How a character of a text in double quotes is written. -/
inductive Escaped (c : Char) : List Char → Prop where
  | itself (hwritable : isWritable c = true) (hletter : escapeLetter? c = none) : Escaped c [c]
  | letter (m : Char) (h : escapeLetter? c = some m) : Escaped c ['\\', m]
  | number (m : Char) (width : Nat) (hm : (m, width) ∈ [('x', 2), ('u', 4), ('U', 8)])
      (hc : c.toNat < 16 ^ width) : Escaped c ('\\' :: m :: hexDigits width c.toNat)

lemma escaped_doubleQuotedChar (c : Char) : Escaped c (doubleQuotedChar c) := by
  rw [doubleQuotedChar]
  split
  · rename_i letter h
    exact .letter letter h
  · rename_i h
    split_ifs with hwritable htwo hfour
    · exact .itself hwritable h
    · exact .number 'x' 2 (by simp) (by omega)
    · exact .number 'u' 4 (by simp) (by omega)
    · have hvalid : c.toNat < 0xD800 ∨ 0xDFFF < c.toNat ∧ c.toNat < 0x110000 := c.valid
      exact .number 'U' 8 (by simp) (by omega)

/-- A letter that stands for a character can be written, and does not end a line. -/
lemma escape?_letter {m : Char} (h : escapeLetter? c = some m) :
    isPrintable m = true ∧ isBreak m = false ∧ ∀ rest l col i,
      escape? ⟨'\\' :: m :: rest, l, col, i⟩ = some (c, ⟨rest, l, col + 2, i + 2⟩) := by
  have hmem : (c, m) ∈ [('\x00', '0'), ('\x07', 'a'), ('\x08', 'b'), ('\t', 't'), ('\n', 'n'), ('\x0b', 'v'),
      ('\x0c', 'f'), ('\r', 'r'), ('\x1b', 'e'), ('"', '"'), ('\\', '\\'), ('\u0085', 'N'),
      ('\u2028', 'L'), ('\u2029', 'P')] := by
    obtain ⟨before, after, hlist, -⟩ := List.lookup_eq_some_iff.1 h
    rw [hlist]
    simp
  simp only [List.mem_cons, List.not_mem_nil, or_false, Prod.mk.injEq] at hmem
  rcases hmem with ⟨rfl, rfl⟩ | ⟨rfl, rfl⟩ | ⟨rfl, rfl⟩ | ⟨rfl, rfl⟩ | ⟨rfl, rfl⟩ | ⟨rfl, rfl⟩ | ⟨rfl, rfl⟩ |
    ⟨rfl, rfl⟩ | ⟨rfl, rfl⟩ | ⟨rfl, rfl⟩ | ⟨rfl, rfl⟩ | ⟨rfl, rfl⟩ | ⟨rfl, rfl⟩ | ⟨rfl, rfl⟩ <;>
    exact ⟨rfl, rfl, fun _ _ _ _ => rfl⟩

lemma escape?_number {m : Char} (hm : (m, width) ∈ [('x', 2), ('u', 4), ('U', 8)])
    (hc : c.toNat < 16 ^ width) :
    isBreak m = false ∧ ∀ rest l col i,
      escape? ⟨'\\' :: m :: (hexDigits width c.toNat ++ rest), l, col, i⟩ =
        some (c, ⟨rest, l, col + ((hexDigits width c.toNat).length + 1 + 1),
          i + ((hexDigits width c.toNat).length + 1 + 1)⟩) := by
  have hwidth : 0 < width := by
    simp only [List.mem_cons, List.not_mem_nil, or_false, Prod.mk.injEq] at hm
    omega
  simp only [← numericEscape?_hexDigits hwidth hc m]
  simp only [List.mem_cons, List.not_mem_nil, or_false, Prod.mk.injEq] at hm
  rcases hm with ⟨rfl, rfl⟩ | ⟨rfl, rfl⟩ | ⟨rfl, rfl⟩ <;> exact ⟨rfl, fun _ _ _ _ => rfl⟩

/-! ### Steps inside quotes -/

/-- The quote at the end of a scalar. -/
def quote (single : Bool) : Char := if single then '\'' else '"'

lemma quotedChars_blank (hc : isBlankZ c = true) : quotedChars single (fuel + 1) ⟨c :: cs, l, col, i⟩ f =
    quotedGap single fuel ⟨c :: cs, l, col, i⟩ f := by
  rw [quotedChars]
  simp [hc]

lemma quotedGap_space : quotedGap single (fuel + 1) ⟨' ' :: cs, l, col, i⟩ f =
    quotedGap single fuel ⟨cs, l, col + 1, i + 1⟩ (f.blank ' ') := by
  have hblank : isBlank ' ' = true := rfl
  rw [quotedGap]
  simp [hblank]

/-- What a line begins with is no part of the text. -/
lemma quotedGap_blanks (hf : f.broken = true) (k : Nat) :
    quotedGap single (fuel + k) ⟨blanks k ++ cs, l, col, i⟩ f =
      quotedGap single fuel ⟨cs, l, col + k, i + k⟩ f := by
  induction k generalizing col i with
  | zero => rfl
  | succ k ih =>
    have hblank : f.blank ' ' = f := by simp [Fold.blank, hf]
    rw [blanks_succ, List.cons_append, ← Nat.add_assoc, quotedGap_space, hblank, ih]
    congr 2 <;> omega

lemma quotedGap_cons (hc : isBlankZ c = false) (hpos : 0 < col) :
    quotedGap single (fuel + 2) ⟨c :: cs, l, col, i⟩ f =
      quotedChars single fuel ⟨c :: cs, l, col, i⟩ f.close := by
  simp only [isBlankZ, isBreakZ, Bool.or_eq_false_iff] at hc
  rw [quotedGap]
  simp only [peek_cons, hc, Bool.false_eq_true, if_false]
  rw [quotedWord]
  simp [atDocumentMark_of_pos hpos]

/-- A character that is neither blank nor special belongs to the text. -/
lemma quotedChars_cons (hc : isBlankZ c = false) (hquote : c ≠ quote single)
    (hescape : single = true ∨ c ≠ '\\') : quotedChars single (fuel + 1) ⟨c :: cs, l, col, i⟩ f =
      quotedChars single fuel ⟨cs, l, col + 1, i + 1⟩ (f.push c) := by
  rw [quotedChars]
  cases single <;> simp_all [quote]

lemma quotedChars_quote (hrest : rest.head? ≠ some '\'') :
    quotedChars single (fuel + 1) ⟨quote single :: rest, l, col, i⟩ f =
      some (f.close, ⟨rest, l, col + 1, i + 1⟩) := by
  have hnext : (Cursor.mk rest l col i).peek ≠ '\'' := by
    rw [peek_mk]
    cases rest with
    | nil => decide
    | cons d rest => simpa using hrest
  have hblank : isBlankZ '\'' = false ∧ isBlankZ '"' = false := ⟨rfl, rfl⟩
  rw [quotedChars]
  cases single <;> simp [quote, hblank, hnext]

/-- A quoted scalar with this text (reversed) ends in front of the rest, on this line or a later one. -/
def Closes (read : Option (Fold × Cursor)) (text rest : List Char) (line : Nat) : Prop :=
  ∃ line' col i, line ≤ line' ∧ read = some ({ text }, ⟨rest, line', col, i⟩)

lemma Closes.mono {read : Option (Fold × Cursor)} {text : List Char} {l' : Nat} (h : Closes read text rest l')
    (hl : l ≤ l') : Closes read text rest l := by
  obtain ⟨l'', col, i, hl', hread⟩ := h
  exact ⟨l'', col, i, Nat.le_trans hl hl', hread⟩

lemma closes_quote (hrest : rest.head? ≠ some '\'') :
    Closes (quotedChars single (fuel + 1) ⟨quote single :: rest, l, col, i⟩ f) f.close.text rest l :=
  ⟨l, col + 1, i + 1, Nat.le_refl l, quotedChars_quote hrest⟩

lemma readQuoted_of_closes {text : List Char} (h : Closes (quotedChars single (3 * (c :: cs).length + 2)
    ⟨cs, l, col + 1, i + 1⟩ {}) text rest l) : ∃ l' col' i', l ≤ l' ∧
      readQuoted single ⟨c :: cs, l, col, i⟩ = some (String.ofList text.reverse, ⟨rest, l', col', i'⟩) := by
  obtain ⟨l', col', i', hl, hread⟩ := h
  refine ⟨l', col', i', hl, ?_⟩
  have hend : (Cursor.mk cs l (col + 1) (i + 1)).atEnd = false := by
    cases cs with
    | nil => simp [quotedChars, Cursor.atEnd] at hread
    | cons d cs => rfl
  rw [readQuoted, skip_cons, quotedWord]
  simp only [atDocumentMark_of_pos (Nat.succ_pos col), hend, Bool.or_false, Bool.false_eq_true, if_false]
  rw [hread]
  rfl

/-! ### Double quotes -/

/-- A character is read as it is written in double quotes. -/
lemma quotedChars_doubleQuotedChar (hc : c ≠ ' ') : ∃ d more, doubleQuotedChar c = d :: more ∧
    isBlankZ d = false ∧ ∀ {fuel col i rest f}, quotedChars false (fuel + 1)
      ⟨doubleQuotedChar c ++ rest, l, col, i⟩ f = quotedChars false fuel
        ⟨rest, l, col + (doubleQuotedChar c).length, i + (doubleQuotedChar c).length⟩ (f.push c) := by
  have hbackslash : isBlankZ '\\' = false := rfl
  have hescaped := escaped_doubleQuotedChar c
  generalize doubleQuotedChar c = written at hescaped
  cases hescaped with
  | itself hwritable hletter =>
    have hne (d : Char) (hd : escapeLetter? d ≠ none) : c ≠ d := by
      rintro rfl
      exact hd hletter
    have hbreak : isBreak c = false := by
      simp [isBreak, hne '\r' (by decide), hne '\n' (by decide), hne '\u0085' (by decide),
        hne '\u2028' (by decide), hne '\u2029' (by decide)]
    have hblank : isBlankZ c = false := by simp [isBlankZ_of_isWritable hwritable hbreak, hc]
    exact ⟨c, [], rfl, hblank, quotedChars_cons hblank (hne '"' (by decide))
      (.inr (hne '\\' (by decide)))⟩
  | letter m h =>
    refine ⟨'\\', [m], rfl, hbackslash, fun {fuel col i rest f} => ?_⟩
    obtain ⟨-, hbreak, hread⟩ := escape?_letter h
    rw [quotedChars]
    simp [hbackslash, hbreak, hread]
  | number m width hm hwidth =>
    refine ⟨'\\', _, rfl, hbackslash, fun {fuel col i rest f} => ?_⟩
    obtain ⟨hbreak, hread⟩ := escape?_number hm hwidth
    rw [quotedChars]
    simp [hbackslash, hbreak, hread]

/-- Both inside a word and between words, the rest of a text in double quotes is read to its end. -/
lemma closes_double (htail : tail.head? ≠ some '\'') (hpos : 0 < col)
    (hfuel : 3 * (cs.flatMap doubleQuotedChar).length + 3 ≤ fuel) (hf : f.broken = false) :
    Closes (quotedChars false fuel ⟨cs.flatMap doubleQuotedChar ++ '"' :: tail, l, col, i⟩ f)
      (cs.reverse ++ f.close.text) tail l ∧
    Closes (quotedGap false fuel ⟨cs.flatMap doubleQuotedChar ++ '"' :: tail, l, col, i⟩ f)
      (cs.reverse ++ f.close.text) tail l := by
  induction cs generalizing fuel col i f with
  | nil =>
    obtain ⟨fuel, rfl⟩ := Nat.exists_eq_add_of_le' (show 3 ≤ fuel by simpa using hfuel)
    rw [List.flatMap_nil, List.nil_append, quotedGap_cons rfl hpos, ← f.text_close_close]
    refine ⟨?_, closes_quote htail⟩
    rw [f.text_close_close]
    exact closes_quote htail
  | cons c cs ih =>
    rw [List.flatMap_cons, List.length_append] at hfuel
    rw [List.flatMap_cons, List.append_assoc, List.reverse_cons, List.append_assoc, List.singleton_append]
    by_cases hspace : c = ' '
    · obtain rfl := hspace
      have hwritten : doubleQuotedChar ' ' = [' '] := rfl
      rw [hwritten, List.length_singleton] at hfuel
      obtain ⟨fuel, rfl⟩ := Nat.exists_eq_add_of_le' (show 2 ≤ fuel by omega)
      have hgap (fuel : Nat) (hfuel : 3 * (cs.flatMap doubleQuotedChar).length + 3 ≤ fuel) :
          Closes (quotedGap false (fuel + 1)
            ⟨' ' :: (cs.flatMap doubleQuotedChar ++ '"' :: tail), l, col, i⟩ f)
            (cs.reverse ++ ' ' :: f.close.text) tail l := by
        rw [quotedGap_space, ← f.text_close_blank hf]
        exact (ih (Nat.succ_pos col) hfuel (by rw [Fold.broken_blank, hf])).2
      rw [hwritten, List.singleton_append, quotedChars_blank rfl]
      exact ⟨hgap _ (by omega), hgap _ (by omega)⟩
    · obtain ⟨d, more, hwritten, hd, hstep⟩ := quotedChars_doubleQuotedChar hspace (l := l)
      have hchars (fuel : Nat) (hfuel : 3 * (cs.flatMap doubleQuotedChar).length + 3 ≤ fuel) (f : Fold) :
          Closes (quotedChars false (fuel + 1)
            ⟨doubleQuotedChar c ++ (cs.flatMap doubleQuotedChar ++ '"' :: tail), l, col, i⟩ f)
            (cs.reverse ++ c :: f.close.text) tail l := by
        rw [hstep, ← f.text_close_push]
        exact (ih (Nat.lt_of_lt_of_le hpos (Nat.le_add_right ..)) hfuel (Fold.broken_push f c)).1
      rw [hwritten, List.length_cons] at hfuel
      obtain ⟨fuel, rfl⟩ := Nat.exists_eq_add_of_le' (show 3 ≤ fuel by omega)
      refine ⟨hchars _ (by omega) f, ?_⟩
      have hread := hchars fuel (by omega) f.close
      rw [f.text_close_close] at hread
      rwa [hwritten, List.cons_append, quotedGap_cons hd hpos, ← List.cons_append, ← hwritten]

/-- A text in double quotes is read back. -/
theorem readQuoted_doubleQuoted (cs : List Char) (htail : tail.head? ≠ some '\'') (l col i : Nat) :
    ∃ l' col' i', l ≤ l' ∧ readQuoted false ⟨doubleQuoted cs ++ tail, l, col, i⟩ =
      some (String.ofList cs, ⟨tail, l', col', i'⟩) := by
  have hwritten : doubleQuoted cs ++ tail = '"' :: (cs.flatMap doubleQuotedChar ++ '"' :: tail) := by
    simp [doubleQuoted]
  have hnone : ({} : Fold).close.text = [] := rfl
  have hfuel : 3 * (cs.flatMap doubleQuotedChar).length + 3 ≤
      3 * ('"' :: (cs.flatMap doubleQuotedChar ++ '"' :: tail)).length + 2 := by
    rw [List.length_cons, List.length_append, List.length_cons]
    omega
  have hread := (closes_double htail (Nat.succ_pos col) hfuel (l := l) (i := i + 1) (f := {}) rfl).1
  rw [hnone] at hread
  rw [hwritten]
  simpa using readQuoted_of_closes hread

/-! ### Single quotes -/

/-- A character in single quotes, of which the quote itself is doubled. -/
def singleQuotedChar (c : Char) : List Char := if c = '\'' then ['\'', '\''] else [c]

/-- The rest of a text in single quotes, with the quote at its end. -/
def singleRest (k : Nat) (begins : Bool) (cs : List Char) : List Char :=
  indented k begins (cs.flatMap singleQuotedChar ++ ['\''])

/-- The quote at the end follows the text like one more character. -/
lemma singleQuoted_eq (k : Nat) (cs : List Char) : singleQuoted k cs = '\'' :: singleRest k false cs := by
  have hlast : ((cs.flatMap singleQuotedChar).getLast?.map isBreak).getD false = cs.getLast?.any isBreak := by
    rcases List.eq_nil_or_concat cs with rfl | ⟨cs, c, rfl⟩
    · rfl
    · by_cases hquote : c = '\''
      · obtain rfl := hquote
        simp [singleQuotedChar]
      · simp [singleQuotedChar, hquote]
  have hbreak : isBreak '\'' = false := rfl
  have hbody : (cs.flatMap fun c => if c = '\'' then ['\'', '\''] else [c]) =
      cs.flatMap singleQuotedChar := rfl
  rw [singleRest, indented_append, hlast, singleQuoted, hbody]
  simp [indented, hbreak]

lemma singleRest_nil (begins : Bool) :
    singleRest k begins [] = (if begins then blanks k else []) ++ ['\''] := by
  have hbreak : isBreak '\'' = false := rfl
  simp [singleRest, indented, hbreak]

lemma singleRest_break (hc : isBreak c = true) (begins : Bool) :
    singleRest k begins (c :: cs) = c :: singleRest k true cs := by
  have hquote : c ≠ '\'' := by
    rintro rfl
    cases hc
  simp [singleRest, singleQuotedChar, hquote, indented, hc]

lemma singleRest_cons (hc : isBreak c = false) (begins : Bool) : singleRest k begins (c :: cs) =
    (if begins then blanks k else []) ++ (singleQuotedChar c ++ singleRest k false cs) := by
  by_cases hquote : c = '\''
  · obtain rfl := hquote
    simp [singleRest, singleQuotedChar, indented, hc]
  · simp [singleRest, singleQuotedChar, hquote, indented, hc]

lemma quotedChars_singleQuotedChar (hc : isBlankZ c = false) :
    quotedChars true (fuel + 1) ⟨singleQuotedChar c ++ cs, l, col, i⟩ f =
      quotedChars true fuel ⟨cs, l, col + (singleQuotedChar c).length, i + (singleQuotedChar c).length⟩
        (f.push c) := by
  by_cases hquote : c = '\''
  · obtain rfl := hquote
    have hblank : isBlankZ '\'' = false := rfl
    rw [quotedChars]
    simp [singleQuotedChar, hblank, Cursor.skip]
  · simp only [singleQuotedChar, hquote, if_false]
    exact quotedChars_cons hc hquote (.inl rfl)

lemma quotedGap_break (hc : isBreak c = true) (hwritable : isWritable c = true) :
    quotedGap single (fuel + 1) ⟨c :: cs, l, col, i⟩ f =
      quotedGap single fuel ⟨cs, l + 1, 0, i + 1⟩ (f.lineBreak [c]) := by
  have hblank : isBlank c = false := by
    simp only [isBreak, Bool.or_eq_true, decide_eq_true_eq] at hc
    rcases hc with (((rfl | rfl) | rfl) | rfl) | rfl <;> rfl
  rw [quotedGap]
  simp [hblank, hc, readBreak_of_isWritable hc hwritable]

/-- Between words of single quotes: after blanks no line ends, and after a line break none begins. -/
structure Between (f : Fold) (cs : List Char) : Prop where
  firstBreak : f.broken = true → f.firstBreak ≠ ['\n']
  space : f.broken = true → cs.head? ≠ some ' '
  moreBreaks : f.broken = false → f.moreBreaks = []
  blanks : f.broken = false → f.blanks = [] ∨ ∀ c ∈ cs.head?, isBreak c = false

lemma between_text (text cs : List Char) : Between { text } cs := ⟨nofun, nofun, fun _ => rfl, fun _ => .inl rfl⟩

lemma Between.blank (h : Between f (' ' :: cs)) (hclean : anyNeighbours (fun a b => a = ' ' && isBreak b)
    (' ' :: cs) = false) : f.broken = false ∧ Between (f.blank ' ') cs := by
  have hf : f.broken = false := by
    by_contra hf
    exact h.space (by simpa using hf) rfl
  have hblank : f.blank ' ' = { f with blanks := f.blanks ++ [' '] } := by simp [Fold.blank, hf]
  refine ⟨hf, ?_⟩
  rw [hblank]
  refine ⟨by simp [hf], by simp [hf], fun _ => h.moreBreaks hf, fun _ => .inr ?_⟩
  cases cs with
  | nil => simp
  | cons d cs =>
    rw [anyNeighbours_cons, Bool.or_eq_false_iff] at hclean
    simpa using hclean.1

lemma Between.lineBreak (h : Between f (c :: cs)) (hc : isBreak c = true) (hne : c ≠ '\n')
    (hclean : anyNeighbours (fun a b => isBreak a && b = ' ') (c :: cs) = false) :
    (f.broken = false → f.blanks = [] ∧ f.moreBreaks = []) ∧ Between (f.lineBreak [c]) cs := by
  have hblanks (hf : f.broken = false) : f.blanks = [] := by
    refine (h.blanks hf).resolve_right fun hnone => ?_
    have hfalse := hnone c rfl
    rw [hc] at hfalse
    cases hfalse
  have hspace : cs.head? ≠ some ' ' := by
    cases cs with
    | nil => nofun
    | cons d cs =>
      rw [anyNeighbours_cons, Bool.or_eq_false_iff] at hclean
      simpa [hc] using hclean.1
  refine ⟨fun hf => ⟨hblanks hf, h.moreBreaks hf⟩, ?_, fun _ => hspace, ?_, ?_⟩
  · intro _
    cases hf : f.broken with
    | false => simpa [Fold.lineBreak, hf] using hne
    | true => simpa [Fold.lineBreak, hf] using h.firstBreak hf
  · simp [f.broken_lineBreak]
  · simp [f.broken_lineBreak]

/-- A word is read from the blanks on that its line begins with. -/
lemma quotedGap_word (single : Bool) (fuel l i : Nat) (cs : List Char) (hc : isBlankZ c = false) (hk : 0 < k)
    (hpos : f.broken = false → 0 < col) :
    ∃ n, quotedGap single (fuel + 2 + ((if f.broken then blanks k else []).length))
      ⟨(if f.broken then blanks k else []) ++ c :: cs, l, col, i⟩ f =
        quotedChars single fuel ⟨c :: cs, l, col + n, i + n⟩ f.close ∧ 0 < col + n := by
  cases hf : f.broken with
  | false => exact ⟨0, quotedGap_cons hc (hpos hf), hpos hf⟩
  | true =>
    have hlength : (blanks k).length = k := List.length_replicate
    refine ⟨k, ?_, by omega⟩
    rw [if_pos rfl, hlength, quotedGap_blanks hf, quotedGap_cons hc (by omega)]

/--
Both from inside a word and from between words, after a line break or not, the rest of a text in single
quotes is read to its end.
-/
structure ReadsOn (k : Nat) (tail cs : List Char) : Prop where
  word : ∀ text l col i fuel, 0 < col → 3 * (singleRest k false cs).length + 3 ≤ fuel →
    Closes (quotedChars true fuel ⟨singleRest k false cs ++ tail, l, col, i⟩ { text }) (cs.reverse ++ text) tail l
  gap : ∀ f l col i fuel, Between f cs → (f.broken = false → 0 < col) →
    3 * (singleRest k f.broken cs).length + 3 ≤ fuel →
      Closes (quotedGap true fuel ⟨singleRest k f.broken cs ++ tail, l, col, i⟩ f)
        (cs.reverse ++ f.close.text) tail l

lemma readsOn_nil (htail : tail.head? ≠ some '\'') (hk : 0 < k) : ReadsOn k tail [] where
  word text l col i fuel _ hfuel := by
    obtain ⟨fuel, rfl⟩ := Nat.exists_eq_add_of_le' (show 1 ≤ fuel by omega)
    exact closes_quote htail
  gap f l col i fuel _ hpos hfuel := by
    rw [singleRest_nil, List.length_append, List.length_singleton] at hfuel
    obtain ⟨fuel, rfl⟩ := Nat.exists_eq_add_of_le'
      (show 1 + 2 + (if f.broken then blanks k else []).length ≤ fuel by omega)
    obtain ⟨n, hword, -⟩ := quotedGap_word true (fuel + 1) l i tail (show isBlankZ '\'' = false from rfl) hk hpos
    rw [singleRest_nil, List.append_assoc, List.singleton_append, ← Nat.add_assoc, ← Nat.add_assoc, hword,
      ← f.text_close_close]
    exact closes_quote htail

/-- A line break that counts as itself ends a line. -/
lemma ReadsOn.lineBreak (h : ReadsOn k tail cs) (hc : isBreak c = true) (hwritable : isWritable c = true)
    (hne : c ≠ '\n') (hlines : anyNeighbours (fun a b => isBreak a && b = ' ') (c :: cs) = false) :
    ReadsOn k tail (c :: cs) := by
  have hgap (f : Fold) (l col i fuel : Nat) (hf : Between f (c :: cs))
      (hfuel : 3 * (singleRest k true cs).length + 3 ≤ fuel) :
      Closes (quotedGap true (fuel + 1) ⟨c :: (singleRest k true cs ++ tail), l, col, i⟩ f)
        (cs.reverse ++ c :: f.close.text) tail l := by
    obtain ⟨hblanks, hbetween⟩ := hf.lineBreak hc hne hlines
    have hbroken := f.broken_lineBreak [c]
    have hread := h.gap (f.lineBreak [c]) (l + 1) 0 (i + 1) fuel hbetween (by simp [hbroken]) (by rwa [hbroken])
    rw [hbroken, Fold.text_close_lineBreak hblanks hf.firstBreak hne] at hread
    rw [quotedGap_break hc hwritable]
    exact hread.mono (Nat.le_succ l)
  have hblank : isBlankZ c = true := by simp [isBlankZ, isBreakZ, hc]
  constructor
  · intro text l col i fuel _ hfuel
    rw [singleRest_break hc, List.length_cons] at hfuel
    obtain ⟨fuel, rfl⟩ := Nat.exists_eq_add_of_le' (show 2 ≤ fuel by omega)
    rw [singleRest_break hc, List.cons_append, quotedChars_blank hblank, List.reverse_cons, List.append_assoc]
    exact hgap _ l col i fuel (between_text text _) (by omega)
  · intro f l col i fuel hf _ hfuel
    rw [singleRest_break hc, List.length_cons] at hfuel
    obtain ⟨fuel, rfl⟩ := Nat.exists_eq_add_of_le' (show 1 ≤ fuel by omega)
    rw [singleRest_break hc, List.cons_append, List.reverse_cons, List.append_assoc]
    exact hgap f l col i fuel hf (by omega)

lemma singleRest_space : singleRest k false (' ' :: cs) = ' ' :: singleRest k false cs :=
  singleRest_cons rfl false

lemma ReadsOn.space (h : ReadsOn k tail cs)
    (hspaces : anyNeighbours (fun a b => a = ' ' && isBreak b) (' ' :: cs) = false) :
    ReadsOn k tail (' ' :: cs) := by
  have hgap (f : Fold) (l col i fuel : Nat) (hf : Between f (' ' :: cs))
      (hfuel : 3 * (singleRest k false cs).length + 3 ≤ fuel) :
      Closes (quotedGap true (fuel + 1) ⟨' ' :: (singleRest k false cs ++ tail), l, col, i⟩ f)
        (cs.reverse ++ ' ' :: f.close.text) tail l := by
    obtain ⟨hclosed, hbetween⟩ := hf.blank hspaces
    have hbroken : (f.blank ' ').broken = false := by rw [Fold.broken_blank, hclosed]
    have hread := h.gap (f.blank ' ') l (col + 1) (i + 1) fuel hbetween (fun _ => Nat.succ_pos col)
      (by rwa [hbroken])
    rwa [hbroken, Fold.text_close_blank hclosed, ← quotedGap_space] at hread
  constructor
  · intro text l col i fuel _ hfuel
    rw [singleRest_space, List.length_cons] at hfuel
    obtain ⟨fuel, rfl⟩ := Nat.exists_eq_add_of_le' (show 2 ≤ fuel by omega)
    rw [singleRest_space, List.cons_append, quotedChars_blank rfl, List.reverse_cons, List.append_assoc]
    exact hgap _ l col i fuel (between_text text _) (by omega)
  · intro f l col i fuel hf _ hfuel
    rw [(hf.blank hspaces).1, singleRest_space] at hfuel ⊢
    rw [List.length_cons] at hfuel
    obtain ⟨fuel, rfl⟩ := Nat.exists_eq_add_of_le' (show 1 ≤ fuel by omega)
    rw [List.cons_append, List.reverse_cons, List.append_assoc]
    exact hgap f l col i fuel hf (by omega)

/-- Any other character belongs to a word. -/
lemma ReadsOn.cons (h : ReadsOn k tail cs) (hk : 0 < k) (hc : isBlankZ c = false) : ReadsOn k tail (c :: cs) := by
  have hbreak : isBreak c = false := by
    simp only [isBlankZ, isBreakZ, Bool.or_eq_false_iff] at hc
    exact hc.2.1
  have hword (text : List Char) (l col i fuel : Nat) (hpos : 0 < col)
      (hfuel : 3 * (singleRest k false cs).length + 3 ≤ fuel) :
      Closes (quotedChars true (fuel + 1) ⟨singleQuotedChar c ++ (singleRest k false cs ++ tail), l, col, i⟩ { text })
        (cs.reverse ++ c :: text) tail l := by
    rw [quotedChars_singleQuotedChar hc]
    exact h.word (c :: text) l _ _ fuel (by omega) hfuel
  obtain ⟨d, more, hwritten, hd⟩ : ∃ d more, singleQuotedChar c = d :: more ∧ isBlankZ d = false := by
    by_cases hquote : c = '\''
    · exact ⟨'\'', ['\''], by simp [singleQuotedChar, hquote], rfl⟩
    · exact ⟨c, [], by simp [singleQuotedChar, hquote], hc⟩
  have hlength : 0 < (singleQuotedChar c).length := by simp [hwritten]
  constructor
  · intro text l col i fuel hpos hfuel
    rw [singleRest_cons hbreak, if_neg Bool.false_ne_true, List.nil_append, List.length_append] at hfuel
    obtain ⟨fuel, rfl⟩ := Nat.exists_eq_add_of_le' (show 1 ≤ fuel by omega)
    rw [singleRest_cons hbreak, if_neg Bool.false_ne_true, List.nil_append, List.append_assoc,
      List.reverse_cons, List.append_assoc]
    exact hword text l col i fuel hpos (by omega)
  · intro f l col i fuel _ hpos hfuel
    rw [singleRest_cons hbreak, List.length_append, List.length_append] at hfuel
    obtain ⟨fuel, rfl⟩ := Nat.exists_eq_add_of_le'
      (show 1 + 2 + (if f.broken then blanks k else []).length ≤ fuel by omega)
    obtain ⟨n, hread, hcol⟩ := quotedGap_word true (fuel + 1) l i
      (more ++ (singleRest k false cs ++ tail)) hd hk hpos
    rw [singleRest_cons hbreak, List.append_assoc, List.append_assoc, hwritten, List.cons_append,
      ← Nat.add_assoc, ← Nat.add_assoc, hread, ← List.cons_append, ← hwritten, List.reverse_cons,
      List.append_assoc]
    exact hword _ l _ _ fuel hcol (by omega)

lemma readsOn (htail : tail.head? ≠ some '\'') (hk : 0 < k) (hcs : ∀ c ∈ cs, isWritable c = true ∧ c ≠ '\n')
    (hspaces : anyNeighbours (fun a b => a = ' ' && isBreak b) cs = false)
    (hlines : anyNeighbours (fun a b => isBreak a && b = ' ') cs = false) : ReadsOn k tail cs := by
  induction cs with
  | nil => exact readsOn_nil htail hk
  | cons c cs ih =>
    rw [List.forall_mem_cons] at hcs
    have hrest := ih hcs.2 (anyNeighbours_of_cons hspaces) (anyNeighbours_of_cons hlines)
    cases hbreak : isBreak c with
    | true => exact hrest.lineBreak hbreak hcs.1.1 hcs.1.2 hlines
    | false =>
      by_cases hspace : c = ' '
      · obtain rfl := hspace
        exact hrest.space hspaces
      · exact hrest.cons hk (by simp [isBlankZ_of_isWritable hcs.1.1 hbreak, hspace])

/-- A text in single quotes is read back. -/
theorem readQuoted_singleQuoted (hcs : fitsSingle cs = true) (hline : cs.contains '\n' = false) (hk : 0 < k)
    (htail : tail.head? ≠ some '\'') (l col i : Nat) :
    ∃ l' col' i', l ≤ l' ∧ readQuoted true ⟨singleQuoted k cs ++ tail, l, col, i⟩ =
      some (String.ofList cs, ⟨tail, l', col', i'⟩) := by
  simp only [fitsSingle, isClean, Bool.and_eq_true, Bool.not_eq_true', List.all_eq_true] at hcs
  have hchars (c : Char) (hc : c ∈ cs) : isWritable c = true ∧ c ≠ '\n' := by
    refine ⟨hcs.1.1 c hc, ?_⟩
    rintro rfl
    simp [hc] at hline
  rw [singleQuoted_eq, List.cons_append]
  have hread := (readsOn htail hk hchars hcs.1.2 hcs.2).word [] l (col + 1) (i + 1)
    (3 * ('\'' :: (singleRest k false cs ++ tail)).length + 2) (Nat.succ_pos col)
    (by rw [List.length_cons, List.length_append]; omega)
  simpa using readQuoted_of_closes hread

end Synchrony.Yaml
