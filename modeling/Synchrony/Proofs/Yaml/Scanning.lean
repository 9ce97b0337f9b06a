import Synchrony.Proofs.Yaml.Literal
import Synchrony.Proofs.Yaml.Parsing
import Synchrony.Proofs.Yaml.Quoted

/-!
# The tokens of a written configuration

The scanner reads a written configuration line by line. A line begins where a key may (`Line`), and after
its setting there is a line again, with the tokens of the setting behind those before it.
-/

namespace Synchrony.Yaml

variable {n l col i : Nat} {indent : Int} {outer : List Int} {rest : List Char} {tokens : List Token}

namespace Scan

variable {s s' s'' : Scan}

/-! ### Runs -/

/-- The one scan becomes the other, in no more steps than characters are read. -/
def Reaches (s s' : Scan) : Prop :=
  ∃ n, n + s'.cursor.rest.length ≤ s.cursor.rest.length ∧ ∀ fuel, toEnd (fuel + n) s = toEnd fuel s'

lemma Reaches.refl (s : Scan) : Reaches s s :=
  ⟨0, by omega, fun fuel => congrArg (toEnd · s) (Nat.add_zero fuel)⟩

lemma Reaches.trans (h : Reaches s s') (h' : Reaches s' s'') : Reaches s s'' := by
  obtain ⟨n, hn, hrun⟩ := h
  obtain ⟨n', hn', hrun'⟩ := h'
  refine ⟨n' + n, by omega, fun fuel => ?_⟩
  rw [← Nat.add_assoc, hrun, hrun']

/-- A step reads characters, and does not come to the end. -/
lemma reaches_of_next (h : s.next = some s') (hlength : s'.cursor.rest.length < s.cursor.rest.length)
    (hlast : s'.tokens.getLast? ≠ some .streamEnd) : Reaches s s' := by
  refine ⟨1, by omega, fun fuel => ?_⟩
  rw [toEnd, h, Option.bind_some, if_neg hlast]

/-! ### Lines -/

/-- A key that may have begun on this line or an earlier one need not be one. -/
def Idle (keys : List (Option KeyStart)) (line : Nat) : Prop :=
  ∃ k?, keys = [k?] ∧ ∀ k ∈ k?, k.required = false ∧ k.line ≤ line

lemma idle_none (line : Nat) : Idle [none] line := ⟨none, rfl, nofun⟩

/-- The scan stands in front of a line where a key may begin, with nothing but blanks before it. -/
def Line (s : Scan) (tokens : List Token) (indent : Int) (outer : List Int) (rest : List Char)
    (column : Nat) : Prop :=
  rest.length ≤ s.cursor.rest.length ∧ ∃ l i, (skipBlanks (s.cursor.rest.length + 1) s).dropStale =
    some { cursor := ⟨rest, l, column, i⟩, tokens, indent, outer }

lemma dropStale_of_idle {keys : List (Option KeyStart)} {line : Nat} (h : Idle keys line) (hline : line < l)
    (keyAllowed : Bool) : dropStale ⟨⟨rest, l, col, i⟩, tokens, indent, outer, keyAllowed, keys⟩ =
      some ⟨⟨rest, l, col, i⟩, tokens, indent, outer, keyAllowed, [none]⟩ := by
  obtain ⟨k?, rfl, hk⟩ := h
  cases k? with
  | none => rfl
  | some k =>
    obtain ⟨hrequired, hle⟩ := hk k rfl
    have hstale : k.line < l := by omega
    simp [dropStale, hstale, hrequired]

lemma skipWhile_of_not {p : Char → Bool} (h : p (Cursor.mk rest l col i).peek = false) :
    (Cursor.mk rest l col i).skipWhile p = ⟨rest, l, col, i⟩ := by
  cases rest with
  | nil => rfl
  | cons c rest =>
    rw [peek_cons] at h
    simp [Cursor.skipWhile, Cursor.takeWhile, h, Cursor.skip]

lemma skipWhile_blanks {p : Char → Bool} (hspace : p ' ' = true) (h : p (Cursor.mk rest l (col + n) (i + n)).peek = false) :
    (Cursor.mk (blanks n ++ rest) l col i).skipWhile p = ⟨rest, l, col + n, i + n⟩ := by
  have hblank : ∀ c ∈ blanks n, p c = true := by simp [blanks, hspace]
  have hend : rest.takeWhile p = [] := by
    cases rest with
    | nil => rfl
    | cons c rest =>
      rw [peek_cons] at h
      simp [h]
  have hlength : (blanks n).length = n := List.length_replicate
  have hdrop : (blanks n ++ rest).drop n = rest := List.drop_left' hlength
  simp [Cursor.skipWhile, Cursor.takeWhile, List.takeWhile_append_of_pos hblank, hend, hlength, Cursor.skip, hdrop]

variable {keys : List (Option KeyStart)} {keyAllowed : Bool} {fuel : Nat}

/-- What stands behind blanks is neither a blank nor a comment nor the end of a line. -/
def Visible (rest : List Char) : Prop := ∀ c ∈ rest.head?, c ≠ '#' ∧ isBlank c = false ∧ isBreak c = false

lemma Visible.peek (h : Visible rest) (l col i : Nat) : (Cursor.mk rest l col i).peek ≠ '#' ∧
    isBlank (Cursor.mk rest l col i).peek = false ∧ isBreak (Cursor.mk rest l col i).peek = false := by
  cases rest with
  | nil => exact ⟨(by decide : '\x00' ≠ '#'), rfl, rfl⟩
  | cons c rest => exact h c rfl

lemma visible_of_starts (hrest : Starts rest) : Visible rest := by
  cases rest with
  | nil => nofun
  | cons c rest =>
    rintro d ⟨⟩
    exact ⟨hrest.peek_ne rfl 0 0 0, hrest.isBlank_peek 0 0 0, hrest.isBreak_peek 0 0 0⟩

/-- Behind the first column, and in front of a name, there is no byte order mark. -/
lemma skipBlanks_blanks (hrest : Visible rest) (hmark : rest.head? ≠ some '\ufeff' ∨ 0 < col) :
    skipBlanks (fuel + 1) ⟨⟨blanks n ++ rest, l, col, i⟩, tokens, indent, outer, keyAllowed, keys⟩ =
      ⟨⟨rest, l, col + n, i + n⟩, tokens, indent, outer, keyAllowed, keys⟩ := by
  obtain ⟨hsign, hblank, hbreak⟩ := hrest.peek l (col + n) (i + n)
  simp only [isBlank, Bool.or_eq_false_iff, decide_eq_false_iff_not] at hblank
  have hbom : (decide (col = 0) && decide ((Cursor.mk (blanks n ++ rest) l col i).peek = '\ufeff')) = false := by
    rw [peek_mk]
    cases n with
    | zero =>
      cases rest with
      | nil => simp
      | cons c rest =>
        simp only [List.head?_cons, ne_eq, Option.some.injEq] at hmark
        simp only [blanks_zero, List.nil_append, List.headD_cons, Bool.and_eq_false_imp, decide_eq_true_eq]
        rintro rfl
        exact decide_eq_false (hmark.resolve_right (Nat.lt_irrefl 0))
    | succ n => simp
  rw [skipBlanks]
  simp only [hbom, Bool.false_eq_true, if_false]
  rw [skipWhile_blanks (by simp) (by simp [hblank])]
  simp [hsign, hbreak, moveTo]

lemma skipBlanks_newline (hkeys : keys.length = 1) :
    skipBlanks (fuel + 1) ⟨⟨'\n' :: rest, l, col, i⟩, tokens, indent, outer, keyAllowed, keys⟩ =
      skipBlanks fuel ⟨⟨rest, l + 1, 0, i + 1⟩, tokens, indent, outer, true, keys⟩ := by
  have hbreak : isBreak '\n' = true := rfl
  rw [skipBlanks]
  simp [inFlow, hkeys, skipWhile_of_not, hbreak]

/-- What begins a line is no byte order mark. -/
lemma head?_ne_of_starts (hrest : Starts rest) : rest.head? ≠ some '\ufeff' := by
  intro h
  have hmark := hrest _ h
  simp at hmark

/-- A scan that has read the end of a line already stands in front of the next one. -/
lemma line_of_here (hrest : Starts rest) {line : Nat} (hkeys : Idle keys line) (hline : line < l) :
    Line ⟨⟨rest, l, col, i⟩, tokens, indent, outer, true, keys⟩ tokens indent outer rest col := by
  have hskip : skipBlanks (rest.length + 1) ⟨⟨rest, l, col, i⟩, tokens, indent, outer, true, keys⟩ =
      ⟨⟨rest, l, col, i⟩, tokens, indent, outer, true, keys⟩ :=
    skipBlanks_blanks (visible_of_starts hrest) (.inl (head?_ne_of_starts hrest)) (n := 0)
  exact ⟨Nat.le_refl _, l, i, by rw [hskip, dropStale_of_idle hkeys hline]⟩

/-- A scan at the end of a line stands in front of the next one. -/
lemma line_of_newline (hrest : Starts rest) {line : Nat} (hkeys : Idle keys line) (hline : line ≤ l) (n : Nat) :
    Line ⟨⟨'\n' :: (blanks n ++ rest), l, col, i⟩, tokens, indent, outer, keyAllowed, keys⟩ tokens
      indent outer rest n := by
  have hlength : keys.length = 1 := by
    obtain ⟨k?, rfl, -⟩ := hkeys
    rfl
  refine ⟨by simp; omega, l + 1, i + 1 + n, ?_⟩
  rw [skipBlanks_newline hlength, List.length_cons,
    skipBlanks_blanks (visible_of_starts hrest) (.inl (head?_ne_of_starts hrest)), Nat.zero_add,
    dropStale_of_idle hkeys (by omega)]

/-! ### Indentation -/

/-- With the collections closed that are deeper, the scan stands where a key may begin. -/
def Settles (s : Scan) (tokens : List Token) (indent : Int) (outer : List Int) (rest : List Char)
    (column : Nat) : Prop :=
  rest.length ≤ s.cursor.rest.length ∧ ∃ l i, s.settle =
    some { cursor := ⟨rest, l, column, i⟩, tokens, indent, outer }

/-- No collection is deeper than its own column. -/
lemma dedent_of_le {column : Int} (h : s.indent ≤ column) : s.dedent column = s := by
  rw [dedent]
  split
  · rfl
  · cases s.outer with
    | nil => rfl
    | cons o outer => exact if_neg (by omega)

lemma Line.settles (h : Line s tokens indent outer rest col) (hcol : indent ≤ col) :
    Settles s tokens indent outer rest col := by
  obtain ⟨hlength, l, i, hline⟩ := h
  refine ⟨hlength, l, i, ?_⟩
  rw [settle, hline]
  exact congrArg some (dedent_of_le (s := { cursor := ⟨rest, l, col, i⟩, tokens, indent, outer }) hcol)

/-- A mapping ends where a line is indented less. -/
lemma Line.settles_outside {o : Int} (h : Line s tokens indent (o :: outer) rest col) (hcol : col < indent)
    (ho : o ≤ col) : Settles s (tokens ++ [.blockEnd]) o outer rest col := by
  obtain ⟨hlength, l, i, hline⟩ := h
  refine ⟨hlength, l, i, ?_⟩
  have hends : dedent { cursor := ⟨rest, l, col, i⟩, tokens, indent, outer := o :: outer } col =
      { cursor := ⟨rest, l, col, i⟩, tokens := tokens ++ [.blockEnd], indent := o, outer } := by
    have hnot : ¬((1 : Nat) < [(none : Option KeyStart)].length) := by simp
    rw [dedent]
    simp only [inFlow, hnot, decide_false, Bool.false_eq_true, if_false, dedentTo, hcol, if_true, add]
    cases outer with
    | nil => rfl
    | cons o' outer => exact if_neg (Int.not_lt.2 ho)
  rw [settle, hline]
  exact congrArg some hends

/-! ### Values -/

/-- The scan stands behind the colon of a setting or the dash of an entry; `keyAllowed` tells which. -/
def behind (rest : List Char) (l col i : Nat) (tokens : List Token) (outer : List Int) (keyAllowed : Bool) :
    Scan := ⟨⟨rest, l, col, i⟩, tokens, 2, outer, keyAllowed, [none]⟩

/-- A space is skipped up to the value behind it. -/
lemma settle_space {c : Char} (hc : Visible (c :: rest)) (hcol : 2 ≤ col) :
    (behind (' ' :: c :: rest) l col i tokens outer keyAllowed).settle =
      some (behind (c :: rest) l (col + 1) (i + 1) tokens outer keyAllowed) := by
  have hskip : skipBlanks ((' ' :: c :: rest).length + 1)
      (behind (' ' :: c :: rest) l col i tokens outer keyAllowed) =
        behind (c :: rest) l (col + 1) (i + 1) tokens outer keyAllowed :=
    skipBlanks_blanks hc (.inr (by omega)) (n := 1)
  have hstale : (behind (c :: rest) l (col + 1) (i + 1) tokens outer keyAllowed).dropStale =
      some (behind (c :: rest) l (col + 1) (i + 1) tokens outer keyAllowed) := rfl
  have hdedent : (behind (c :: rest) l (col + 1) (i + 1) tokens outer keyAllowed).dedent (col + 1 : Nat) =
      behind (c :: rest) l (col + 1) (i + 1) tokens outer keyAllowed :=
    dedent_of_le (by simp [behind]; omega)
  have hcursor : (behind (' ' :: c :: rest) l col i tokens outer keyAllowed).cursor.rest = ' ' :: c :: rest := rfl
  rw [settle, hcursor, hskip, hstale]
  exact congrArg some hdedent

/-- What begins here may be a key, but need not be one. -/
lemma exists_markKey (rest : List Char) (l i : Nat) (tokens : List Token) (outer : List Int) (keyAllowed : Bool)
    (hcol : 2 < col) : ∃ keys, Idle keys l ∧ (behind rest l col i tokens outer keyAllowed).markKey =
      some ⟨⟨rest, l, col, i⟩, tokens, 2, outer, keyAllowed, keys⟩ := by
  cases keyAllowed with
  | false => exact ⟨[none], idle_none l, rfl⟩
  | true =>
    refine ⟨[some ⟨false, tokens.length, l, col, i⟩], ⟨some _, rfl, ?_⟩, ?_⟩
    · rintro k ⟨⟩
      exact ⟨rfl, Nat.le_refl l⟩
    · have hrequired : decide ((2 : Int) = col) = false := by
        rw [decide_eq_false_iff_not]
        omega
      simp [behind, markKey, dropKey, inFlow]
      omega

/-- A plain scalar begins with any character that means nothing else. -/
lemma readToken_plain {c : Char} (hcursor : s.cursor = ⟨c :: rest, l, col, i⟩) (hkeys : s.keys.length = 1)
    (hdocument : s.cursor.atDocumentMark = false) (hc : isBlankZ c = false)
    (hmark : (['#', ',', '[', ']', '{', '}', '&', '*', '!', '|', '>', '\'', '"', '%', '@', '\x60'].contains c ||
      (['?', ':', '-'].contains c && isBlankZ (rest.headD '\x00'))) = false) :
    s.readToken = s.plain := by
  simp only [Cursor.atDocumentMark, Bool.or_eq_false_iff] at hdocument
  have hpeek : s.cursor.peek = c := by rw [hcursor, peek_cons]
  have hnext : s.cursor.peek 1 = rest.headD '\x00' := by rw [hcursor, peek_cons_succ, peek_mk]
  have hend : s.cursor.atEnd = false := by rw [hcursor, atEnd_cons]
  simp only [List.contains_eq_mem, List.mem_cons, List.not_mem_nil, or_false, Bool.or_eq_false_iff,
    decide_eq_false_iff_not, not_or, Bool.and_eq_false_imp, decide_eq_true_eq] at hmark
  obtain ⟨hmark, hspaced⟩ := hmark
  rw [readToken]
  simp only [hend, hdocument, hpeek, hnext, hmark, Bool.false_eq_true, if_false, decide_false, Bool.and_false]
  have hflow : s.inFlow = false := by simp [inFlow, hkeys]
  have hbegins : s.beginsPlain = true := by
    by_cases hfirst : c = '?' ∨ c = ':' ∨ c = '-'
    · have hvisible := hspaced hfirst
      have hblank : isBlank (rest.headD '\x00') = false := by
        simp only [isBlankZ, Bool.or_eq_false_iff] at hvisible
        exact hvisible.1
      rcases hfirst with rfl | rfl | rfl <;> simp only [beginsPlain, hpeek, hnext, hflow, hvisible, hblank] <;> rfl
    · simp only [not_or] at hfirst
      simp [beginsPlain, hpeek, hc, hmark, hfirst]
  have hnone (d : Char) (hd : d = '?' ∨ d = ':' ∨ d = '-') :
      (decide (c = d) && isBlankZ (rest.headD '\x00')) = false := by
    by_cases hcd : c = d
    · rw [hspaced (hcd ▸ hd), Bool.and_false]
    · simp [hcd]
  split
  all_goals first
    | simp only [hflow, Bool.false_or, hnone, true_or, or_true, Bool.false_eq_true, if_false, hmark, decide_false,
        Bool.false_and, hbegins, if_true]
    | simp at hmark

lemma next_of_settle (hsettle : s.settle = some s') (hread : s'.readToken = some s'') : s.next = some s'' := by
  rw [next, hsettle]
  exact hread

lemma inFlow_of_idle (h : Idle s.keys l) : s.inFlow = false := by
  obtain ⟨k?, hkeys, -⟩ := h
  simp [inFlow, hkeys]

/-- What marks a scalar is told by the character behind it, be it one of the scalar or the line break. -/
lemma marks_of_beginsMarked {c : Char} {cs : List Char} (h : beginsMarked (c :: cs) = false)
    (tail : List Char) :
    (['#', ',', '[', ']', '{', '}', '&', '*', '!', '|', '>', '\'', '"', '%', '@', '\x60'].contains c ||
      (['?', ':', '-'].contains c && isBlankZ ((cs ++ '\n' :: tail).headD '\x00'))) = false := by
  have hnext : isBlankZ ((cs ++ '\n' :: tail).headD '\x00') = isBlankZ (cs.headD '\x00') := by
    cases cs <;> rfl
  rw [hnext]
  rw [beginsMarked.eq_def] at h
  split at h
  · cases h
  · cases h
  · rename_i heq
    cases heq
    exact h
  · rename_i heq
    cases heq

/-- A plain scalar is read with the end of its line. -/
lemma reaches_plain (hrest : Starts rest) (hn : n ≤ 2) (hcol : 2 ≤ col) {cs : List Char}
    (hcs : fitsPlain cs = true) (hne : cs ≠ []) :
    ∃ s, Reaches (behind (' ' :: (cs ++ '\n' :: (blanks n ++ rest))) l col i tokens outer keyAllowed) s ∧
      Line s (tokens ++ [.scalar .plain (String.ofList cs)]) 2 outer rest n := by
  obtain ⟨i', hread⟩ := readPlain_line hrest (show (n : Int) < 2 + 1 by omega) hcs hne
    (show (2 + 1 : Int) ≤ (col + 1 : Nat) by omega) (Nat.succ_pos col) (l := l) (i := i + 1)
  obtain ⟨keys, hidle, hmark⟩ := exists_markKey (cs ++ '\n' :: (blanks n ++ rest)) l (i + 1) tokens outer keyAllowed
    (show 2 < col + 1 by omega)
  have hplain : (behind (cs ++ '\n' :: (blanks n ++ rest)) l (col + 1) (i + 1) tokens outer keyAllowed).plain =
      some ⟨⟨rest, l + 1, n, i'⟩, tokens ++ [.scalar .plain (String.ofList cs)], 2, outer, true, keys⟩ := by
    rw [plain, hmark]
    simp only [Option.bind_eq_bind, Option.bind_some]
    rw [inFlow_of_idle (l := l) hidle, hread]
    rfl
  obtain ⟨c, cs, rfl⟩ := List.exists_cons_of_ne_nil hne
  simp only [fitsPlain, Bool.and_eq_true, Bool.not_eq_true', List.all_cons, List.any_cons, List.head?_cons,
    Option.any_some, Bool.or_eq_false_iff] at hcs
  obtain ⟨⟨⟨⟨⟨hwritable, hbreak⟩, hfirst⟩, -⟩, hbegins⟩, -⟩ := hcs
  have hblankZ := isBlankZ_of_isWritable hwritable.1 hbreak.1
  rw [hfirst.1] at hblankZ
  have hmarks := marks_of_beginsMarked hbegins (blanks n ++ rest)
  have hvisible : Visible (c :: (cs ++ '\n' :: (blanks n ++ rest))) := by
    rintro d ⟨⟩
    simp only [isBlankZ, Bool.or_eq_false_iff] at hblankZ
    refine ⟨?_, hblankZ.1, hbreak.1⟩
    rintro rfl
    simp at hmarks
  refine ⟨_, reaches_of_next (next_of_settle (settle_space hvisible hcol)
    ((readToken_plain rfl rfl (atDocumentMark_of_pos (Nat.succ_pos col)) hblankZ hmarks).trans hplain)) ?_
      (by simp), line_of_here hrest hidle (Nat.lt_succ_self l)⟩
  simp [behind]
  omega

lemma atMark_of_pos (hpos : 0 < col) (mark : Char) : (Cursor.mk rest l col i).atMark mark = false := by
  simp [Cursor.atMark, Nat.ne_of_gt hpos]

lemma readToken_quote (single : Bool) (hpos : 0 < col) :
    (behind (quote single :: rest) l col i tokens outer keyAllowed).readToken =
      (behind (quote single :: rest) l col i tokens outer keyAllowed).quoted single := by
  rw [readToken]
  simp only [behind, atEnd_cons, Nat.ne_of_gt hpos, decide_false, atMark_of_pos hpos, peek_cons, Bool.false_and,
    Bool.false_eq_true, if_false]
  cases single <;> rfl

/-- A scalar in quotes ends in front of the end of a line. -/
lemma reaches_quoted (hrest : Starts rest) (hcol : 2 ≤ col) (single : Bool) {body cs : List Char}
    (hread : ∃ l' col' i', l ≤ l' ∧ readQuoted single ⟨quote single :: body ++ '\n' :: (blanks n ++ rest), l,
      col + 1, i + 1⟩ = some (String.ofList cs, ⟨'\n' :: (blanks n ++ rest), l', col', i'⟩)) :
    ∃ s, Reaches (behind (' ' :: (quote single :: body ++ '\n' :: (blanks n ++ rest))) l col i tokens outer
        keyAllowed) s ∧
      Line s (tokens ++ [.scalar .quoted (String.ofList cs)]) 2 outer rest n := by
  obtain ⟨l', col', i', hl, hread⟩ := hread
  obtain ⟨keys, hidle, hmark⟩ := exists_markKey (quote single :: body ++ '\n' :: (blanks n ++ rest)) l (i + 1)
    tokens outer keyAllowed (show 2 < col + 1 by omega)
  have hquoted : (behind (quote single :: body ++ '\n' :: (blanks n ++ rest)) l (col + 1) (i + 1) tokens outer
      keyAllowed).quoted single = some ⟨⟨'\n' :: (blanks n ++ rest), l', col', i'⟩,
        tokens ++ [.scalar .quoted (String.ofList cs)], 2, outer, false, keys⟩ := by
    rw [quoted, keyLike, hmark]
    simp only [Option.bind_eq_bind, Option.bind_some]
    rw [hread]
    rfl
  have hvisible : Visible (quote single :: body ++ '\n' :: (blanks n ++ rest)) := by
    rintro d ⟨⟩
    cases single <;> exact ⟨by decide, rfl, rfl⟩
  refine ⟨_, reaches_of_next (next_of_settle (settle_space hvisible hcol)
    ((readToken_quote single (Nat.succ_pos col)).trans hquoted)) ?_ (by simp), line_of_newline hrest hidle hl n⟩
  simp [behind]
  omega

lemma readToken_bar (hpos : 0 < col) : (behind ('|' :: rest) l col i tokens outer keyAllowed).readToken =
    (behind ('|' :: rest) l col i tokens outer keyAllowed).block true := by
  rw [readToken]
  simp only [behind, atEnd_cons, Nat.ne_of_gt hpos, decide_false, atMark_of_pos hpos, peek_cons, Bool.false_and,
    Bool.false_eq_true, if_false]
  rfl

/-- A literal block ends in front of a line that is indented less. -/
lemma reaches_literal (hrest : Starts rest) (hn : n ≤ 2) (hcol : 2 ≤ col) {cs : List Char}
    (hcs : fitsBlock cs = true) (hne : cs ≠ []) :
    ∃ s, Reaches (behind (' ' :: (literalBlock 4 cs ++ (blanks n ++ rest))) l col i tokens outer keyAllowed) s ∧
      Line s (tokens ++ [.scalar .literal (String.ofList cs)]) 2 outer rest n := by
  obtain ⟨l', i', hl, hread⟩ : ∃ l' i', l < l' ∧
      readBlock true 2 ⟨literalBlock 4 cs ++ (blanks n ++ rest), l, col + 1, i + 1⟩ =
        some (String.ofList cs, ⟨rest, l', n, i'⟩) :=
    readBlock_literalBlock hrest (show n < 2 + 2 by omega) hcs hne
  obtain ⟨body, hbody⟩ : ∃ body, literalBlock 4 cs = '|' :: body := ⟨_, rfl⟩
  rw [hbody, List.cons_append] at hread ⊢
  have hblock : (behind ('|' :: (body ++ (blanks n ++ rest))) l (col + 1) (i + 1) tokens outer
      keyAllowed).block true = some ⟨⟨rest, l', n, i'⟩, tokens ++ [.scalar .literal (String.ofList cs)], 2, outer,
        true, [none]⟩ := by
    have hdrop : (behind ('|' :: (body ++ (blanks n ++ rest))) l (col + 1) (i + 1) tokens outer
      keyAllowed).dropKey = some (behind ('|' :: (body ++ (blanks n ++ rest))) l (col + 1) (i + 1) tokens outer
      keyAllowed) := rfl
    rw [block, hdrop]
    simp only [behind, Option.bind_eq_bind, Option.bind_some]
    rw [hread]
    rfl
  have hvisible : Visible ('|' :: (body ++ (blanks n ++ rest))) := by
    rintro d ⟨⟩
    exact ⟨by decide, rfl, rfl⟩
  refine ⟨_, reaches_of_next (next_of_settle (settle_space hvisible hcol)
    ((readToken_bar (Nat.succ_pos col)).trans hblock)) ?_ (by simp), line_of_here hrest (idle_none l) hl⟩
  simp [behind]
  omega

/-- A text is read whichever way it is written. -/
lemma reaches_text (hrest : Starts rest) (hn : n ≤ 2) (hcol : 2 ≤ col) (text : String) :
    ∃ s, Reaches (behind (' ' :: (written 4 text ++ (blanks n ++ rest))) l col i tokens outer keyAllowed) s ∧
      Line s (tokens ++ [Config.Written.textToken text]) 2 outer rest n := by
  have htext : String.ofList text.toList = text := String.ofList_toList
  have hnewline : ('\n' :: (blanks n ++ rest)).head? ≠ some '\'' := by simp
  have hstyled := styled_written 4 text
  rw [Config.Written.textToken]
  generalize styleOf text = style, written 4 text = lines at hstyled ⊢
  rw [← htext]
  cases hstyled with
  | plain hfits hclear =>
    have hne : text.toList ≠ [] := by
      intro hnil
      have hempty : text = "" := by rw [← htext, hnil]
      simp [isAmbiguous, hempty] at hclear
    simpa using reaches_plain hrest hn hcol hfits hne
  | literal hfits hne => exact reaches_literal hrest hn hcol hfits hne
  | single hfits hline =>
    have hread := readQuoted_singleQuoted hfits hline (Nat.succ_pos 3) hnewline l (col + 1) (i + 1)
    rw [singleQuoted_eq] at hread ⊢
    rw [List.append_assoc, List.singleton_append]
    exact reaches_quoted hrest hcol true hread
  | double =>
    have hread := readQuoted_doubleQuoted text.toList hnewline l (col + 1) (i + 1)
    rw [doubleQuoted, List.cons_append] at hread ⊢
    rw [List.append_assoc, List.singleton_append]
    exact reaches_quoted hrest hcol false hread

/-! ### Entries of a sequence -/

/-- The entries of a sequence stand at the column of the settings, so they open no collection of their own. -/
lemma reaches_entry (hrest : Starts rest) (hn : n ≤ 2) (text : String)
    (h : Line s tokens 2 outer ('-' :: ' ' :: (written 4 text ++ (blanks n ++ rest))) 2) :
    ∃ s', Reaches s s' ∧ Line s' (tokens ++ [.blockEntry, Config.Written.textToken text]) 2 outer rest n := by
  obtain ⟨hlength, l, i, hsettle⟩ := h.settles (Int.le_refl 2)
  have hdash : readToken ⟨⟨'-' :: ' ' :: (written 4 text ++ (blanks n ++ rest)), l, 2, i⟩, tokens, 2, outer, true,
      [none]⟩ =
        some (behind (' ' :: (written 4 text ++ (blanks n ++ rest))) l 3 (i + 1) (tokens ++ [.blockEntry]) outer
          true) := by
    rw [readToken]
    simp only [atEnd_cons, Nat.succ_ne_zero, decide_false, atMark_of_pos (Nat.succ_pos 1), peek_cons,
      Bool.false_and, Bool.false_eq_true, if_false]
    rfl
  have hnext := next_of_settle hsettle hdash
  have hfirst : Reaches s (behind (' ' :: (written 4 text ++ (blanks n ++ rest))) l 3 (i + 1)
      (tokens ++ [.blockEntry]) outer true) :=
    reaches_of_next hnext (by simp [behind] at hlength ⊢; omega) (by simp [behind])
  obtain ⟨s', hreaches, hline⟩ := reaches_text hrest hn (show 2 ≤ 3 by omega) text
  rw [List.append_assoc] at hline
  exact ⟨s', hfirst.trans hreaches, hline⟩

/-! ### Lines one after another -/

section Lines

variable {α : Type} (text : α → List Char)

/-- Where the next line begins: that of an item, or one behind all items. -/
def nextColumn (k n : Nat) (items : List α) : Nat := if items.isEmpty then n else k

/-- What the next line begins with, and everything after it. -/
def nextLine (k n : Nat) (rest : List Char) : List α → List Char
  | [] => rest
  | a :: items => text a ++ (items.flatMap (fun a => blanks k ++ text a) ++ (blanks n ++ rest))

lemma flatMap_nextLine (k n : Nat) (rest : List Char) (items : List α) :
    items.flatMap (fun a => blanks k ++ text a) ++ (blanks n ++ rest) =
      blanks (nextColumn k n items) ++ nextLine text k n rest items := by
  cases items with
  | nil => rfl
  | cons a items => simp [nextColumn, nextLine]

variable {text}

lemma starts_nextLine (hrest : Starts rest) {items : List α}
    (htext : ∀ a ∈ items, ∀ behind, Starts (text a ++ behind)) (k n : Nat) :
    Starts (nextLine text k n rest items) := by
  cases items with
  | nil => exact hrest
  | cons a items => exact htext a List.mem_cons_self _

/-- If each item is read up to the next line, so are all of them. -/
lemma reaches_lines {k : Nat} (hk : k ≤ 2) (hrest : Starts rest) (hn : n ≤ 2) {items : List α}
    (htext : ∀ a ∈ items, ∀ behind, Starts (text a ++ behind)) (added : α → List Token)
    (hitem : ∀ a ∈ items, ∀ {s tokens rest n}, Starts rest → n ≤ 2 →
      Line s tokens 2 outer (text a ++ (blanks n ++ rest)) k →
        ∃ s', Reaches s s' ∧ Line s' (tokens ++ added a) 2 outer rest n)
    (h : Line s tokens 2 outer (nextLine text k n rest items) (nextColumn k n items)) :
    ∃ s', Reaches s s' ∧ Line s' (tokens ++ items.flatMap added) 2 outer rest n := by
  induction items generalizing s tokens with
  | nil => exact ⟨s, .refl s, by rwa [List.flatMap_nil, List.append_nil]⟩
  | cons a items ih =>
    have hcolumn : nextColumn k n items ≤ 2 := by
      rw [nextColumn]
      split <;> omega
    rw [List.forall_mem_cons] at htext hitem
    rw [nextLine, flatMap_nextLine] at h
    obtain ⟨s', hreaches, hline⟩ := hitem.1 (starts_nextLine hrest htext.2 k n) hcolumn h
    obtain ⟨s'', hreaches', hline'⟩ := ih htext.2 hitem.2 hline
    rw [List.append_assoc] at hline'
    exact ⟨s'', hreaches.trans hreaches', hline'⟩

end Lines

/-! ### Keys -/

variable {name after : List Char}

/-- The scan stands behind a name, which will be a key if a colon follows. -/
def named (name after : List Char) (l col i : Nat) (tokens : List Token) (indent : Int) (outer : List Int) :
    Scan := ⟨⟨':' :: after, l, col + name.length, i + name.length⟩,
      tokens ++ [.scalar .plain (String.ofList name)], indent, outer, false,
      [some ⟨decide (indent = (col : Int)), tokens.length, l, col, i⟩]⟩

lemma readToken_name (hname : ∀ c ∈ name, isKeyChar c = true) (hne : name ≠ [])
    (hafter : isBlankZ (after.headD '\x00') = true) :
    readToken ⟨⟨name ++ ':' :: after, l, col, i⟩, tokens, indent, outer, true, [none]⟩ =
      some (named name after l col i tokens indent outer) := by
  have hread := readPlain_name hname hafter hne (indent + 1) l col i
  obtain ⟨c, name, rfl⟩ := List.exists_cons_of_ne_nil hne
  have hc := hname c List.mem_cons_self
  have hmark : markKey ⟨⟨c :: name ++ ':' :: after, l, col, i⟩, tokens, indent, outer, true, [none]⟩ =
      some ⟨⟨c :: name ++ ':' :: after, l, col, i⟩, tokens, indent, outer, true,
        [some ⟨decide (indent = (col : Int)), tokens.length, l, col, i⟩]⟩ := rfl
  have hflow : inFlow ⟨⟨c :: name ++ ':' :: after, l, col, i⟩, tokens, indent, outer, true,
      [some ⟨decide (indent = (col : Int)), tokens.length, l, col, i⟩]⟩ = false := rfl
  have hne (d : Char) (hd : isKeyChar d = false) : c ≠ d := ne_of_isKeyChar hc hd
  have hmarks : (['#', ',', '[', ']', '{', '}', '&', '*', '!', '|', '>', '\'', '"', '%', '@', '\x60'].contains c ||
      (['?', ':', '-'].contains c && isBlankZ ((name ++ ':' :: after).headD '\x00'))) = false := by
    simp [hne '#' rfl, hne ',' rfl, hne '[' rfl, hne ']' rfl, hne '{' rfl, hne '}' rfl, hne '&' rfl, hne '*' rfl,
      hne '!' rfl, hne '|' rfl, hne '>' rfl, hne '\'' rfl, hne '"' rfl, hne '%' rfl, hne '@' rfl, hne '\x60' rfl,
      hne '?' rfl, hne ':' rfl, hne '-' rfl]
  have hplain : readToken ⟨⟨c :: name ++ ':' :: after, l, col, i⟩, tokens, indent, outer, true, [none]⟩ =
      plain ⟨⟨c :: name ++ ':' :: after, l, col, i⟩, tokens, indent, outer, true, [none]⟩ :=
    readToken_plain rfl rfl (atDocumentMark_of_isKeyChar hc) (isBlankZ_of_isKeyChar hc) hmarks
  rw [hplain, plain, hmark]
  simp only [Option.bind_eq_bind, Option.bind_some]
  rw [hflow, hread]
  rfl

lemma readToken_colon (hafter : isBlankZ (after.headD '\x00') = true) :
    (named name after l col i tokens indent outer).readToken =
      (named name after l col i tokens indent outer).value := by
  have hspaced : isBlankZ ((Cursor.mk (':' :: after) l (col + name.length) (i + name.length)).peek 1) = true := by
    rwa [peek_cons_succ, peek_mk]
  have hpeek : ((':' : Char) = '%') = False := by simp
  have hmark (mark : Char) (hne : mark ≠ ':') :
      (Cursor.mk (':' :: after) l (col + name.length) (i + name.length)).atMark mark = false := by
    simp [Cursor.atMark, hne.symm]
  rw [readToken]
  simp only [named, atEnd_cons, peek_cons, hpeek, decide_false, Bool.and_false, Bool.false_eq_true, if_false,
    hmark '-' (by decide), hmark '.' (by decide), hspaced, Bool.or_true, Bool.and_true]
  rfl

lemma settle_named (hshort : name.length ≤ 1024) (hindent : indent ≤ col) :
    (named name after l col i tokens indent outer).settle =
      some (named name after l col i tokens indent outer) := by
  have hvisible : Visible (':' :: after) := by
    rintro d ⟨⟩
    exact ⟨by decide, rfl, rfl⟩
  have hskip : skipBlanks ((':' :: after).length + 1) (named name after l col i tokens indent outer) =
      named name after l col i tokens indent outer := skipBlanks_blanks hvisible (.inl (by simp)) (n := 0)
  have hstale : (named name after l col i tokens indent outer).dropStale =
      some (named name after l col i tokens indent outer) := by
    have hfresh : ¬1024 < name.length := by omega
    simp [dropStale, named, hfresh]
  have hdedent : (named name after l col i tokens indent outer).dedent (col + name.length : Nat) =
      named name after l col i tokens indent outer := dedent_of_le (by simp [named]; omega)
  have hcursor : (named name after l col i tokens indent outer).cursor.rest = ':' :: after := rfl
  rw [settle, hcursor, hskip, hstale]
  exact congrArg some hdedent

/-- The colon makes a key of the name in front of it, and opens a mapping if that is indented deeper. -/
lemma next_colon (hshort : name.length ≤ 1024) (hafter : isBlankZ (after.headD '\x00') = true)
    (hindent : indent ≤ col) : (named name after l col i tokens indent outer).next =
      some ⟨⟨after, l, col + name.length + 1, i + name.length + 1⟩,
        tokens ++ (if indent < col then [.blockMappingStart] else []) ++
          [.key, .scalar .plain (String.ofList name), .value],
        col, if indent < col then indent :: outer else outer, false, [none]⟩ := by
  refine next_of_settle (settle_named hshort hindent) ((readToken_colon hafter).trans ?_)
  by_cases hopens : indent < col
  · have hdeeper : ¬(col : Int) ≤ indent := by omega
    simp [value, named, insertAt, indentTo, inFlow, hdeeper, hopens, add]
  · have hsame : indent = col := by omega
    simp [value, named, insertAt, indentTo, inFlow, hsame, add]

/-- A key is read up to its colon. -/
lemma reaches_key (hname : ∀ c ∈ name, isKeyChar c = true) (hne : name ≠ []) (hshort : name.length ≤ 1024)
    (hafter : isBlankZ (after.headD '\x00') = true) (hindent : indent ≤ col)
    (h : Settles s tokens indent outer (name ++ ':' :: after) col) :
    ∃ l i, Reaches s ⟨⟨after, l, col + name.length + 1, i⟩,
      tokens ++ (if indent < col then [.blockMappingStart] else []) ++
        [.key, .scalar .plain (String.ofList name), .value],
      col, if indent < col then indent :: outer else outer, false, [none]⟩ := by
  obtain ⟨hlength, l, i, hsettle⟩ := h
  have hpos : 0 < name.length := List.length_pos_iff.2 hne
  have hfirst := reaches_of_next (next_of_settle hsettle (readToken_name hname hne hafter))
    (by simp [named] at hlength ⊢; omega) (by simp [named])
  exact ⟨l, _, hfirst.trans (reaches_of_next (next_colon hshort hafter hindent) (by simp [named]) (by simp))⟩

end Scan

end Synchrony.Yaml
