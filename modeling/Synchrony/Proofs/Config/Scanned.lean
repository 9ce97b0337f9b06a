import Synchrony.Proofs.Yaml.Printable
import Synchrony.Proofs.Yaml.Scanning

/-!
# The text of a configuration is read as its document

Sections are written one setting after another (`textOf`), and so they are scanned. The tokens are those of
their document, which is thus read back (`ofText?_textOf`).
-/

namespace Synchrony

namespace Yaml

variable {n l col i : Nat} {outer : List Int} {rest : List Char} {tokens : List Token} {keyAllowed : Bool}

/-! ### Numbers -/

lemma isWritable_of_isDigit {c : Char} (hc : c.isDigit = true) : isWritable c = true := by
  simp only [Char.isDigit, Bool.and_eq_true, decide_eq_true_eq] at hc
  have hzero : 48 ≤ c.toNat := hc.1
  have hnine : c.toNat ≤ 57 := hc.2
  simp [isWritable]
  omega

/-- Digits can be written plain. -/
lemma fitsPlain_digits {cs : List Char} (hcs : ∀ c ∈ cs, c.isDigit = true) (hne : cs ≠ []) :
    fitsPlain cs = true := by
  have hmem (c : Char) (hc : c ∈ cs) (d : Char) (hd : d.isDigit = false) : c ≠ d := by
    rintro rfl
    rw [hcs c hc] at hd
    cases hd
  have hbreak (c : Char) (hc : c ∈ cs) : isBreak c = false := by
    simp [isBreak, hmem c hc '\r' rfl, hmem c hc '\n' rfl, hmem c hc '\u0085' rfl, hmem c hc '\u2028' rfl,
      hmem c hc '\u2029' rfl]
  have houter (c? : Option Char) (h : ∀ c ∈ c?, c ∈ cs) : (c?.any fun c => c = ' ' || isBreak c) = false := by
    cases c? with
    | none => rfl
    | some c => simp [hmem c (h c rfl) ' ' rfl, hbreak c (h c rfl)]
  have hmarks : hasMarks cs = false := by
    simp only [hasMarks, anyNeighbours, Bool.or_eq_false_iff, decide_eq_false_iff_not, List.any_eq_false]
    refine ⟨fun hlast => hmem _ (List.mem_of_getLast? hlast) ':' rfl rfl, ?_⟩
    rintro ⟨a, b⟩ hpair
    have ha := (List.of_mem_zip hpair).1
    have hblank : isBlankZ a = false := by
      simp [isBlankZ, isBlank, isBreakZ, hbreak a ha, hmem a ha ' ' rfl, hmem a ha '\t' rfl, hmem a ha '\x00' rfl]
    simp [hmem a ha ':' rfl, hblank]
  have hbegins : beginsMarked cs = false := by
    obtain ⟨c, cs, rfl⟩ := List.exists_cons_of_ne_nil hne
    have hc (d : Char) (hd : d.isDigit = false) : c ≠ d := hmem c List.mem_cons_self d hd
    rw [beginsMarked.eq_def]
    split
    · rename_i heq
      cases heq
      exact absurd rfl (hc '-' rfl)
    · rename_i heq
      cases heq
      exact absurd rfl (hc '.' rfl)
    · rename_i heq
      cases heq
      simp [hc '#' rfl, hc ',' rfl, hc '[' rfl, hc ']' rfl, hc '{' rfl, hc '}' rfl, hc '&' rfl, hc '*' rfl,
        hc '!' rfl, hc '|' rfl, hc '>' rfl, hc '\'' rfl, hc '"' rfl, hc '%' rfl, hc '@' rfl, hc '\x60' rfl,
        hc '?' rfl, hc ':' rfl, hc '-' rfl]
    · rfl
  simp only [fitsPlain, Bool.and_eq_true, Bool.not_eq_true', List.all_eq_true, List.any_eq_false]
  exact ⟨⟨⟨⟨⟨fun c hc => isWritable_of_isDigit (hcs c hc), fun c hc => by simp [hbreak c hc]⟩,
    houter _ fun c hc => List.mem_of_mem_head? hc⟩, houter _ fun c hc => List.mem_of_getLast? hc⟩, hbegins⟩, hmarks⟩

namespace Scan

/-! ### Values -/

/-- An empty sequence is written in brackets. -/
lemma reaches_brackets (hrest : Starts rest) (hcol : 2 ≤ col) :
    ∃ s, Reaches (behind (" []\n".toList ++ (blanks n ++ rest)) l col i tokens outer false) s ∧
      Line s (tokens ++ [.flowSequenceStart, .flowSequenceEnd]) 2 outer rest n := by
  have hvisible (c : Char) (after : List Char) (hc : c = '[' ∨ c = ']') : Visible (c :: after) := by
    rintro d ⟨⟩
    rcases hc with rfl | rfl <;> exact ⟨by decide, rfl, rfl⟩
  -- the scan between the brackets, and behind them
  obtain ⟨opened, hopened⟩ : ∃ opened : Scan, opened = ⟨⟨']' :: '\n' :: (blanks n ++ rest), l, col + 2, i + 2⟩,
    tokens ++ [.flowSequenceStart], 2, outer, true, [none, none]⟩ := ⟨_, rfl⟩
  obtain ⟨closed, hclosed⟩ : ∃ closed : Scan, closed = ⟨⟨'\n' :: (blanks n ++ rest), l, col + 3, i + 3⟩,
    tokens ++ [.flowSequenceStart, .flowSequenceEnd], 2, outer, false, [none]⟩ := ⟨_, rfl⟩
  have hopen : (behind ('[' :: ']' :: '\n' :: (blanks n ++ rest)) l (col + 1) (i + 1) tokens outer
      false).readToken = some opened := by
    rw [hopened, readToken]
    simp only [behind, atEnd_cons, Nat.succ_ne_zero, decide_false, atMark_of_pos (Nat.succ_pos col), peek_cons,
      Bool.false_and, Bool.false_eq_true, if_false]
    rfl
  have hsettle : opened.settle = some opened := by
    have hskip : skipBlanks (opened.cursor.rest.length + 1) opened = opened := by
      rw [hopened]
      exact skipBlanks_blanks (hvisible ']' _ (.inr rfl)) (.inl (by simp)) (n := 0)
    have hstale : opened.dropStale = some opened := by
      rw [hopened]
      rfl
    have hdedent : opened.dedent opened.cursor.column = opened := by
      rw [hopened]
      rfl
    rw [settle, hskip, hstale]
    exact congrArg some hdedent
  have hclose : opened.readToken = some closed := by
    have hbracket : opened.readToken = opened.closeFlow .flowSequenceEnd := by
      rw [hopened, readToken]
      simp only [atEnd_cons, Nat.succ_ne_zero, decide_false, atMark_of_pos (Nat.succ_pos _), peek_cons,
        Bool.false_and, Bool.false_eq_true, if_false]
    rw [hbracket, hopened, hclosed]
    simp [closeFlow, dropKey, inFlow, add]
  have hfirst : Reaches (behind (" []\n".toList ++ (blanks n ++ rest)) l col i tokens outer false) opened :=
    reaches_of_next (next_of_settle (settle_space (hvisible '[' _ (.inl rfl)) hcol) hopen)
      (by simp [behind, hopened]) (by simp [hopened])
  have hsecond : Reaches opened closed :=
    reaches_of_next (next_of_settle hsettle hclose) (by simp [hopened, hclosed]) (by simp [hclosed])
  refine ⟨closed, hfirst.trans hsecond, ?_⟩
  rw [hclosed]
  exact line_of_newline hrest (idle_none l) (Nat.le_refl l) n

/-- The value of a setting is read up to the next line. -/
lemma reaches_value (hrest : Starts rest) (hn : n ≤ 2) (hcol : 2 ≤ col) (w : Config.Written) :
    ∃ s, Reaches (behind (w.lines ++ (blanks n ++ rest)) l col i tokens outer false) s ∧
      Line s (tokens ++ w.tokens) 2 outer rest n := by
  cases w with
  | nothing =>
    exact reaches_plain hrest hn hcol (show fitsPlain "null".toList = true by decide) (by decide)
  | number k =>
    have hdigits : (toString k).toList = Nat.toDigits 10 k := by simp
    have hplain : fitsPlain (toString k).toList = true := by
      rw [hdigits]
      exact fitsPlain_digits (fun c => Nat.isDigit_of_mem_toDigits (by decide) (by decide)) Nat.toDigits_ne_nil
    have hne : (toString k).toList ≠ [] := by
      rw [hdigits]
      exact Nat.toDigits_ne_nil
    have hlines : (Config.Written.number k).lines ++ (blanks n ++ rest) =
        ' ' :: ((toString k).toList ++ '\n' :: (blanks n ++ rest)) := by simp [Config.Written.lines]
    have htoken : (Config.Written.number k).tokens = [.scalar .plain (String.ofList (toString k).toList)] := by
      rw [String.ofList_toList, Config.Written.tokens]
    rw [hlines, htoken]
    exact reaches_plain hrest hn hcol hplain hne
  | text text =>
    exact reaches_text hrest hn hcol text
  | texts items =>
    cases items with
    | nil => exact reaches_brackets hrest hcol
    | cons item items =>
      have hlines : (Config.Written.texts (item :: items)).lines =
          '\n' :: (item :: items).flatMap fun s => blanks 2 ++ ('-' :: ' ' :: written 4 s) := rfl
      have hstarts : ∀ s ∈ item :: items, ∀ behind, Starts (('-' :: ' ' :: written 4 s) ++ behind) :=
        fun s _ behind => starts_cons (.inr rfl) _
      rw [hlines, List.cons_append, flatMap_nextLine]
      exact reaches_lines (Nat.le_refl 2) hrest hn hstarts _
        (fun s _ _ _ _ _ hrest hn h => reaches_entry hrest hn s h)
        (line_of_newline (starts_nextLine hrest hstarts 2 n) (idle_none l) (Nat.le_refl l) _)

/-! ### Settings and sections -/

/-- A setting as it is written, without the blanks in front of it. -/
def settingText (e : String × Config.Written) : List Char := e.1.toList ++ ':' :: e.2.lines

/-- A section as it is written. -/
def sectionText (e : String × List (String × Config.Written)) : List Char :=
  e.1.toList ++ ':' :: '\n' :: e.2.flatMap fun e => blanks 2 ++ settingText e

/-- Whether a text names a section or a setting. -/
def isKeyName (name : String) : Bool :=
  name.toList.head?.any Char.isLower && name.toList.all isKeyChar && name.toList.length ≤ 1024

lemma exists_of_isKeyName {name : String} (hname : isKeyName name = true) :
    ∃ c cs, name.toList = c :: cs ∧ c.isLower = true ∧ (∀ d ∈ name.toList, isKeyChar d = true) ∧
      name.toList.length ≤ 1024 := by
  simp only [isKeyName, Bool.and_eq_true, List.all_eq_true, decide_eq_true_eq] at hname
  obtain ⟨⟨hfirst, hchars⟩, hlength⟩ := hname
  cases hcs : name.toList with
  | nil =>
    rw [hcs] at hfirst
    cases hfirst
  | cons c cs =>
    rw [hcs] at hfirst hchars hlength
    exact ⟨c, cs, rfl, hfirst, hchars, hlength⟩

lemma starts_of_isKeyName {name : String} (hname : isKeyName name = true) (behind : List Char) :
    Starts (name.toList ++ behind) := by
  obtain ⟨c, cs, hcs, hc, -⟩ := exists_of_isKeyName hname
  rw [hcs]
  exact starts_cons (.inl hc) _

lemma starts_settingText {settings : List (String × Config.Written)}
    (hnames : ∀ e ∈ settings, isKeyName e.1 = true) :
    ∀ e ∈ settings, ∀ behind, Starts (settingText e ++ behind) := by
  intro e he behind
  rw [settingText, List.append_assoc]
  exact starts_of_isKeyName (hnames e he) _

/-- A key is read up to its colon, with a mapping if it is the first key of one. -/
lemma reaches_name {name : String} (hname : isKeyName name = true) {indent : Int} {after : List Char}
    (hafter : isBlankZ (after.headD '\x00') = true) (hindent : indent ≤ col)
    (h : Settles s tokens indent outer (name.toList ++ ':' :: after) col) :
    ∃ l col' i, col < col' ∧ Reaches s ⟨⟨after, l, col', i⟩,
      tokens ++ (if indent < col then [.blockMappingStart] else []) ++ [.key, .scalar .plain name, .value],
      col, if indent < col then indent :: outer else outer, false, [none]⟩ := by
  obtain ⟨c, cs, hcs, -, hchars, hlength⟩ := exists_of_isKeyName hname
  obtain ⟨l, i, hreaches⟩ := reaches_key hchars (by rw [hcs]; exact List.cons_ne_nil c cs) hlength hafter hindent h
  rw [String.ofList_toList] at hreaches
  exact ⟨l, _, i, by omega, hreaches⟩

lemma isBlankZ_lines (w : Config.Written) (behind : List Char) :
    isBlankZ ((w.lines ++ behind).headD '\x00') = true := by
  cases w with
  | texts l => cases l <;> rfl
  | _ => rfl

/-- A setting is read up to the next line; the first one opens the mapping. -/
lemma reaches_setting (hrest : Starts rest) (hn : n ≤ 2) {indent : Int} (hindent : indent ≤ 2)
    {e : String × Config.Written} (hname : isKeyName e.1 = true)
    (h : Line s tokens indent outer (settingText e ++ (blanks n ++ rest)) 2) :
    ∃ s', Reaches s s' ∧ Line s' (tokens ++ (if indent < 2 then [.blockMappingStart] else []) ++
      Config.entryTokens e.1 e.2.tokens) 2 (if indent < 2 then indent :: outer else outer) rest n := by
  rw [settingText, List.append_assoc] at h
  obtain ⟨l, col, i, hcol, hkey⟩ := reaches_name hname (isBlankZ_lines e.2 _) hindent (h.settles hindent)
  obtain ⟨s', hvalue, hline⟩ := reaches_value hrest hn (Nat.le_of_lt hcol) e.2
  rw [List.append_assoc] at hline
  exact ⟨s', hkey.trans hvalue, hline⟩

/-- The settings of a section are a mapping, which ends with the next line that is indented less. -/
lemma reaches_settings (hrest : Starts rest) (hn : n ≤ 2) {settings : List (String × Config.Written)}
    (hne : settings ≠ []) (hnames : ∀ e ∈ settings, isKeyName e.1 = true)
    (h : Line s tokens 0 outer (nextLine settingText 2 n rest settings) 2) :
    ∃ s', Reaches s s' ∧ Line s' (tokens ++ .blockMappingStart ::
      settings.flatMap fun e => Config.entryTokens e.1 e.2.tokens) 2 (0 :: outer) rest n := by
  obtain ⟨e, settings, rfl⟩ := List.exists_cons_of_ne_nil hne
  rw [List.forall_mem_cons] at hnames
  have hstarts := starts_settingText hnames.2
  have hcolumn : nextColumn 2 n settings ≤ 2 := by
    rw [nextColumn]
    split <;> omega
  rw [nextLine, flatMap_nextLine] at h
  obtain ⟨s', hfirst, hline⟩ := reaches_setting (starts_nextLine hrest hstarts 2 n) hcolumn (by omega) hnames.1 h
  obtain ⟨s'', hothers, hline'⟩ := reaches_lines (Nat.le_refl 2) hrest hn hstarts
    (fun e => Config.entryTokens e.1 e.2.tokens) (fun e he _ _ _ _ hrest hn h => by
      simpa using reaches_setting hrest hn (Int.le_refl 2) (hnames.2 e he) h) hline
  refine ⟨s'', hfirst.trans hothers, ?_⟩
  simpa using hline'

/-- What is added by a section, but for the end of its mapping, which is known only by the next line. -/
def sectionTokens (e : String × List (String × Config.Written)) : List Token :=
  Config.entryTokens e.1 (.blockMappingStart :: e.2.flatMap fun e => Config.entryTokens e.1 e.2.tokens)

/-- Whether a section has settings, and it and they have names. -/
def Named (e : String × List (String × Config.Written)) : Prop :=
  isKeyName e.1 = true ∧ e.2 ≠ [] ∧ ∀ setting ∈ e.2, isKeyName setting.1 = true

lemma starts_sectionText {e : String × List (String × Config.Written)} (he : Named e) (behind : List Char) :
    Starts (sectionText e ++ behind) := by
  rw [sectionText, List.append_assoc]
  exact starts_of_isKeyName he.1 _

/-- A section is read up to the next line; the first one opens the mapping. -/
lemma reaches_section (hrest : Starts rest) (hn : n ≤ 2) {indent : Int} (hindent : indent ≤ 0)
    {e : String × List (String × Config.Written)} (he : Named e)
    (h : Settles s tokens indent outer (sectionText e ++ (blanks n ++ rest)) 0) :
    ∃ s', Reaches s s' ∧ Line s' (tokens ++ (if indent < 0 then [.blockMappingStart] else []) ++ sectionTokens e)
      2 (0 :: if indent < 0 then indent :: outer else outer) rest n := by
  obtain ⟨hname, hne, hnames⟩ := he
  rw [sectionText, List.append_assoc, List.cons_append, List.cons_append, flatMap_nextLine] at h
  obtain ⟨l, col, i, -, hkey⟩ := reaches_name hname rfl hindent h
  have hstarts := starts_settingText hnames
  have hcolumn : nextColumn 2 n e.2 = 2 := by simp [nextColumn, hne]
  rw [hcolumn] at hkey
  obtain ⟨s', hsettings, hline'⟩ := reaches_settings hrest hn hne hnames
    (line_of_newline (starts_nextLine hrest hstarts 2 n) (idle_none l) (Nat.le_refl l) 2)
  rw [List.append_assoc] at hline'
  exact ⟨s', hkey.trans hsettings, hline'⟩

/-! ### Whole texts -/

/-- Behind the last section the mappings end, and the text. -/
lemma toEnd_of_line (h : Line s tokens 2 [0, -1] [] 0) (fuel : Nat) :
    toEnd (fuel + 1) s = some (tokens ++ [.blockEnd, .blockEnd, .streamEnd]) := by
  obtain ⟨-, l, i, hsettle⟩ := h.settles_outside (by decide) (by decide)
  have hread : readToken ⟨⟨[], l, 0, i⟩, tokens ++ [.blockEnd], 0, [-1], true, [none]⟩ =
      some ⟨⟨[], l, 0, i⟩, tokens ++ [.blockEnd] ++ [.blockEnd] ++ [.streamEnd], -1, [], false, [none]⟩ := rfl
  have hnext := next_of_settle hsettle hread
  rw [toEnd, hnext, Option.bind_some, if_pos (by simp)]
  simp

/-- A text of sections is read to its end. -/
lemma toEnd_sections {e : String × List (String × Config.Written)}
    {sections : List (String × List (String × Config.Written))} (hnamed : ∀ e' ∈ e :: sections, Named e')
    {text : List Char} (htext : text = (e :: sections).flatMap sectionText) :
    toEnd (text.length + 2) { cursor := { rest := text } } = some (.blockMappingStart :: sectionTokens e ++
      sections.flatMap (fun e => .blockEnd :: sectionTokens e) ++ [.blockEnd, .blockEnd, .streamEnd]) := by
  rw [List.forall_mem_cons] at hnamed
  have hstarts : ∀ e ∈ sections, ∀ behind, Starts (sectionText e ++ behind) :=
    fun e he => starts_sectionText (hnamed.2 e he)
  have hcolumn : nextColumn 0 0 sections = 0 := by
    rw [nextColumn]
    split <;> rfl
  have hrest : text = sectionText e ++ (blanks 0 ++ nextLine sectionText 0 0 [] sections) := by
    have hothers := flatMap_nextLine sectionText 0 0 [] sections
    rw [hcolumn] at hothers
    rw [htext, List.flatMap_cons, ← hothers]
    simp
  have hstart : Line { cursor := { rest := text } } [] (-1) [] text 0 := by
    have htext : Starts text := hrest ▸ starts_sectionText hnamed.1 _
    refine ⟨Nat.le_refl _, 0, 0, ?_⟩
    have hskip : skipBlanks (text.length + 1) { cursor := { rest := text } } = { cursor := { rest := text } } :=
      skipBlanks_blanks (n := 0) (visible_of_starts htext) (.inl (head?_ne_of_starts htext))
    rw [hskip]
    rfl
  have hsettles : Settles { cursor := { rest := text } } [] (-1) []
      (sectionText e ++ (blanks 0 ++ nextLine sectionText 0 0 [] sections)) 0 := by
    rw [← hrest]
    exact hstart.settles (by decide)
  obtain ⟨s, hfirst, hline⟩ := reaches_section (starts_nextLine starts_nil hstarts 0 0) (Nat.zero_le 2)
    (show (-1 : Int) ≤ 0 by decide) hnamed.1 hsettles
  have hline : Line s (.blockMappingStart :: sectionTokens e) 2 [0, -1] (nextLine sectionText 0 0 [] sections)
      (nextColumn 0 0 sections) := by
    rw [hcolumn]
    simpa using hline
  obtain ⟨s', hothers, hline'⟩ := reaches_lines (Nat.zero_le 2) starts_nil (Nat.zero_le 2) hstarts
    (fun e => .blockEnd :: sectionTokens e) (fun e he _ _ _ _ hrest hn h => by
      simpa using reaches_section hrest hn (Int.le_refl 0) (hnamed.2 e he)
        (h.settles_outside (show ((0 : Nat) : Int) < 2 by decide) (by decide))) hline
  obtain ⟨n, hn, hrun⟩ := hfirst.trans hothers
  have hn : n + s'.cursor.rest.length ≤ text.length := hn
  obtain ⟨fuel, hfuel⟩ := Nat.exists_eq_add_of_le (show n + 1 ≤ text.length + 2 by omega)
  have hfuel : text.length + 2 = fuel + 1 + n := by omega
  rw [hfuel, hrun, toEnd_of_line hline']

end Scan

end Yaml

/-! ### Written sections -/

namespace Config

open Yaml Yaml.Scan

/-- The text of sections. -/
def textOf (sections : List (String × List (String × Written))) : String :=
  String.ofList (sections.flatMap sectionText)

lemma text_eq (c : Config) : c.text = textOf c.sections := by
  refine congrArg (fun line => String.ofList (c.sections.flatMap line)) (funext fun e => ?_)
  simp [sectionText, settingText]

/-- The end of a mapping stands behind its section, or in front of the next one. -/
lemma flatMap_blockEnd (e : String × List (String × Written)) (sections : List (String × List (String × Written))) :
    sectionTokens e ++ sections.flatMap (fun e => .blockEnd :: sectionTokens e) ++ [.blockEnd] =
      (e :: sections).flatMap fun e => entryTokens e.1 (mappingTokens Written.tokens e.2) := by
  have hends (e : String × List (String × Written)) :
      entryTokens e.1 (mappingTokens Written.tokens e.2) = sectionTokens e ++ [.blockEnd] := rfl
  induction sections generalizing e with
  | nil => simp [hends]
  | cons e' sections ih =>
    conv_rhs => rw [List.flatMap_cons, hends, ← ih e']
    simp

lemma all_lines (w : Written) : w.lines.all isPrintable = true := by
  have hnewline : ['\n'].all isPrintable = true := rfl
  have hspace : isPrintable ' ' = true := rfl
  have htext (s : String) := all_written Written.depth s
  cases w with
  | nothing => decide
  | number n =>
    have hdigits : (toString n).toList.all isWritable = true := by
      rw [List.all_eq_true]
      intro c hc
      have hmem : c ∈ Nat.toDigits 10 n := by simpa using hc
      exact isWritable_of_isDigit (Nat.isDigit_of_mem_toDigits (by decide) (by decide) hmem)
    rw [Written.lines, List.cons_append, List.all_cons, List.all_append, all_isPrintable hdigits]
    rfl
  | text s =>
    rw [Written.lines, List.all_cons, htext]
    rfl
  | texts l =>
    cases l with
    | nil => decide
    | cons s l =>
      have hitem (s : String) : ("  - ".toList ++ written Written.depth s).all isPrintable = true := by
        rw [List.all_append, htext]
        rfl
      have hitems : ((s :: l).flatMap fun s => "  - ".toList ++ written Written.depth s).all isPrintable =
          true := by
        rw [List.all_flatMap, List.all_eq_true]
        exact fun s _ => hitem s
      exact hitems

lemma toNat_of_isLower {c : Char} (hc : c.isLower = true) : 97 ≤ c.toNat ∧ c.toNat ≤ 122 := by
  have hbounds : (decide (97 ≤ c.val) && decide (c.val ≤ 122)) = true := hc
  simp only [Bool.and_eq_true, decide_eq_true_eq] at hbounds
  exact hbounds

lemma all_name {name : String} (hname : isKeyName name = true) : name.toList.all isPrintable = true := by
  obtain ⟨-, -, -, -, hchars, -⟩ := exists_of_isKeyName hname
  rw [List.all_eq_true]
  intro c hc
  have hchar := hchars c hc
  rw [isKeyChar, Bool.or_eq_true, decide_eq_true_eq] at hchar
  rcases hchar with hlower | rfl
  · have hbounds := toNat_of_isLower hlower
    simp [isPrintable]
    omega
  · rfl

lemma all_sectionText {e : String × List (String × Written)} (he : Named e) :
    (sectionText e).all isPrintable = true := by
  obtain ⟨hname, -, hnames⟩ := he
  have hsettings : (e.2.flatMap fun e => blanks 2 ++ settingText e).all isPrintable = true := by
    rw [List.all_flatMap, List.all_eq_true]
    intro e he
    rw [settingText, List.all_append, List.all_append, List.all_cons, all_blanks, all_name (hnames e he), all_lines]
    rfl
  rw [sectionText, List.all_append, List.all_cons, List.all_cons, all_name hname, hsettings]
  rfl

variable {sections : List (String × List (String × Written))}

/-- The tokens of the text of sections are those of its document. -/
theorem tokens?_textOf (hne : sections ≠ []) (hnamed : ∀ e ∈ sections, Named e) :
    tokens? (textOf sections) = some (tokensOf sections) := by
  have htext : (textOf sections).toList = sections.flatMap sectionText := String.toList_ofList
  have hprintable : (textOf sections).toList.all isPrintable = true := by
    rw [htext, List.all_flatMap, List.all_eq_true]
    exact fun e he => all_sectionText (hnamed e he)
  obtain ⟨e, sections, rfl⟩ := List.exists_cons_of_ne_nil hne
  have hstarts : Starts (textOf (e :: sections)).toList := by
    rw [htext, List.flatMap_cons]
    exact starts_sectionText (hnamed e List.mem_cons_self) _
  have hmark : tokens? (textOf (e :: sections)) = if (textOf (e :: sections)).toList.all isPrintable then
      toEnd ((textOf (e :: sections)).toList.length + 2) { cursor := { rest := (textOf (e :: sections)).toList } }
        else none := by
    rw [tokens?]
    split
    · rename_i heq
      exact (head?_ne_of_starts hstarts (by rw [heq]; rfl)).elim
    · rfl
  rw [hmark, hprintable, if_pos rfl, toEnd_sections hnamed htext, tokensOf, mappingTokens, ← flatMap_blockEnd]
  simp

/-- The text of sections is read as their document. -/
theorem ofText?_textOf (hne : sections ≠ []) (hnamed : ∀ e ∈ sections, Named e) :
    Document.ofText? (textOf sections) = some (documentOf sections) := by
  have hdocument := Read.document_tokensOf sections
    (show (tokensOf sections).length + 2 ≤ 4 * (tokensOf sections).length + 8 by omega)
  rw [Document.ofText?, tokens?_textOf hne hnamed]
  simp only [Option.bind_eq_bind, Option.bind_some]
  rw [hdocument]
  rfl

end Config

end Synchrony
