import Mathlib.Data.List.TakeWhile
import Synchrony.Proofs.Yaml.Plain

/-!
# Literal blocks are read back

A block is read line by line. It ends where a line is indented less than the first one, and its header
says which of the line breaks in front of that line belong to the text.
-/

namespace Synchrony.Yaml

variable {k m n l col i fuel deepest : Nat} {rest next cs es bs breaks line : List Char} {c : Char}

/-! ### Lines -/

lemma indented_line (hline : ∀ c ∈ line, isBreak c = false) (cs : List Char) :
    indented k false (line ++ cs) = line ++ indented k false cs := by
  induction line with
  | nil => rfl
  | cons c line ih =>
    rw [List.forall_mem_cons] at hline
    rw [List.cons_append, indented, hline.1, ih hline.2]
    rfl

lemma indented_breaks (hbs : ∀ c ∈ bs, isBreak c = true) (cs : List Char) :
    indented k true (bs ++ cs) = bs ++ indented k true cs := by
  induction bs with
  | nil => rfl
  | cons c bs ih =>
    rw [List.forall_mem_cons] at hbs
    rw [List.cons_append, indented, hbs.1, if_pos rfl, ih hbs.2]
    rfl

/-- Where the next line begins: that of a text, or one that is indented less. -/
def margin (k n : Nat) (es : List Char) : Nat := if es.isEmpty then n else k

/-- What the next line begins with, and everything after it. -/
def ahead (k n : Nat) (rest es : List Char) : List Char :=
  if es.isEmpty then rest else indented k false es ++ (blanks n ++ rest)

lemma indented_ahead (hfirst : ∀ c ∈ es.head?, isBreak c = false) :
    indented k true es ++ (blanks n ++ rest) = blanks (margin k n es) ++ ahead k n rest es := by
  cases es with
  | nil => rfl
  | cons c es =>
    have hc := hfirst c rfl
    simp [margin, ahead, indented, hc]

lemma length_le_indented (k : Nat) (begins : Bool) (es : List Char) :
    es.length ≤ (indented k begins es).length := by
  induction es generalizing begins with
  | nil => exact Nat.zero_le _
  | cons c es ih =>
    rw [indented]
    split
    · exact Nat.succ_le_succ (ih true)
    · rw [List.length_append, List.length_cons, List.length_cons]
      have hle := ih false
      omega

lemma length_le_ahead (k n : Nat) (rest es : List Char) : es.length ≤ (ahead k n rest es).length := by
  cases es with
  | nil => exact Nat.zero_le _
  | cons c es =>
    have hle := length_le_indented k false (c :: es)
    rw [ahead, if_neg (by simp), List.length_append]
    omega

/-- A text whose last line ends is a line with the line breaks behind it, and further lines. -/
lemma exists_line (hfirst : isBreak c = false) (hlast : ∀ d ∈ (c :: es).getLast?, isBreak d = true) :
    ∃ line b bs es', c :: es = line ++ b :: (bs ++ es') ∧ line ≠ [] ∧ (∀ d ∈ line, isBreak d = false) ∧
      (∀ d ∈ b :: bs, isBreak d = true) ∧ (∀ d ∈ es'.head?, isBreak d = false) ∧
        ∀ d ∈ es'.getLast?, isBreak d = true := by
  obtain ⟨line, hline⟩ : ∃ line, line = (c :: es).takeWhile (! isBreak ·) := ⟨_, rfl⟩
  have hsplit := List.takeWhile_append_dropWhile (p := (! isBreak ·)) (l := c :: es)
  rw [← hline] at hsplit
  have hmem (d : Char) (hd : d ∈ line) : isBreak d = false := by
    rw [hline] at hd
    simpa using List.mem_takeWhile_imp hd
  have hne : line ≠ [] := by
    rw [hline, List.takeWhile_cons]
    simp [hfirst]
  have hhead := List.head?_dropWhile_not (! isBreak ·) (c :: es)
  cases hafter : (c :: es).dropWhile (! isBreak ·) with
  | nil =>
    -- the last character would be one of the line
    rw [hafter, List.append_nil] at hsplit
    have hbreak := hlast _ (List.getLast?_eq_some_getLast (List.cons_ne_nil c es))
    rw [hmem ((c :: es).getLast (List.cons_ne_nil c es)) (by rw [hsplit]; exact List.getLast_mem _)] at hbreak
    cases hbreak
  | cons b after =>
    rw [hafter] at hsplit hhead
    have hb : isBreak b = true := by simpa using hhead
    have hbreaks := List.takeWhile_append_dropWhile (p := isBreak) (l := after)
    refine ⟨line, b, after.takeWhile isBreak, after.dropWhile isBreak, ?_, hne, hmem, ?_, ?_, ?_⟩
    · rw [hbreaks, hsplit]
    · rw [List.forall_mem_cons]
      exact ⟨hb, fun d hd => List.mem_takeWhile_imp hd⟩
    · intro d hd
      have hnot := List.head?_dropWhile_not isBreak after
      rwa [hd] at hnot
    · intro d hd
      refine hlast d ?_
      rw [← hsplit, ← hbreaks]
      simp only [List.getLast?_append, List.getLast?_cons, Option.mem_def] at hd ⊢
      simp [hd]

lemma takeWhile_line (hline : ∀ c ∈ line, isWritable c = true ∧ isBreak c = false) (hc : isBreak c = true) :
    (Cursor.mk (line ++ c :: cs) l col i).takeWhile (! isBreakZ ·) =
      (line, ⟨c :: cs, l, col + line.length, i + line.length⟩) := by
  have hvisible : ∀ d ∈ line, (! isBreakZ d) = true := by
    intro d hd
    rw [isBreakZ_of_isWritable (hline d hd).1 (hline d hd).2]
    rfl
  have htake : (line ++ c :: cs).takeWhile (! isBreakZ ·) = line := by
    rw [List.takeWhile_append_of_pos hvisible, List.takeWhile_cons]
    simp [isBreakZ, hc]
  have hdrop : (line ++ c :: cs).drop line.length = c :: cs := List.drop_left' rfl
  simp [Cursor.takeWhile, htake, Cursor.skip, hdrop]

/-! ### Line breaks -/

/-- A line ends the line breaks in front of it, be it one of the block or one that is indented less. -/
lemma blockBreaks_line (breaks : List Char) (deepest l i : Nat) (hm : m = k + 1 ∨ m < k + 1 ∧ Starts next)
    (hnext : isBreak (next.headD '\x00') = false) :
    blockBreaks (k + 1) (fuel + 1) deepest breaks ⟨blanks m ++ next, l, 0, i⟩ =
      some (breaks, max deepest m, ⟨next, l, m, i + m⟩) := by
  have hlength : (blanks m).length = m := List.length_replicate
  have hbehind : (next.take (k + 1 - (blanks m).length)).takeWhile (· = ' ') = [] := by
    rw [hlength]
    rcases hm with rfl | ⟨-, hstarts⟩
    · simp
    · cases next with
      | nil => simp
      | cons d next =>
        have hd : d ≠ ' ' := hstarts.peek_ne rfl l 0 i
        cases k + 1 - m <;> simp [hd]
  have hspaces : (((blanks m ++ next).take (k + 1)).takeWhile (· = ' ')).length = m := by
    have hblank : ∀ c ∈ blanks m, decide (c = ' ') = true := by simp [blanks]
    have htake : (blanks m).take (k + 1) = blanks m := by
      refine List.take_of_length_le ?_
      rw [hlength]
      omega
    rw [List.take_append, htake, List.takeWhile_append_of_pos hblank, hbehind, List.append_nil, hlength]
  have hskip : (Cursor.mk (blanks m ++ next) l 0 i).skip m = ⟨next, l, m, i + m⟩ := by
    have hdrop : (blanks m ++ next).drop m = next := List.drop_left' hlength
    simp [Cursor.skip, hdrop]
  have htab : ¬(((decide (k + 1 = 0) || decide (m < k + 1)) &&
      decide ((Cursor.mk next l m (i + m)).peek = '\t')) = true) := by
    rcases hm with rfl | ⟨-, hstarts⟩
    · simp
    · simp [hstarts.peek_ne (d := '\t') rfl]
  rw [blockBreaks]
  dsimp only
  rw [if_neg (Nat.succ_ne_zero k), Nat.sub_zero, hspaces, hskip, if_neg htab, peek_mk, hnext,
    if_neg Bool.false_ne_true]

lemma blockBreaks_break (breaks : List Char) (deepest l i : Nat) (hc : isBreak c = true)
    (hwritable : isWritable c = true) :
    blockBreaks (k + 1) (fuel + 1) deepest breaks ⟨c :: cs, l, 0, i⟩ =
      blockBreaks (k + 1) fuel deepest (breaks ++ [c]) ⟨cs, l + 1, 0, i + 1⟩ := by
  have hspace : c ≠ ' ' := by
    rintro rfl
    cases hc
  have htab : c ≠ '\t' := by
    rintro rfl
    cases hc
  rw [blockBreaks]
  simp [hspace, htab, Cursor.skip, hc, readBreak_of_isWritable hc hwritable]

/-- The line breaks in front of a line are read with what the line begins with. -/
lemma blockBreaks_eq (breaks : List Char) (deepest l i : Nat) (hm : m = k + 1 ∨ m < k + 1 ∧ Starts next)
    (hnext : isBreak (next.headD '\x00') = false)
    (hbs : ∀ c ∈ bs, isBreak c = true ∧ isWritable c = true) (hfuel : bs.length + 1 ≤ fuel) :
    ∃ deepest' l' i', l ≤ l' ∧
      blockBreaks (k + 1) fuel deepest breaks ⟨bs ++ (blanks m ++ next), l, 0, i⟩ =
        some (breaks ++ bs, deepest', ⟨next, l', m, i'⟩) := by
  induction bs generalizing fuel breaks l i with
  | nil =>
    obtain ⟨fuel, rfl⟩ := Nat.exists_eq_add_of_le' (show 1 ≤ fuel from hfuel)
    rw [List.nil_append, List.append_nil]
    exact ⟨max deepest m, l, i + m, Nat.le_refl l, blockBreaks_line breaks deepest l i hm hnext⟩
  | cons b bs ih =>
    rw [List.length_cons] at hfuel
    obtain ⟨fuel, rfl⟩ := Nat.exists_eq_add_of_le' (show 1 ≤ fuel by omega)
    rw [List.forall_mem_cons] at hbs
    obtain ⟨deepest', l', i', hl, hread⟩ := ih (breaks ++ [b]) (l + 1) (i + 1) hbs.2
      (show bs.length + 1 ≤ fuel by omega)
    refine ⟨deepest', l', i', by omega, ?_⟩
    rw [List.append_cons, ← hread, List.cons_append, blockBreaks_break breaks deepest l i hbs.1.1 hbs.1.2]

/-- After the line breaks of a text comes its next line, or one that is indented less. -/
lemma blockBreaks_ahead (l i : Nat) (hrest : Starts rest) (hn : n < k) (hfirst : ∀ c ∈ es.head?, isBreak c = false)
    (hbs : ∀ c ∈ bs, isBreak c = true ∧ isWritable c = true) (hfuel : bs.length + 1 ≤ fuel) :
    ∃ deepest' l' i', l ≤ l' ∧
      blockBreaks k fuel 0 [] ⟨bs ++ (indented k true es ++ (blanks n ++ rest)), l, 0, i⟩ =
        some (bs, deepest', ⟨ahead k n rest es, l', margin k n es, i'⟩) := by
  obtain ⟨k, rfl⟩ := Nat.exists_eq_add_of_le' (show 1 ≤ k by omega)
  rw [indented_ahead hfirst]
  refine blockBreaks_eq [] 0 l i ?_ ?_ hbs hfuel
  · cases es with
    | nil => exact .inr ⟨hn, hrest⟩
    | cons c es => exact .inl rfl
  · cases es with
    | nil => exact hrest.isBreak_peek l 0 i
    | cons c es =>
      have hc := hfirst c rfl
      simp [ahead, indented, hc]

/-! ### The lines of a block -/

/-- The text (reversed) ends in a line, with one line break behind it and further ones. -/
structure Ended (text lead trail : List Char) : Prop where
  text : ∃ c ∈ text.head?, isBreak c = false
  lead : ∃ b, lead = [b] ∧ isBreak b = true
  trail : ∀ c ∈ trail, isBreak c = true

/-- The lines of a block are read up to one that is indented less. -/
lemma blockLines_eq (hrest : Starts rest) (hn : n < k) (hes : ∀ c ∈ es, isWritable c = true)
    (hfirst : ∀ c ∈ es.head?, isBreak c = false) (hlast : ∀ c ∈ es.getLast?, isBreak c = true)
    {text lead trail : List Char} (hended : es = [] → Ended text lead trail) (blank : Bool)
    (hfuel : es.length + 1 ≤ fuel) :
    ∃ text' lead' trail' l' i', l ≤ l' ∧ blockLines true k fuel text lead trail blank
        ⟨ahead k n rest es, l, margin k n es, i⟩ = some (text', lead', trail', ⟨rest, l', n, i'⟩) ∧
      Ended text' lead' trail' ∧
        text'.reverse ++ (lead' ++ trail') = text.reverse ++ (lead ++ (trail ++ es)) := by
  induction hlength : es.length using Nat.strongRecOn generalizing es fuel text lead trail blank l i with
  | ind N ih =>
    obtain ⟨fuel, rfl⟩ := Nat.exists_eq_add_of_le' (show 1 ≤ fuel by omega)
    cases es with
    | nil =>
      refine ⟨text, lead, trail, l, i, Nat.le_refl l, ?_, hended rfl, by simp⟩
      rw [blockLines]
      simp [margin, ahead, Nat.ne_of_lt hn]
    | cons c es =>
      obtain ⟨line, b, bs, es', hsplit, hne, hline, hbreaks, hfirst', hlast'⟩ :=
        exists_line (hfirst c rfl) hlast
      rw [hsplit] at hes hfuel hlength ⊢
      simp only [List.length_append, List.length_cons] at hfuel hlength
      simp only [List.mem_append, List.mem_cons] at hes
      rw [List.forall_mem_cons] at hbreaks
      have hahead : ahead k n rest (line ++ b :: (bs ++ es')) =
          line ++ b :: (bs ++ (indented k true es' ++ (blanks n ++ rest))) := by
        simp [ahead, hne, indented_line hline, indented, hbreaks.1, indented_breaks hbreaks.2]
      have hmargin : margin k n (line ++ b :: (bs ++ es')) = k := by simp [margin]
      rw [hahead, hmargin]
      have hlines (d : Char) (hd : d ∈ line) := And.intro (hes d (.inl hd)) (hline d hd)
      obtain ⟨deepest, l', i', hl, hnext⟩ := blockBreaks_ahead (l + 1) (i + line.length + 1) hrest hn hfirst'
        (fun d hd => ⟨hbreaks.2 d hd, hes d (.inr (.inr (.inl hd)))⟩)
        (show bs.length + 1 ≤ (bs ++ (indented k true es' ++ (blanks n ++ rest))).length + 1 by simp)
      have hended' : Ended (line.reverse ++ (lead ++ trail).reverse ++ text) [b] bs := by
        refine ⟨?_, ⟨b, rfl, hbreaks.1⟩, hbreaks.2⟩
        obtain ⟨line, d, rfl⟩ := List.eq_nil_or_concat line |>.resolve_left hne
        exact ⟨d, by simp, hline d (by simp)⟩
      generalize indented k true es' ++ (blanks n ++ rest) = after at hnext ⊢
      obtain ⟨text', lead', trail', l'', i'', hl', hread, hends, htotal⟩ := ih es'.length (by omega)
        (fun d hd => hes d (.inr (.inr (.inr hd)))) hfirst' hlast' (fun _ => hended')
        (isBlank (Cursor.mk (line ++ b :: (bs ++ after)) l k i).peek) (show es'.length + 1 ≤ fuel by omega) rfl
        (l := l') (i := i')
      refine ⟨text', lead', trail', l'', i'', by omega, ?_, hends, by simp [htotal]⟩
      have hmore : (Cursor.mk (line ++ b :: (bs ++ after)) l k i).atEnd = false := by simp [Cursor.atEnd]
      rw [blockLines, hmore]
      simp only [takeWhile_line hlines hbreaks.1, readBreak_of_isWritable hbreaks.1 (hes b (.inr (.inl rfl))),
        hnext, ne_eq, not_true_eq_false, Bool.not_true, Bool.false_and, Bool.or_false, if_false,
        Bool.false_eq_true, decide_false, Option.bind_eq_bind, Option.bind_some]
      exact hread

/-! ### Headers -/

/-- A text with a line break at its end. -/
def ended (cs : List Char) : List Char := if cs.getLast?.any isBreak then cs else cs ++ ['\n']

/-- The chomping that the header of a text asks for. -/
def chompingOf (cs : List Char) : Chomping :=
  match cs.reverse with
  | a :: b :: _ => if !isBreak a then .strip else if isBreak b then .keep else .clip
  | [a] => if isBreak a then .keep else .strip
  | [] => .strip

/-- The line breaks at the end of a block that belong to its text. -/
def Chomping.kept (lead trail : List Char) : Chomping → List Char
  | .strip => []
  | .clip => lead
  | .keep => lead ++ trail

/-- Whether a text begins with a blank line or an indented one. -/
def beginsBlank (cs : List Char) : Bool := cs.head?.any fun c => c = ' ' || isBreak c

lemma literalBlock_eq (k : Nat) (cs : List Char) :
    literalBlock k cs = blockHeader cs ++ '\n' :: indented k true (ended cs) := by
  have hnewline (begins : Bool) : indented k begins ['\n'] = ['\n'] := rfl
  rw [literalBlock, ended]
  split
  · rw [List.append_nil]
  · rw [indented_append, hnewline]

/-- The sign that asks for a chomping. -/
def Chomping.sign : Chomping → List Char
  | .strip => ['-']
  | .clip => []
  | .keep => ['+']

lemma blockHeader_eq (cs : List Char) :
    blockHeader cs = '|' :: (if beginsBlank cs then ['2'] else []) ++ (chompingOf cs).sign := by
  rw [blockHeader, chompingOf, beginsBlank]
  generalize cs.reverse = reversed
  congr 1
  rcases reversed with _ | ⟨a, _ | ⟨b, reversed⟩⟩
  · rfl
  · dsimp only
    split_ifs <;> rfl
  · dsimp only
    split_ifs <;> rfl

lemma blockHeader?_blockHeader (cs tail : List Char) (l col i : Nat) :
    ∃ col' i', blockHeader? (Cursor.mk (blockHeader cs ++ '\n' :: tail) l col i).skip =
      some (chompingOf cs, if beginsBlank cs then 2 else 0, ⟨'\n' :: tail, l, col', i'⟩) := by
  rw [blockHeader_eq]
  cases chompingOf cs <;> cases beginsBlank cs <;> exact ⟨_, _, rfl⟩

lemma restOfLine?_newline (tail : List Char) :
    restOfLine? ⟨'\n' :: tail, l, col, i⟩ = some ⟨tail, l + 1, 0, i + 1⟩ := rfl

/-- Only one line break stands behind a text if another character comes before the last one. -/
lemma Ended.eq_of_reverse {text lead trail before : List Char} {a b : Char} (h : Ended text lead trail)
    (htotal : trail.reverse ++ (lead ++ text) = a :: b :: before) (hb : isBreak b = false) :
    trail = [] ∧ lead = [a] ∧ text = b :: before := by
  obtain ⟨-, ⟨d, rfl, hd⟩, htrail⟩ := h
  have htrail : ∀ c ∈ trail.reverse, isBreak c = true := by simpa using htrail
  rw [← List.reverse_eq_nil_iff]
  generalize trail.reverse = reversed at htotal htrail ⊢
  rcases reversed with _ | ⟨t, _ | ⟨t', reversed⟩⟩
  · simpa using htotal
  · simp only [List.cons_append, List.nil_append, List.cons.injEq] at htotal
    rw [htotal.2.1, hb] at hd
    cases hd
  · simp only [List.cons_append, List.cons.injEq] at htotal
    have hbreak := htrail t' (by simp)
    rw [htotal.2.1, hb] at hbreak
    cases hbreak

/-- What is kept of the line breaks at the end of a block is what its text ends in. -/
lemma append_kept {text lead trail : List Char} (h : Ended text lead trail)
    (htotal : text.reverse ++ (lead ++ trail) = ended cs) (hne : cs ≠ []) :
    text.reverse ++ (chompingOf cs).kept lead trail = cs := by
  obtain ⟨a, before, hcs⟩ : ∃ a before, cs.reverse = a :: before :=
    List.exists_cons_of_ne_nil (by simpa using hne)
  have hlast : cs.getLast? = some a := by rw [← List.head?_reverse, hcs, List.head?_cons]
  have hlead : lead.reverse = lead := by
    obtain ⟨b, rfl, -⟩ := h.lead
    rfl
  have hrev := congrArg List.reverse htotal
  rw [List.reverse_append, List.reverse_append, List.reverse_reverse, hlead, List.append_assoc, ended,
    hlast, Option.any_some] at hrev
  cases ha : isBreak a with
  | false =>
    rw [ha, if_neg Bool.false_ne_true, List.reverse_append, hcs] at hrev
    obtain ⟨-, -, rfl⟩ := h.eq_of_reverse hrev ha
    have hchomping : chompingOf cs = .strip := by
      rw [chompingOf, hcs]
      cases before <;> simp [ha]
    rw [hchomping, ← hcs, List.reverse_reverse]
    exact List.append_nil cs
  | true =>
    rw [ha, if_pos rfl] at hrev
    rw [ended, hlast, Option.any_some, ha, if_pos rfl] at htotal
    cases before with
    | nil =>
      have hchomping : chompingOf cs = .keep := by simp [chompingOf, hcs, ha]
      rw [hchomping]
      exact htotal
    | cons b before =>
      cases hb : isBreak b with
      | false =>
        rw [hcs] at hrev
        obtain ⟨rfl, -, -⟩ := h.eq_of_reverse hrev hb
        have hchomping : chompingOf cs = .clip := by simp [chompingOf, hcs, ha, hb]
        rw [hchomping]
        rwa [List.append_nil] at htotal
      | true =>
        have hchomping : chompingOf cs = .keep := by simp [chompingOf, hcs, ha, hb]
        rw [hchomping]
        exact htotal

/-! ### Blocks -/

/-- Without an indentation in the header the first line tells it. -/
lemma blockBreaks_detect (hc : isWritable c = true) (hbreak : isBreak c = false) (hspace : c ≠ ' ') :
    blockBreaks 0 (fuel + 1) 0 [] ⟨blanks k ++ c :: next, l, 0, i⟩ =
      some ([], k, ⟨c :: next, l, k, i + k⟩) := by
  have htab : c ≠ '\t' := by
    rintro rfl
    cases hc
  have hspaces : (((blanks k ++ c :: next).take (blanks k ++ c :: next).length).takeWhile (· = ' ')).length =
      k := by
    rw [List.take_length, List.takeWhile_append_of_pos (by simp [blanks])]
    simp [hspace, blanks]
  have hskip : (Cursor.mk (blanks k ++ c :: next) l 0 i).skip k = ⟨c :: next, l, k, i + k⟩ := by
    have hdrop : (blanks k ++ c :: next).drop k = c :: next := List.drop_left' List.length_replicate
    simp [Cursor.skip, hdrop]
  rw [blockBreaks]
  dsimp only
  rw [if_pos rfl, hspaces, hskip]
  simp [htab, hbreak]

lemma isBreak_of_ended (cs : List Char) (hc : (ended cs).getLast? = some c) : isBreak c = true := by
  rw [ended] at hc
  split at hc
  · rename_i h
    rwa [hc] at h
  · rw [List.getLast?_append] at hc
    cases hc
    rfl

/-- A text of line breaks alone is kept as it is. -/
lemma kept_of_breaks (hbs : ∀ c ∈ ended cs, isBreak c = true) (hne : cs ≠ []) :
    (chompingOf cs).kept [] (ended cs) = cs := by
  have hcs : ∀ c ∈ cs, isBreak c = true := by
    intro c hc
    refine hbs c ?_
    rw [ended]
    split
    · exact hc
    · exact List.mem_append_left _ hc
  have hlast : cs.getLast?.any isBreak = true := by
    rw [List.getLast?_eq_some_getLast hne, Option.any_some]
    exact hcs _ (List.getLast_mem hne)
  have hreverse : ∀ c ∈ cs.reverse, isBreak c = true := by simpa using hcs
  have hchomping : chompingOf cs = .keep := by
    rw [chompingOf]
    have hne : cs.reverse ≠ [] := by simpa using hne
    generalize cs.reverse = reversed at hreverse hne
    rcases reversed with _ | ⟨a, _ | ⟨b, reversed⟩⟩
    · exact absurd rfl hne
    · simp [hreverse a (by simp)]
    · simp [hreverse a (by simp), hreverse b (by simp)]
  rw [hchomping, ended, if_pos hlast]
  rfl

/-- The lines of a block are read with what is kept of the line breaks at its end. -/
lemma blockLines_ended (hrest : Starts rest) (hn : n < k) (hwritable : ∀ c ∈ es, isWritable c = true)
    (hsplit : ended cs = bs ++ es) (hbs : ∀ c ∈ bs, isBreak c = true)
    (hfirst : ∀ c ∈ es.head?, isBreak c = false) (hne : cs ≠ []) (hfuel : es.length + 1 ≤ fuel) :
    ∃ text lead trail l' i', l ≤ l' ∧ blockLines true k fuel [] [] bs false
        ⟨ahead k n rest es, l, margin k n es, i⟩ = some (text, lead, trail, ⟨rest, l', n, i'⟩) ∧
      text.reverse ++ (chompingOf cs).kept lead trail = cs := by
  by_cases hes : es = []
  · obtain rfl := hes
    obtain ⟨fuel, rfl⟩ := Nat.exists_eq_add_of_le' (show 1 ≤ fuel from hfuel)
    rw [List.append_nil] at hsplit
    refine ⟨[], [], bs, l, i, Nat.le_refl l, ?_, ?_⟩
    · rw [blockLines]
      simp [margin, ahead, Nat.ne_of_lt hn]
    · rw [← hsplit] at hbs ⊢
      exact kept_of_breaks hbs hne
  · have hlast : ∀ c ∈ es.getLast?, isBreak c = true := by
      intro c hc
      refine isBreak_of_ended cs ?_
      rw [hsplit, List.getLast?_append, hc]
      rfl
    have hended : es = [] → Ended [] [] bs := (absurd · hes)
    obtain ⟨text, lead, trail, l', i', hl, hread, hended, htotal⟩ := blockLines_eq hrest hn hwritable hfirst
      hlast hended false hfuel (l := l) (i := i)
    rw [List.reverse_nil, List.nil_append, List.nil_append, ← hsplit] at htotal
    exact ⟨text, lead, trail, l', i', hl, hread, append_kept hended htotal hne⟩

/-- The first line that is not blank tells the indentation, unless the header has to. -/
lemma blockBreaks_start (hrest : Starts rest) (hn : n < k) (hwritable : ∀ c ∈ ended cs, isWritable c = true)
    (hsplit : ended cs = bs ++ es) (hbs : ∀ c ∈ bs, isBreak c = true)
    (hfirst : ∀ c ∈ es.head?, isBreak c = false) (hne : cs ≠ []) (hfuel : bs.length + 1 ≤ fuel) :
    ∃ deepest l' i', l ≤ l' ∧ blockBreaks (if beginsBlank cs then k else 0) fuel 0 []
        ⟨bs ++ (indented k true es ++ (blanks n ++ rest)), l, 0, i⟩ =
          some (bs, deepest, ⟨ahead k n rest es, l', margin k n es, i'⟩) ∧
      (beginsBlank cs = false → deepest = k) := by
  rw [hsplit] at hwritable
  simp only [List.mem_append] at hwritable
  cases hbegins : beginsBlank cs with
  | true =>
    obtain ⟨deepest, l', i', hl, hread⟩ := blockBreaks_ahead l i hrest hn hfirst
      (fun c hc => ⟨hbs c hc, hwritable c (.inl hc)⟩) hfuel
    exact ⟨deepest, l', i', hl, hread, nofun⟩
  | false =>
    obtain ⟨c, cs, rfl⟩ := List.exists_cons_of_ne_nil hne
    simp only [beginsBlank, List.head?_cons, Option.any_some, Bool.or_eq_false_iff, decide_eq_false_iff_not]
      at hbegins
    obtain ⟨es', hes'⟩ : ∃ es', ended (c :: cs) = c :: es' := by
      rw [ended]
      split
      · exact ⟨cs, rfl⟩
      · exact ⟨cs ++ ['\n'], rfl⟩
    rw [hes'] at hsplit
    cases bs with
    | cons b bs =>
      rw [List.cons_append, List.cons.injEq] at hsplit
      have hb := hbs b List.mem_cons_self
      rw [← hsplit.1, hbegins.2] at hb
      cases hb
    | nil =>
      obtain rfl : c :: es' = es := hsplit
      obtain ⟨fuel, rfl⟩ := Nat.exists_eq_add_of_le' (show 1 ≤ fuel from hfuel)
      have hline : indented k true (c :: es') ++ (blanks n ++ rest) =
          blanks k ++ c :: (indented k false es' ++ (blanks n ++ rest)) := by
        simp [indented, hbegins.2]
      refine ⟨k, l, i + k, Nat.le_refl l, ?_, fun _ => rfl⟩
      rw [List.nil_append, hline, if_neg Bool.false_ne_true,
        blockBreaks_detect (hwritable c (.inr List.mem_cons_self)) hbegins.2 hbegins.1]
      simp [ahead, margin, indented, hbegins.2]

/-- A text that can be written as a block is read back from one, up to a line that is indented less. -/
theorem readBlock_literalBlock (hrest : Starts rest) {parent : Nat} (hn : n < parent + 2)
    (hcs : fitsBlock cs = true) (hne : cs ≠ []) :
    ∃ l' i', l < l' ∧ readBlock true parent ⟨literalBlock (parent + 2) cs ++ (blanks n ++ rest), l, col, i⟩ =
      some (String.ofList cs, ⟨rest, l', n, i'⟩) := by
  simp only [fitsBlock, isClean, Bool.and_eq_true, List.all_eq_true] at hcs
  have hwritable : ∀ c ∈ ended cs, isWritable c = true := by
    rw [ended]
    split
    · exact hcs.1.1
    · intro c hc
      rcases List.mem_append.1 hc with hc | hc
      · exact hcs.1.1 c hc
      · rw [List.mem_singleton] at hc
        rw [hc]
        rfl
  obtain ⟨bs, hbs⟩ : ∃ bs, bs = (ended cs).takeWhile isBreak := ⟨_, rfl⟩
  obtain ⟨es, hes⟩ : ∃ es, es = (ended cs).dropWhile isBreak := ⟨_, rfl⟩
  have hsplit : ended cs = bs ++ es := by rw [hbs, hes, List.takeWhile_append_dropWhile]
  have hbreaks : ∀ c ∈ bs, isBreak c = true := by
    rw [hbs]
    exact fun c hc => List.mem_takeWhile_imp hc
  have hfirst : ∀ c ∈ es.head?, isBreak c = false := by
    intro c hc
    have hnot := List.head?_dropWhile_not isBreak (ended cs)
    rwa [← hes, hc] at hnot
  obtain ⟨col', i₁, hheader⟩ := blockHeader?_blockHeader cs
    (bs ++ (indented (parent + 2) true es ++ (blanks n ++ rest))) l col i
  obtain ⟨deepest, l₂, i₂, hl, hstart, hdeepest⟩ := blockBreaks_start hrest hn hwritable hsplit hbreaks hfirst hne
    (show bs.length + 1 ≤ (bs ++ (indented (parent + 2) true es ++ (blanks n ++ rest))).length + 1 by simp)
    (l := l + 1) (i := i₁ + 1)
  obtain ⟨text, lead, trail, l₃, i₃, hl', hlines, htext⟩ := blockLines_ended hrest hn
    (fun c hc => hwritable c (hsplit ▸ List.mem_append_right bs hc)) hsplit hbreaks hfirst hne
    (Nat.succ_le_succ (length_le_ahead (parent + 2) n rest es)) (l := l₂) (i := i₂)
  refine ⟨l₃, i₃, by omega, ?_⟩
  have hsource : literalBlock (parent + 2) cs ++ (blanks n ++ rest) = blockHeader cs ++
      '\n' :: (bs ++ (indented (parent + 2) true es ++ (blanks n ++ rest))) := by
    simp [literalBlock_eq, hsplit, indented_breaks hbreaks]
  have hgiven : (if (if beginsBlank cs then 2 else 0) = 0 then 0 else
      (max (parent : Int) 0).toNat + if beginsBlank cs then 2 else 0) =
        if beginsBlank cs then parent + 2 else 0 := by
    cases beginsBlank cs <;> simp
  have hindent : (if (if beginsBlank cs then parent + 2 else 0) = 0 then
      max (max deepest ((parent : Int) + 1).toNat) 1 else if beginsBlank cs then parent + 2 else 0) =
        parent + 2 := by
    cases hbegins : beginsBlank cs with
    | true => rfl
    | false =>
      rw [hdeepest hbegins]
      simp
  rw [readBlock, hsource, hheader]
  simp only [Option.bind_eq_bind, Option.bind_some, restOfLine?_newline, hgiven, hstart, hindent, hlines]
  exact congrArg some (Prod.ext (congrArg String.ofList htext) rfl)

end Synchrony.Yaml
