import Mathlib.Tactic.Common
import Synchrony.Value.Text

/-!
# Reading compact texts character by character

A reader of a text needs to know very little to tell brackets from characters of strings: whether it
stands in a string, and how many brackets are open (`Spot`). The compact text of a value leaves
every reader where it was (`Value.closed_compact`). So the text of an object cannot stand behind a
colon at the end of the text of another object (`Value.compact_obj_ne_append`): a reader that comes
to the colon outside strings would not close all brackets, and one that comes to it in a string
would see each quote the other way round.
-/

namespace Synchrony

/-- Where a reader stands, and how many brackets are open there. -/
inductive Spot where
  | plain (level : Nat)
  | quoted (level : Nat)
  /-- Behind a backslash in a string. -/
  | escaped (level : Nat)

namespace Spot

/-- Where the next character leads; no bracket is closed that is not open. -/
def next? : Spot → Char → Option Spot
  | plain n, c =>
    if c = '"' then some (quoted n)
    else if c = '\\' then none
    else if c = '\x7b' ∨ c = '[' then some (plain (n + 1))
    else if c = '\x7d' ∨ c = ']' then if n = 0 then none else some (plain (n - 1))
    else some (plain n)
  | quoted n, c =>
    if c = '"' then some (plain n) else if c = '\\' then some (escaped n) else some (quoted n)
  | escaped n, _ => some (quoted n)

/-- Where a text leads. -/
def read? (s : Spot) (text : List Char) : Option Spot := text.foldlM next? s

@[simp] lemma read?_nil (s : Spot) : s.read? [] = some s := rfl

@[simp] lemma read?_cons (s : Spot) (c : Char) (text : List Char) :
    s.read? (c :: text) = (s.next? c).bind fun s => s.read? text := List.foldlM_cons

@[simp] lemma read?_append (s : Spot) (text text' : List Char) :
    s.read? (text ++ text') = (s.read? text).bind fun s => s.read? text' := List.foldlM_append

/-! ### Readers that disagree on what is a string -/

/-- One reader stands in a string and the other one does not. -/
inductive Opposite : Spot → Spot → Prop where
  | left (m n : Nat) : Opposite (plain m) (quoted n)
  | right (m n : Nat) : Opposite (quoted m) (plain n)

lemma exists_plain_of_next? {m : Nat} {c : Char} {s : Spot} (hquote : c ≠ '"')
    (h : (plain m).next? c = some s) : c ≠ '\\' ∧ ∃ n, s = plain n := by
  rw [next?, if_neg hquote] at h
  split at h
  · simp at h
  rename_i hslash
  refine ⟨hslash, ?_⟩
  split at h
  · cases h
    exact ⟨_, rfl⟩
  split at h
  · split at h
    · simp at h
    · cases h
      exact ⟨_, rfl⟩
  · cases h
    exact ⟨_, rfl⟩

lemma Opposite.next {s s' t t' : Spot} {c : Char} (h : Opposite s s') (hs : s.next? c = some t)
    (hs' : s'.next? c = some t') : Opposite t t' := by
  by_cases hquote : c = '"'
  · subst hquote
    cases h <;> cases hs <;> cases hs'
    · exact .right _ _
    · exact .left _ _
  · cases h with
    | left m n =>
      obtain ⟨hslash, m', rfl⟩ := exists_plain_of_next? hquote hs
      rw [next?, if_neg hquote, if_neg hslash] at hs'
      cases hs'
      exact .left _ _
    | right m n =>
      obtain ⟨hslash, n', rfl⟩ := exists_plain_of_next? hquote hs'
      rw [next?, if_neg hquote, if_neg hslash] at hs
      cases hs
      exact .right _ _

/-- Two such readers disagree to the end of the text. -/
lemma Opposite.read {s s' t t' : Spot} {text : List Char} (h : Opposite s s')
    (hs : s.read? text = some t) (hs' : s'.read? text = some t') : Opposite t t' := by
  induction text generalizing s s' with
  | nil =>
    cases hs
    cases hs'
    exact h
  | cons c text ih =>
    rw [read?_cons] at hs hs'
    obtain ⟨s₁, hc, hs⟩ := Option.bind_eq_some_iff.1 hs
    obtain ⟨s₁', hc', hs'⟩ := Option.bind_eq_some_iff.1 hs'
    exact ih (h.next hc hc') hs hs'

end Spot

/-! ### Closed texts -/

/-- The text leaves every reader that stands outside strings where it was. -/
def Closed (text : List Char) : Prop := ∀ n, (Spot.plain n).read? text = some (.plain n)

namespace Closed

lemma nil : Closed [] := by
  intro n
  rfl

lemma append {text text' : List Char} (h : Closed text) (h' : Closed text') :
    Closed (text ++ text') := by
  intro n
  rw [Spot.read?_append, h n, Option.bind_some, h' n]

lemma cons {c : Char} {text : List Char} (hc : Closed [c]) (h : Closed text) : Closed (c :: text) :=
  append hc h

/-- A character that is no quote, backslash or bracket. -/
lemma of_ordinary {c : Char} (h : c ∉ ['"', '\\', '\x7b', '[', '\x7d', ']']) : Closed [c] := by
  intro n
  simp only [List.mem_cons, List.not_mem_nil, or_false, not_or] at h
  obtain ⟨hquote, hslash, hbrace, hbracket, hbrace', hbracket'⟩ := h
  simp [Spot.next?, hquote, hslash, hbrace, hbracket, hbrace', hbracket']

lemma of_forall {text : List Char} (h : ∀ c ∈ text, Closed [c]) : Closed text := by
  induction text with
  | nil => exact nil
  | cons c text ih =>
    rw [List.forall_mem_cons] at h
    exact cons h.1 (ih h.2)

lemma braces {text : List Char} (h : Closed text) : Closed ('\x7b' :: (text ++ ['\x7d'])) := by
  intro n
  have hopen : (Spot.plain n).next? '\x7b' = some (.plain (n + 1)) := rfl
  rw [Spot.read?_cons, hopen, Option.bind_some, Spot.read?_append, h (n + 1)]
  rfl

lemma brackets {text : List Char} (h : Closed text) : Closed ('[' :: (text ++ [']'])) := by
  intro n
  have hopen : (Spot.plain n).next? '[' = some (.plain (n + 1)) := rfl
  rw [Spot.read?_cons, hopen, Option.bind_some, Spot.read?_append, h (n + 1)]
  rfl

end Closed

namespace Value

/-! ### Strings -/

lemma hexDigit_ne : ∀ n < 16, hexDigit n ≠ '"' ∧ hexDigit n ≠ '\\' := by
  decide

lemma next?_quoted_of_ne {n : Nat} {c : Char} (hquote : c ≠ '"') (hslash : c ≠ '\\') :
    (Spot.quoted n).next? c = some (.quoted n) := by
  rw [Spot.next?, if_neg hquote, if_neg hslash]

/-- An escaped character does not end the string. -/
lemma read?_escapeChar (n : Nat) (c : Char) :
    (Spot.quoted n).read? (escapeChar c) = some (.quoted n) := by
  unfold escapeChar
  split
  · rfl
  split
  · rfl
  split
  · rfl
  split
  · rfl
  split
  · rfl
  split
  · rfl
  split
  · rfl
  rename_i hquote hslash _ _ _ _ _
  split
  · rename_i hcontrol
    have hhigh := hexDigit_ne (c.toNat / 16) (by omega)
    have hlow := hexDigit_ne (c.toNat % 16) (by omega)
    have hprefix : (Spot.quoted n).read? ['\\', 'u', '0', '0'] = some (.quoted n) := rfl
    change (Spot.quoted n).read? (['\\', 'u', '0', '0'] ++
      [hexDigit (c.toNat / 16), hexDigit (c.toNat % 16)]) = _
    rw [Spot.read?_append, hprefix, Option.bind_some, Spot.read?_cons,
      next?_quoted_of_ne hhigh.1 hhigh.2, Option.bind_some, Spot.read?_cons,
      next?_quoted_of_ne hlow.1 hlow.2]
    rfl
  · rw [Spot.read?_cons, next?_quoted_of_ne hquote hslash]
    rfl

lemma closed_quote (s : String) : Closed (quote s) := by
  have hbody (n : Nat) (cs : List Char) :
      (Spot.quoted n).read? (cs.flatMap escapeChar) = some (.quoted n) := by
    induction cs with
    | nil => rfl
    | cons c cs ih =>
      rw [List.flatMap_cons, Spot.read?_append, read?_escapeChar, Option.bind_some, ih]
  intro n
  have hopen : (Spot.plain n).next? '"' = some (.quoted n) := rfl
  rw [quote, Spot.read?_cons, hopen, Option.bind_some, Spot.read?_append, hbody]
  rfl

/-! ### Numbers -/

lemma closed_digit {n : Nat} {c : Char} (h : c ∈ Double.digits n) : Closed [c] := by
  apply Closed.of_ordinary
  have hdigit := Nat.isDigit_of_mem_toDigits (by decide) (by decide) h
  intro hmem
  simp only [List.mem_cons, List.not_mem_nil, or_false] at hmem
  rcases hmem with rfl | rfl | rfl | rfl | rfl | rfl <;> revert hdigit <;> decide

lemma closed_digits (n : Nat) : Closed (Double.digits n) :=
  Closed.of_forall fun _ => closed_digit

lemma closed_take_digits (n k : Nat) : Closed ((Double.digits n).take k) :=
  Closed.of_forall fun _ hc => closed_digit (List.mem_of_mem_take hc)

lemma closed_drop_digits (n k : Nat) : Closed ((Double.digits n).drop k) :=
  Closed.of_forall fun _ hc => closed_digit (List.mem_of_mem_drop hc)

lemma closed_zeros (k : Nat) : Closed (List.replicate k '0') := by
  apply Closed.of_forall
  intro c hc
  rw [List.eq_of_mem_replicate hc]
  exact .of_ordinary (by decide)

lemma closed_renderInt (n : Int) : Closed (renderInt n) := by
  cases n with
  | ofNat n => exact closed_digits n
  | negSucc n => exact .cons (.of_ordinary (by decide)) (closed_digits (n + 1))

lemma closed_point : Closed ['.'] := .of_ordinary (by decide)

lemma closed_zero : Closed ['0'] := .of_ordinary (by decide)

lemma closed_renderDecimal (d : Nat) (k : Int) : Closed (Double.renderDecimal d k) := by
  simp only [Double.renderDecimal]
  split
  · have hrest := closed_drop_digits d 1
    apply Closed.append
    · refine (closed_take_digits d 1).append ?_
      split
      · exact .nil
      · exact .cons closed_point hrest
    · refine .cons (.of_ordinary (by decide)) (.cons ?_ (closed_digits _))
      split <;> exact .of_ordinary (by decide)
  split
  · exact ((closed_digits d).append (closed_zeros _)).append (.cons closed_point closed_zero)
  split
  · exact (closed_take_digits d _).append (.cons closed_point (closed_drop_digits d _))
  · exact .cons closed_zero (.cons closed_point ((closed_zeros _).append (closed_digits d)))

lemma closed_render (x : Double) : Closed x.render := by
  have hbody : Closed (if x.isZero then ['0', '.', '0'] else
      Double.renderDecimal x.shortest.1 x.shortest.2) := by
    split
    · exact .cons closed_zero (.cons closed_point closed_zero)
    · exact closed_renderDecimal _ _
  simp only [Double.render]
  split
  · exact .cons (.of_ordinary (by decide)) hbody
  · exact hbody

/-! ### Values -/

lemma closed_colon : Closed [':'] := .of_ordinary (by decide)

lemma closed_comma : Closed [','] := .of_ordinary (by decide)

mutual
/-- The text of a value leaves a reader where it was. -/
lemma closed_compact : ∀ v : Value, Closed (compact v)
  | null | bool true | bool false => by
    apply Closed.of_forall
    simp only [compact, List.forall_mem_cons]
    simp [Closed.of_ordinary]
  | int n => by
    rw [compact]
    exact closed_renderInt n
  | double x => by
    rw [compact]
    exact closed_render x
  | str s => by
    rw [compact]
    exact closed_quote s
  | arr [] => by
    rw [compact]
    exact Closed.nil.brackets
  | arr (item :: rest) => by
    obtain ⟨text, htext, hclosed⟩ := exists_compactItems rest
    rw [compact, htext, ← List.append_assoc]
    exact ((closed_compact item).append hclosed).brackets
  | obj [] => by
    rw [compact]
    exact Closed.nil.braces
  | obj ((key, v) :: rest) => by
    obtain ⟨text, htext, hclosed⟩ := exists_compactFields rest
    have hbody := (closed_quote key).append
      (.cons closed_colon ((closed_compact v).append hclosed))
    rw [compact, htext]
    simpa using hbody.braces

/-- Behind the items after the first, the bracket closes. -/
lemma exists_compactItems : ∀ items : List Value,
    ∃ text, compactItems items = text ++ [']'] ∧ Closed text
  | [] => ⟨[], by rw [compactItems]; rfl, .nil⟩
  | item :: rest => by
    obtain ⟨text, htext, hclosed⟩ := exists_compactItems rest
    refine ⟨',' :: (compact item ++ text), ?_, ?_⟩
    · rw [compactItems, htext, List.cons_append, List.append_assoc]
    · exact .cons closed_comma ((closed_compact item).append hclosed)

/-- Behind the fields after the first, the brace closes. -/
lemma exists_compactFields : ∀ fields : List (String × Value),
    ∃ text, compactFields fields = text ++ ['\x7d'] ∧ Closed text
  | [] => ⟨[], by rw [compactFields]; rfl, .nil⟩
  | (key, v) :: rest => by
    obtain ⟨text, htext, hclosed⟩ := exists_compactFields rest
    refine ⟨',' :: (quote key ++ ':' :: (compact v ++ text)), ?_, ?_⟩
    · simp only [compactFields, htext, List.cons_append, List.append_assoc]
    · exact .cons closed_comma
        ((closed_quote key).append (.cons closed_colon ((closed_compact v).append hclosed)))
end

lemma exists_compact_obj (fields : List (String × Value)) :
    ∃ text, compact (.obj fields) = '\x7b' :: (text ++ ['\x7d']) ∧ Closed text := by
  cases fields with
  | nil => exact ⟨[], by rw [compact]; rfl, .nil⟩
  | cons e rest =>
    obtain ⟨key, v⟩ := e
    obtain ⟨text, htext, hclosed⟩ := exists_compactFields rest
    refine ⟨quote key ++ ':' :: (compact v ++ text), ?_, ?_⟩
    · simp only [compact, htext, List.cons_append, List.append_assoc]
    · exact (closed_quote key).append (.cons closed_colon ((closed_compact v).append hclosed))

/-- The text of an object does not end in a colon and the text of an object. -/
theorem compact_obj_ne_append (fields fields' : List (String × Value)) (front : List Char) :
    compact (.obj fields) ≠ front ++ ':' :: compact (.obj fields') := by
  intro h
  obtain ⟨text, htext, hclosed⟩ := exists_compact_obj fields
  obtain ⟨text', htext', hclosed'⟩ := exists_compact_obj fields'
  rw [htext, htext'] at h
  cases front with
  | nil => simp at h
  | cons c front =>
    simp only [List.cons_append, List.cons.injEq] at h
    have hsplit : text ++ ['\x7d'] = (front ++ ':' :: '\x7b' :: text') ++ ['\x7d'] := by
      rw [h.2]
      simp
    have hread := hclosed 0
    rw [List.append_cancel_right hsplit, Spot.read?_append] at hread
    obtain ⟨s, -, hread⟩ := Option.bind_eq_some_iff.1 hread
    have hplain (n : Nat) : (Spot.plain n).read? ('\x7b' :: text') = some (.plain (n + 1)) :=
      hclosed' (n + 1)
    have hquoted (n : Nat) : (Spot.quoted n).read? ('\x7b' :: text') ≠ some (.plain 0) := by
      intro hread
      cases (Spot.Opposite.left 0 n).read (hplain 0) hread
    rw [Spot.read?_cons] at hread
    cases s with
    | plain n =>
      -- the brace that opens the second object would stay open
      change (Spot.plain n).read? ('\x7b' :: text') = _ at hread
      rw [hplain n] at hread
      cases hread
    | quoted n => exact hquoted n hread
    | escaped n => exact hquoted n hread

end Value

end Synchrony
