import Mathlib.Data.Option.Basic
import Mathlib.Tactic.Common
import Synchrony.Proofs.Store.Collection
import Synchrony.Proofs.RuleTable.Installed

/-!
# Texts of values read back

The compact text of a value without numbers reads back as the value (`Value.Plain.givesBack`),
whatever stands behind it that may: the reader is given fuel for each character, and each character
of a string comes back from its escape. So a document of texts and lists of texts is the one that a
store on disk gives back (`Store.legible_of_plain`).
-/

namespace Synchrony

namespace KeyMap

variable {α : Type}

lemma place_of_forall_lt {entries : List (String × α)} {key : String} {a : α}
    (h : ∀ e ∈ entries, e.1 < key) : place key a entries = entries ++ [(key, a)] := by
  induction entries with
  | nil => rfl
  | cons e entries ih =>
    obtain ⟨hlt, hrest⟩ := List.forall_mem_cons.1 h
    have hnot : ¬ key < e.1 := fun hgt => String.lt_irrefl e.1 (String.lt_trans hlt hgt)
    have hne : key ≠ e.1 := fun heq => String.lt_irrefl e.1 (heq ▸ hlt)
    rw [place, if_neg hnot, if_neg hne, ih hrest]
    rfl

/-- An entry behind all others is stored behind them. -/
lemma entries_insert {m : KeyMap α} {key : String} {a : α}
    (h : (m.entries ++ [(key, a)]).Pairwise (fun a b => a.1 < b.1)) :
    (m.insert key a).entries = m.entries ++ [(key, a)] :=
  place_of_forall_lt fun e he => (List.pairwise_append.1 h).2.2 e he (key, a) (by simp)

lemma entries_foldl_insert {l : List (String × α)} {m : KeyMap α}
    (h : (m.entries ++ l).Pairwise (fun a b => a.1 < b.1)) :
    (l.foldl (fun m e => m.insert e.1 e.2) m).entries = m.entries ++ l := by
  induction l generalizing m with
  | nil => simp
  | cons e l ih =>
    have hentries : (m.insert e.1 e.2).entries = m.entries ++ [e] :=
      entries_insert (h.sublist (by simp))
    rw [List.foldl_cons, ih (by simpa [hentries] using h), hentries, List.append_assoc]
    rfl

/-- Storing the entries of a map one after the other gives the map. -/
lemma ofList_entries (m : KeyMap α) : ofList m.entries = m := by
  have hentries : (ofList m.entries).entries = m.entries :=
    entries_foldl_insert m.ordered
  generalize ofList m.entries = n at hentries
  cases m
  cases n
  cases hentries
  rfl

end KeyMap

namespace Value

/-- A value without numbers, of objects and arrays that are nested at most so deep. -/
inductive Plain : Nat → Value → Prop where
  | null (n : Nat) : Plain n .null
  | bool (n : Nat) (b : Bool) : Plain n (.bool b)
  | str (n : Nat) (s : String) : Plain n (.str s)
  | arr {n : Nat} {items : List Value} (hitems : ∀ v ∈ items, Plain n v) : Plain (n + 1) (.arr items)
  | obj {n : Nat} {f : Fields} (hfields : ∀ e ∈ f.entries, Plain n e.2) : Plain (n + 1) f.toValue

namespace Reader

/-! ### Strings -/

lemma hexDigit?_hexDigit : ∀ n < 16, hexDigit? (hexDigit n) = some n := by decide

lemma hexQuad?_low {n : Nat} (h : n < 32) (rest : List Char) :
    hexQuad? ('0' :: '0' :: hexDigit (n / 16) :: hexDigit (n % 16) :: rest) = some (n, rest) := by
  have hzero : hexDigit? '0' = some 0 := by decide
  simp only [hexQuad?, hzero, hexDigit?_hexDigit (n / 16) (by omega),
    hexDigit?_hexDigit (n % 16) (by omega), Option.bind_eq_bind, Option.bind_some, Option.pure_def]
  congr 2
  omega

/-- A character is read back from its escape, for one unit of fuel. -/
lemma string?_escapeChar (fuel : Nat) (read : List Char) (c : Char) (rest : List Char) :
    string? (fuel + 1) read (escapeChar c ++ rest) = string? fuel (c :: read) rest := by
  simp only [escapeChar]
  split_ifs with hquote hslash hnew hreturn htab hback hfeed hlow
  case pos | pos | pos | pos | pos | pos | pos => subst c; rfl
  case pos =>
    have hchar : Char.ofNat c.toNat = c := c.ofNat_toNat
    simp [string?, escape?, unicodeEscape?, hexQuad?_low hlow, hchar,
      show ¬ (56320 ≤ c.toNat ∧ c.toNat ≤ 57343) by omega,
      show ¬ (55296 ≤ c.toNat ∧ c.toNat ≤ 56319) by omega]
  case neg => simp [string?, hlow]

lemma length_escapeChar_pos (c : Char) : 0 < (escapeChar c).length := by
  simp only [escapeChar]
  split_ifs <;> simp

lemma string?_flatMap_escapeChar {fuel : Nat} {text : List Char}
    (hfuel : (text.flatMap escapeChar).length < fuel) (read rest : List Char) :
    string? fuel read (text.flatMap escapeChar ++ '"' :: rest) =
      some (String.ofList (read.reverse ++ text), rest) := by
  induction text generalizing fuel read with
  | nil =>
    obtain ⟨fuel, rfl⟩ := Nat.exists_eq_succ_of_ne_zero (Nat.ne_zero_of_lt hfuel)
    simp [string?]
  | cons c text ih =>
    obtain ⟨fuel, rfl⟩ := Nat.exists_eq_succ_of_ne_zero (Nat.ne_zero_of_lt hfuel)
    have hpos := length_escapeChar_pos c
    simp only [List.flatMap_cons, List.length_append] at hfuel
    rw [List.flatMap_cons, List.append_assoc, string?_escapeChar, ih (by omega)]
    simp

/-- What stands in quotes is read back. -/
lemma string?_quote (fuel : Nat) (s : String) (hfuel : (quote s).length ≤ fuel + 1)
    (rest : List Char) :
    ∃ inner, quote s ++ rest = '"' :: inner ∧ string? fuel [] inner = some (s, rest) := by
  refine ⟨s.toList.flatMap escapeChar ++ '"' :: rest, by simp [quote], ?_⟩
  simp only [quote, List.length_cons, List.length_append, List.length_nil] at hfuel
  rw [string?_flatMap_escapeChar (by omega)]
  simp

end Reader

/-! ### Values -/

lemma Reader.skip_cons {c : Char} (h : Reader.isBlank c = false) (rest : List Char) :
    Reader.skip (c :: rest) = c :: rest := List.dropWhile_cons_of_neg (by simp [h])

/-- The text begins with a character that is neither a blank nor a closing bracket. -/
def Opens (text : List Char) : Prop :=
  ∃ c rest, text = c :: rest ∧ Reader.isBlank c = false ∧ c ≠ ']' ∧ c ≠ '\x7d'

lemma quote_opens (s : String) : Opens (quote s) :=
  ⟨'"', _, rfl, by decide, by decide, by decide⟩

lemma length_quote (s : String) : 2 ≤ (quote s).length := by simp [quote]

lemma arr_opens (items : List Value) : Opens (Value.arr items).compact := by
  cases items
  all_goals exact ⟨'[', _, rfl, by decide, by decide, by decide⟩

lemma toValue_opens (f : Fields) : Opens f.toValue.compact := by
  rcases f with ⟨_ | ⟨⟨key, v⟩, rest⟩, hordered⟩
  all_goals exact ⟨'\x7b', _, rfl, by decide, by decide, by decide⟩

lemma Plain.opens {n : Nat} {v : Value} (h : Plain n v) : Opens v.compact := by
  cases h with
  | null n => exact ⟨'n', _, rfl, by decide, by decide, by decide⟩
  | bool n b =>
    cases b
    · exact ⟨'f', _, rfl, by decide, by decide, by decide⟩
    · exact ⟨'t', _, rfl, by decide, by decide, by decide⟩
  | str n s => exact quote_opens s
  | arr _ => exact arr_opens _
  | obj _ => exact toValue_opens _

namespace Reader

/-- What may stand behind a value: nothing, a comma or a closing bracket. -/
def Ends (rest : List Char) : Prop := ∀ c ∈ rest.head?, c ∈ [',', ']', '\x7d']

lemma ends_nil : Ends [] := nofun

lemma ends_cons {c : Char} (hc : c ∈ [',', ']', '\x7d']) (rest : List Char) : Ends (c :: rest) := by
  intro d hd
  cases hd
  exact hc

/-- The reader gives the value back from its text, whatever comes after it that may. -/
def GivesBack (depth : Nat) (v : Value) : Prop :=
  ∀ fuel rest, Ends rest → 2 * v.compact.length ≤ fuel →
    value? fuel depth (v.compact ++ rest) = some (v, rest)

lemma items?_compactItems {depth fuel : Nat} {v : Value} {items : List Value}
    (hread : ∀ w ∈ v :: items, GivesBack depth w)
    (hfuel : 2 * (v.compact ++ compactItems items).length < fuel) (read : List Value)
    (rest : List Char) :
    items? fuel depth read (v.compact ++ compactItems items ++ rest) =
      some (.arr (read.reverse ++ v :: items), rest) := by
  induction items generalizing v fuel read with
  | nil =>
    obtain ⟨fuel, rfl⟩ := Nat.exists_eq_succ_of_ne_zero (Nat.ne_zero_of_lt hfuel)
    rw [List.length_append] at hfuel
    have hv := hread v (by simp) fuel (']' :: rest) (ends_cons (by simp) rest) (by omega)
    simp [items?, compactItems, hv, skip, isBlank]
  | cons w items ih =>
    obtain ⟨fuel, rfl⟩ := Nat.exists_eq_succ_of_ne_zero (Nat.ne_zero_of_lt hfuel)
    simp only [compactItems, List.length_append, List.length_cons] at hfuel
    have hv := hread v (by simp) fuel (',' :: (w.compact ++ compactItems items ++ rest))
      (ends_cons (by simp) _) (by omega)
    have hlater : 2 * (w.compact ++ compactItems items).length < fuel := by
      rw [List.length_append]
      omega
    have hrest := ih (fun u hu => hread u (List.mem_cons_of_mem _ hu)) hlater (v :: read)
    simp only [List.append_assoc] at hv hrest
    simp [items?, compactItems, hv, hrest, skip, isBlank]

/-- The reader of an object is past a name and its colon. -/
lemma members?_step {depth fuel : Nat} {key : String} {v : Value} (hread : GivesBack depth v)
    (hfuel : 2 * (v.compact.length + (quote key).length) ≤ fuel) (read : Fields) {c : Char}
    (hc : c ∈ [',', ']', '\x7d']) (rest : List Char) :
    members? (fuel + 1) depth read (quote key ++ ':' :: (v.compact ++ c :: rest)) =
      match c :: rest with
      | ',' :: rest => members? fuel depth (read.insert key v) rest
      | '\x7d' :: rest => some ((read.insert key v).toValue, rest)
      | _ => none := by
  obtain ⟨inner, hquote, hkey⟩ := string?_quote fuel key (by omega)
    (':' :: (v.compact ++ c :: rest))
  have hv := hread fuel (c :: rest) (ends_cons hc rest) (by omega)
  have hblank : isBlank c = false := by
    simp only [List.mem_cons, List.not_mem_nil, or_false] at hc
    rcases hc with rfl | rfl | rfl <;> decide
  have hopening : isBlank '"' = false := by decide
  have hcolon : isBlank ':' = false := by decide
  rw [hquote]
  simp only [members?, skip_cons hopening, hkey, Option.bind_eq_bind, Option.bind_some,
    skip_cons hcolon, hv]
  generalize hskip : skip (c :: rest) = text
  rw [skip_cons hblank] at hskip
  subst hskip
  rfl

lemma members?_compactFields {depth fuel : Nat} {key : String} {v : Value}
    {fields : List (String × Value)} {read : Fields}
    (hread : ∀ e ∈ (key, v) :: fields, GivesBack depth e.2)
    (hordered : (read.entries ++ (key, v) :: fields).Pairwise (fun a b => a.1 < b.1))
    (hfuel : 2 * (quote key ++ ':' :: (v.compact ++ compactFields fields)).length < fuel)
    (rest : List Char) :
    members? fuel depth read (quote key ++ ':' :: (v.compact ++ (compactFields fields ++ rest))) =
      some (.obj (read.entries ++ (key, v) :: fields), rest) := by
  induction fields generalizing key v fuel read with
  | nil =>
    obtain ⟨fuel, rfl⟩ := Nat.exists_eq_succ_of_ne_zero (Nat.ne_zero_of_lt hfuel)
    simp only [compactFields, List.length_append, List.length_cons] at hfuel
    have hv : GivesBack depth v := hread (key, v) (by simp)
    rw [compactFields, List.singleton_append, members?_step hv (by omega) read (by simp)]
    exact congrArg (fun entries => some (Value.obj entries, rest)) (KeyMap.entries_insert hordered)
  | cons e fields ih =>
    obtain ⟨fuel, rfl⟩ := Nat.exists_eq_succ_of_ne_zero (Nat.ne_zero_of_lt hfuel)
    obtain ⟨name, w⟩ := e
    simp only [compactFields, List.length_append, List.length_cons] at hfuel
    have hv : GivesBack depth v := hread (key, v) (by simp)
    have hentries : (read.insert key v).entries = read.entries ++ [(key, v)] :=
      KeyMap.entries_insert (hordered.sublist (by simp))
    have hlater : 2 * (quote name ++ ':' :: (w.compact ++ compactFields fields)).length < fuel := by
      simp only [List.length_append, List.length_cons]
      omega
    have hrest := @ih fuel name w (read.insert key v) (fun e he => hread e (List.mem_cons_of_mem _ he))
      (by simpa [hentries] using hordered) hlater
    rw [compactFields, List.cons_append, members?_step hv (by omega) read (by simp)]
    simpa [hentries] using hrest

end Reader

namespace Reader

lemma value?_bracket {fuel depth : Nat} {text : List Char} (h : Opens text) (rest : List Char) :
    value? (fuel + 1) (depth + 1) ('[' :: (text ++ rest)) =
      items? fuel depth [] (text ++ rest) := by
  obtain ⟨c, text, rfl, hblank, hclosing, -⟩ := h
  rw [value?, skip_cons (by decide)]
  simp only [List.cons_append, skip_cons hblank, Nat.add_one_ne_zero, if_false]
  split
  · rename_i heq
    cases heq
    exact absurd rfl hclosing
  · rfl

lemma value?_brace {fuel depth : Nat} {text : List Char} (h : Opens text) (rest : List Char) :
    value? (fuel + 1) (depth + 1) ('\x7b' :: (text ++ rest)) =
      members? fuel depth .empty (text ++ rest) := by
  obtain ⟨c, text, rfl, hblank, -, hclosing⟩ := h
  rw [value?, skip_cons (by decide)]
  simp only [List.cons_append, skip_cons hblank, Nat.add_one_ne_zero, if_false]
  split
  · rename_i heq
    cases heq
    exact absurd rfl hclosing
  · rfl

lemma givesBack_null (depth : Nat) : GivesBack depth .null := by
  intro fuel rest _ hfuel
  obtain ⟨fuel, rfl⟩ := Nat.exists_eq_add_of_le' (show 1 ≤ fuel by simp [compact] at hfuel; omega)
  simp [value?, compact, skip_cons, isBlank]

lemma givesBack_bool (depth : Nat) (b : Bool) : GivesBack depth (.bool b) := by
  intro fuel rest _ hfuel
  cases b
  all_goals
    obtain ⟨fuel, rfl⟩ := Nat.exists_eq_add_of_le' (show 1 ≤ fuel by simp [compact] at hfuel; omega)
    simp [value?, compact, skip_cons, isBlank]

lemma givesBack_str (depth : Nat) (s : String) : GivesBack depth (.str s) := by
  intro fuel rest _ hfuel
  have hlength := length_quote s
  rw [compact] at hfuel ⊢
  obtain ⟨fuel, rfl⟩ := Nat.exists_eq_add_of_le' (show 1 ≤ fuel by omega)
  obtain ⟨inner, hquote, hread⟩ := string?_quote fuel s (by omega) rest
  rw [hquote]
  simp [value?, skip_cons, isBlank, hread]

lemma givesBack_arr {depth : Nat} {items : List Value} (hopens : ∀ v ∈ items, Opens v.compact)
    (hread : ∀ v ∈ items, GivesBack depth v) : GivesBack (depth + 1) (.arr items) := by
  intro fuel rest _ hfuel
  cases items with
  | nil =>
    simp only [compact, List.length_cons] at hfuel
    obtain ⟨fuel, rfl⟩ := Nat.exists_eq_add_of_le' (show 1 ≤ fuel by omega)
    simp [value?, compact, skip_cons, isBlank]
  | cons v items =>
    simp only [compact, List.length_cons] at hfuel
    obtain ⟨fuel, rfl⟩ := Nat.exists_eq_add_of_le' (show 1 ≤ fuel by omega)
    have hitems := items?_compactItems hread (show _ < fuel by omega) [] rest
    rw [List.append_assoc] at hitems
    rw [compact, List.cons_append, List.append_assoc, value?_bracket (hopens v (by simp)), hitems]
    rfl

lemma givesBack_obj {depth : Nat} {f : Fields} (hread : ∀ e ∈ f.entries, GivesBack depth e.2) :
    GivesBack (depth + 1) f.toValue := by
  intro fuel rest _ hfuel
  obtain ⟨_ | ⟨⟨key, v⟩, fields⟩, hordered⟩ := f
  · simp only [KeyMap.toValue, compact, List.length_cons] at hfuel
    obtain ⟨fuel, rfl⟩ := Nat.exists_eq_add_of_le' (show 1 ≤ fuel by omega)
    simp [value?, KeyMap.toValue, compact, skip_cons, isBlank]
  · simp only [KeyMap.toValue, compact, List.length_cons] at hfuel
    obtain ⟨fuel, rfl⟩ := Nat.exists_eq_add_of_le' (show 1 ≤ fuel by omega)
    have hfields := @members?_compactFields _ _ _ _ _ .empty hread hordered
      (show _ < fuel by omega) rest
    rw [KeyMap.toValue, compact, List.cons_append, List.append_assoc,
      value?_brace (quote_opens key), List.cons_append, List.append_assoc, hfields]
    rfl

end Reader

/-- A value without numbers is read back from its text. -/
lemma Plain.givesBack {n depth : Nat} {v : Value} (h : Plain n v) (hdepth : n ≤ depth) :
    Reader.GivesBack depth v := by
  induction h generalizing depth with
  | null n => exact Reader.givesBack_null depth
  | bool n b => exact Reader.givesBack_bool depth b
  | str n s => exact Reader.givesBack_str depth s
  | arr hitems ih =>
    obtain ⟨depth, rfl⟩ := Nat.exists_eq_add_of_le' (show 1 ≤ depth by omega)
    exact Reader.givesBack_arr (fun v hv => (hitems v hv).opens) fun v hv => ih v hv (by omega)
  | obj hfields ih =>
    obtain ⟨depth, rfl⟩ := Nat.exists_eq_add_of_le' (show 1 ≤ depth by omega)
    exact Reader.givesBack_obj fun e he => ih e he (by omega)

/-- What is read back from its text is what the text stands for. -/
lemma Reader.GivesBack.ofText?_toText {v : Value} (h : Reader.GivesBack 127 v) :
    ofText? v.toText = some v := by
  have htext : v.toText.toList = v.compact := by simp [toText]
  have hread := h (2 * v.compact.length + 2) [] Reader.ends_nil (by omega)
  rw [List.append_nil] at hread
  change (Reader.value? (2 * v.toText.toList.length + 2) 127 v.toText.toList).bind _ = _
  rw [htext, hread, Option.bind_some]
  rfl

end Value

/-- A document whose values are read back is the one that a store on disk gives back. -/
lemma Store.legible_of_givesBack {doc : Fields}
    (h : ∀ e ∈ doc.entries, Value.Reader.GivesBack 126 e.2) : Legible doc := by
  have hread := (Value.Reader.givesBack_obj h).ofText?_toText
  rw [Legible, Durable.decode, Durable.encode, hread]
  exact congrArg Except.ok (KeyMap.ofList_entries doc)

/-- A document of such values is the one that a store on disk gives back. -/
theorem Store.legible_of_plain {doc : Fields} (h : ∀ e ∈ doc.entries, Value.Plain 126 e.2) :
    Legible doc :=
  legible_of_givesBack fun e he => (h e he).givesBack (Nat.le_refl 126)

end Synchrony
