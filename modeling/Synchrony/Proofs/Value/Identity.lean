import Synchrony.Pattern
import Synchrony.Proofs.Value.Decimals
import Synchrony.Proofs.Value.Numbers
import Synchrony.Proofs.Value.Sameness

/-!
# A text tells its value

The compact text of a value can be cut off from whatever may stand behind it, and different values have
different texts (`Value.compact_append_inj`). So the canonical text of a binding tells the binding. It
tells more than matching asks, which takes the two floating point zeros for one value.
-/

namespace Synchrony

namespace Value

/-! ### Strings and numbers -/

lemma quote_append_inj {s s' : String} {rest rest' : List Char}
    (h : quote s ++ rest = quote s' ++ rest') : s = s' ∧ rest = rest' := by
  obtain ⟨inner, heq, hread⟩ :=
    Reader.string?_quote ((quote s).length + (quote s').length) s (by omega) rest
  obtain ⟨inner', heq', hread'⟩ :=
    Reader.string?_quote ((quote s).length + (quote s').length) s' (by omega) rest'
  rw [heq, heq', List.cons.injEq] at h
  rw [h.2, hread', Option.some.injEq, Prod.mk.injEq] at hread
  exact ⟨hread.1.symm, hread.2.symm⟩

lemma digits_inj {n m : Nat} (h : Double.digits n = Double.digits m) : n = m := by
  rw [← Nat.ofDigitChars_ten_toDigits (n := n), ← Nat.ofDigitChars_ten_toDigits (n := m)]
  exact congrArg (Nat.ofDigitChars 10 · 0) h

lemma minus_notMem_digits (n : Nat) : '-' ∉ Double.digits n := fun h =>
  absurd (Nat.isDigit_of_mem_toDigits (by decide) (by decide) h) (by decide)

lemma renderInt_inj {i j : Int} (h : renderInt i = renderInt j) : i = j := by
  have hminus (n m : Nat) : Double.digits n ≠ '-' :: Double.digits m := fun h =>
    minus_notMem_digits n (h ▸ List.mem_cons_self)
  cases i with
  | ofNat n =>
    cases j with
    | ofNat m => exact congrArg Int.ofNat (digits_inj h)
    | negSucc m => exact absurd h (hminus _ _)
  | negSucc n =>
    cases j with
    | ofNat m => exact absurd h.symm (hminus _ _)
    | negSucc m =>
      have hdigits := digits_inj (List.tail_eq_of_cons_eq h)
      rw [Nat.succ.inj hdigits]

/-- An integer is written without a point and without an exponent. -/
lemma renderInt_ne_render (i : Int) (x : Double) : renderInt i ≠ x.render := by
  have hint {c : Char} (hc : c ∈ renderInt i) : c.isDigit = true ∨ c = '-' := by
    cases i with
    | ofNat n => exact .inl (Nat.isDigit_of_mem_toDigits (by decide) (by decide) hc)
    | negSucc n =>
      rcases List.mem_cons.1 hc with rfl | hc
      · exact .inr rfl
      · exact .inl (Nat.isDigit_of_mem_toDigits (by decide) (by decide) hc)
  intro h
  rcases x.point_or_exponent_mem_render with hmem | hmem
  all_goals
    rw [← h] at hmem
    exact absurd (hint hmem) (by decide)

/-- A number is cut off where no character of a number stands. -/
lemma numeral_append_inj {text text' rest rest' : List Char}
    (htext : ∀ c ∈ text, isNumeral c = true) (htext' : ∀ c ∈ text', isNumeral c = true)
    (hrest : Reader.Ends rest) (hrest' : Reader.Ends rest') (h : text ++ rest = text' ++ rest') :
    text = text' ∧ rest = rest' := by
  have hcut {text rest : List Char} (htext : ∀ c ∈ text, isNumeral c = true)
      (hrest : Reader.Ends rest) : (text ++ rest).takeWhile isNumeral = text := by
    have hstop : rest.takeWhile isNumeral = [] := by
      rcases Reader.eq_of_ends hrest with rfl | ⟨after, rfl | rfl | rfl⟩ <;> rfl
    rw [List.takeWhile_append_of_pos htext, hstop, List.append_nil]
  have heq : text = text' := by rw [← hcut htext hrest, h, hcut htext' hrest']
  subst heq
  exact ⟨rfl, List.append_cancel_left h⟩

/-! ### What a text begins with -/

/-- What a value is, as far as the first character of its text tells. -/
inductive Kind where
  | null
  | bool
  | number
  | string
  | array
  | object
deriving DecidableEq

/-- What is behind a first character, if it can be one. -/
def Kind.of? (c : Char) : Option Kind :=
  if c = 'n' then some null
  else if c = 't' ∨ c = 'f' then some bool
  else if c = '"' then some string
  else if c = '[' then some array
  else if c = '\x7b' then some object
  else if isNumeral c then some number
  else none

/-- The kind of a value. -/
def kind : Value → Kind
  | null => .null
  | bool _ => .bool
  | int _ | double _ => .number
  | str _ => .string
  | arr _ => .array
  | obj _ => .object

lemma Kind.of?_of_isNumeral {c : Char} (hc : isNumeral c = true) : of? c = some number := by
  have hne (d : Char) (hd : isNumeral d = false) : c ≠ d := by
    rintro rfl
    rw [hc] at hd
    cases hd
  rw [of?, if_neg (hne 'n' rfl), if_neg (not_or.2 ⟨hne 't' rfl, hne 'f' rfl⟩), if_neg (hne '"' rfl),
    if_neg (hne '[' rfl), if_neg (hne '\x7b' rfl), if_pos hc]

lemma render_ne_nil (x : Double) : x.render ≠ [] := by
  rcases x.point_or_exponent_mem_render with h | h <;> exact List.ne_nil_of_mem h

/-- The first character of a text tells the kind of its value. -/
lemma exists_compact_eq_cons (v : Value) : ∃ c rest, v.compact = c :: rest ∧ Kind.of? c = some v.kind := by
  have hnumeral {text : List Char} (hne : text ≠ []) (h : ∀ c ∈ text, isNumeral c = true) :
      ∃ c rest, text = c :: rest ∧ Kind.of? c = some .number := by
    obtain ⟨c, rest, rfl⟩ := List.exists_cons_of_ne_nil hne
    exact ⟨c, rest, rfl, Kind.of?_of_isNumeral (h c List.mem_cons_self)⟩
  cases v with
  | null => exact ⟨'n', _, rfl, rfl⟩
  | bool b => cases b <;> exact ⟨_, _, rfl, rfl⟩
  | int n => exact hnumeral (Reader.renderInt_ne_nil n) fun _ => isNumeral_of_mem_renderInt
  | double x => exact hnumeral (render_ne_nil x) fun _ => isNumeral_of_mem_render
  | str s => exact ⟨'"', _, rfl, rfl⟩
  | arr items => cases items <;> exact ⟨'[', _, rfl, rfl⟩
  | obj fields => cases fields <;> exact ⟨_, _, rfl, rfl⟩

lemma kind_eq_of_compact {v w : Value} {rest rest' : List Char}
    (h : v.compact ++ rest = w.compact ++ rest') : v.kind = w.kind := by
  obtain ⟨c, text, heq, hkind⟩ := exists_compact_eq_cons v
  obtain ⟨c', text', heq', hkind'⟩ := exists_compact_eq_cons w
  rw [heq, heq', List.cons_append, List.cons_append, List.cons.injEq] at h
  rw [h.1, hkind', Option.some.injEq] at hkind
  exact hkind.symm

/-- A closing bracket does not begin a value. -/
lemma cons_ne_compact {c : Char} (hc : Kind.of? c = none) (rest : List Char) (w : Value)
    (rest' : List Char) : c :: rest ≠ w.compact ++ rest' := by
  obtain ⟨c', text', heq, hkind⟩ := exists_compact_eq_cons w
  rw [heq]
  rintro ⟨⟩
  rw [hc] at hkind
  cases hkind

/-- Two numbers are cut off and told apart, integers from floating point numbers too. -/
lemma number_append_inj {v w : Value} {rest rest' : List Char} (hv : v.kind = .number)
    (hw : w.kind = .number) (hrest : Reader.Ends rest) (hrest' : Reader.Ends rest')
    (h : v.compact ++ rest = w.compact ++ rest') : v = w ∧ rest = rest' := by
  have hnumeral {u : Value} (hu : u.kind = .number) : ∀ c ∈ u.compact, isNumeral c = true := by
    cases u with
    | int n => exact fun _ => isNumeral_of_mem_renderInt
    | double x => exact fun _ => isNumeral_of_mem_render
    | null | bool | str | arr | obj => cases hu
  obtain ⟨htext, rfl⟩ := numeral_append_inj (hnumeral hv) (hnumeral hw) hrest hrest' h
  refine ⟨?_, rfl⟩
  cases v with
  | int n =>
    cases w with
    | int m => rw [renderInt_inj htext]
    | double y => exact absurd htext (renderInt_ne_render n y)
    | null | bool | str | arr | obj => cases hw
  | double x =>
    cases w with
    | int m => exact absurd htext.symm (renderInt_ne_render m x)
    | double y => rw [Double.render_inj.1 htext]
    | null | bool | str | arr | obj => cases hw
  | null | bool | str | arr | obj => cases hv

/-! ### Values -/

lemma ends_compactItems (items : List Value) (rest : List Char) :
    Reader.Ends (compactItems items ++ rest) := by
  cases items <;> exact Reader.ends_cons (by simp) _

lemma ends_compactFields (fields : List (String × Value)) (rest : List Char) :
    Reader.Ends (compactFields fields ++ rest) := by
  cases fields <;> exact Reader.ends_cons (by simp) _

mutual
/-- The text of a value is cut off where something may end, and tells the value. -/
theorem compact_append_inj : ∀ (v : Value) {w : Value} {rest rest' : List Char}, Reader.Ends rest →
    Reader.Ends rest' → v.compact ++ rest = w.compact ++ rest' → v = w ∧ rest = rest'
  | null, w, _, _, _, _, h => by
    have hkind := kind_eq_of_compact h
    cases w with
    | null => exact ⟨rfl, List.append_cancel_left h⟩
    | _ => cases hkind
  | bool b, w, _, _, _, _, h => by
    have hkind := kind_eq_of_compact h
    cases w with
    | bool b' =>
      cases b <;> cases b'
      all_goals cases h
      all_goals exact ⟨rfl, rfl⟩
    | _ => cases hkind
  | int n, w, _, _, hrest, hrest', h =>
    number_append_inj rfl (kind_eq_of_compact h).symm hrest hrest' h
  | double x, w, _, _, hrest, hrest', h =>
    number_append_inj rfl (kind_eq_of_compact h).symm hrest hrest' h
  | str s, w, _, _, _, _, h => by
    have hkind := kind_eq_of_compact h
    cases w with
    | str s' =>
      obtain ⟨rfl, hrest⟩ := quote_append_inj h
      exact ⟨rfl, hrest⟩
    | _ => cases hkind
  | arr items, w, _, _, _, _, h => by
    have hkind := kind_eq_of_compact h
    cases w with
    | arr items' =>
      match items, items' with
      | [], [] => exact ⟨rfl, List.append_cancel_left h⟩
      | [], w :: items' =>
        rw [compact, compact, List.cons_append, List.cons_append, List.cons_append, List.append_assoc] at h
        exact absurd (List.tail_eq_of_cons_eq h) (cons_ne_compact rfl _ w _)
      | v :: items, [] =>
        rw [compact, compact, List.cons_append, List.cons_append, List.cons_append, List.append_assoc] at h
        exact absurd (List.tail_eq_of_cons_eq h).symm (cons_ne_compact rfl _ v _)
      | v :: items, w :: items' =>
        have htail : compactItems (v :: items) ++ _ = compactItems (w :: items') ++ _ :=
          congrArg (',' :: ·) (List.tail_eq_of_cons_eq h)
        obtain ⟨hitems, hrest⟩ := compactItems_append_inj (v :: items) htail
        exact ⟨congrArg arr hitems, hrest⟩
    | _ => cases hkind
  | obj fields, w, _, _, _, _, h => by
    have hkind := kind_eq_of_compact h
    cases w with
    | obj fields' =>
      match fields, fields' with
      | [], [] => exact ⟨rfl, List.append_cancel_left h⟩
      | [], (l, w) :: fields' =>
        rw [compact, compact, quote] at h
        cases h
      | (k, v) :: fields, [] =>
        rw [compact, compact, quote] at h
        cases h
      | (k, v) :: fields, (l, w) :: fields' =>
        have htail : compactFields ((k, v) :: fields) ++ _ = compactFields ((l, w) :: fields') ++ _ :=
          congrArg (',' :: ·) (List.tail_eq_of_cons_eq h)
        obtain ⟨hfields, hrest⟩ := compactFields_append_inj ((k, v) :: fields) htail
        exact ⟨congrArg obj hfields, hrest⟩
    | _ => cases hkind

theorem compactItems_append_inj : ∀ (items : List Value) {items' : List Value} {rest rest' : List Char},
    compactItems items ++ rest = compactItems items' ++ rest' → items = items' ∧ rest = rest'
  | [], [], _, _, h => ⟨rfl, List.tail_eq_of_cons_eq h⟩
  | [], w :: items', _, _, h => by
    rw [compactItems, compactItems] at h
    cases h
  | v :: items, [], _, _, h => by
    rw [compactItems, compactItems] at h
    cases h
  | v :: items, w :: items', rest, rest', h => by
    rw [compactItems, compactItems, List.cons_append, List.cons_append, List.append_assoc,
      List.append_assoc] at h
    obtain ⟨rfl, hitems⟩ := compact_append_inj v (ends_compactItems _ _) (ends_compactItems _ _)
      (List.tail_eq_of_cons_eq h)
    obtain ⟨rfl, hrest⟩ := compactItems_append_inj items hitems
    exact ⟨rfl, hrest⟩

theorem compactFields_append_inj : ∀ (fields : List (String × Value)) {fields' : List (String × Value)}
    {rest rest' : List Char}, compactFields fields ++ rest = compactFields fields' ++ rest' →
      fields = fields' ∧ rest = rest'
  | [], [], _, _, h => ⟨rfl, List.tail_eq_of_cons_eq h⟩
  | [], (l, w) :: fields', _, _, h => by
    rw [compactFields, compactFields] at h
    cases h
  | (k, v) :: fields, [], _, _, h => by
    rw [compactFields, compactFields] at h
    cases h
  | (k, v) :: fields, (l, w) :: fields', rest, rest', h => by
    rw [compactFields, compactFields, List.cons_append, List.cons_append, List.append_assoc,
      List.append_assoc] at h
    obtain ⟨rfl, hvalue⟩ := quote_append_inj (List.tail_eq_of_cons_eq h)
    rw [List.cons_append, List.cons_append, List.append_assoc, List.append_assoc] at hvalue
    obtain ⟨rfl, hfields⟩ := compact_append_inj v (ends_compactFields _ _) (ends_compactFields _ _)
      (List.tail_eq_of_cons_eq hvalue)
    obtain ⟨rfl, hrest⟩ := compactFields_append_inj fields hfields
    exact ⟨rfl, hrest⟩
end

/-- Values with the same text are the same, down to the signs of zeros. -/
theorem compact_inj {v w : Value} : v.compact = w.compact ↔ v = w := by
  refine ⟨fun h => ?_, fun h => h ▸ rfl⟩
  exact (compact_append_inj v Reader.ends_nil Reader.ends_nil (congrArg (· ++ []) h)).1

end Value

/-! ### Zeros without signs -/

/-- The number, but the positive zero for the negative one. -/
def Double.unsigned (x : Double) : Double := if x.isZero then zero false else x

lemma Double.same_iff_unsigned {x y : Double} : x.same y = true ↔ x.unsigned = y.unsigned := by
  rw [same, unsigned, unsigned, Bool.or_eq_true, decide_eq_true_eq, Bool.and_eq_true]
  have hzero : (zero false).isZero = true := rfl
  constructor
  · rintro (rfl | ⟨hx, hy⟩)
    · rfl
    · rw [if_pos hx, if_pos hy]
  · intro h
    split_ifs at h with hx hy hy
    · exact .inr ⟨hx, hy⟩
    · exact absurd (h ▸ hzero) hy
    · exact absurd (h ▸ hzero) hx
    · exact .inl h

namespace Value

mutual
/-- The value with positive zeros for negative ones. -/
def unsigned : Value → Value
  | null => null
  | bool b => bool b
  | int n => int n
  | double x => double x.unsigned
  | str s => str s
  | arr items => arr (unsignedItems items)
  | obj fields => obj (unsignedFields fields)

/-- The items with positive zeros for negative ones. -/
def unsignedItems : List Value → List Value
  | [] => []
  | item :: rest => unsigned item :: unsignedItems rest

/-- The fields with positive zeros for negative ones. -/
def unsignedFields : List (String × Value) → List (String × Value)
  | [] => []
  | (key, v) :: rest => (key, unsigned v) :: unsignedFields rest
end

mutual
/-- Matching compares values without the signs of zeros. -/
theorem same_iff_unsigned : ∀ (v : Value) {w : Value}, v.same w = true ↔ v.unsigned = w.unsigned
  | null, w | bool _, w | int _, w | str _, w => by
    cases w <;> simp [same, unsigned]
  | double x, w => by
    cases w <;> simp [same, unsigned, Double.same_iff_unsigned]
  | arr items, w => by
    cases w <;> simp [same, unsigned, sameItems_iff_unsigned items]
  | obj fields, w => by
    cases w <;> simp [same, unsigned, sameFields_iff_unsigned fields]

theorem sameItems_iff_unsigned : ∀ (items : List Value) {items' : List Value},
    sameItems items items' = true ↔ unsignedItems items = unsignedItems items'
  | [], items' => by
    cases items' <;> simp [sameItems, unsignedItems]
  | v :: items, items' => by
    cases items' <;> simp [sameItems, unsignedItems, same_iff_unsigned v, sameItems_iff_unsigned items]

theorem sameFields_iff_unsigned : ∀ (fields : List (String × Value)) {fields' : List (String × Value)},
    sameFields fields fields' = true ↔ unsignedFields fields = unsignedFields fields'
  | [], fields' => by
    cases fields' <;> simp [sameFields, unsignedFields]
  | (k, v) :: fields, fields' => by
    cases fields' <;>
      simp [sameFields, unsignedFields, same_iff_unsigned v, sameFields_iff_unsigned fields]
end

lemma unsignedFields_eq_map (fields : List (String × Value)) :
    unsignedFields fields = fields.map fun e => (e.1, e.2.unsigned) := by
  induction fields with
  | nil => rfl
  | cons e fields ih =>
    obtain ⟨k, v⟩ := e
    rw [unsignedFields, ih]
    rfl

end Value

/-! ### Bindings -/

namespace Binding

/-- The binding with positive zeros for negative ones. -/
def unsigned (b : Binding) : Binding := KeyMap.map Value.unsigned b

lemma canonical_inj {b b' : Binding} : b.canonical = b'.canonical ↔ b = b' := by
  rw [canonical, canonical, Value.compact_inj, Value.obj.injEq]
  constructor
  · intro h
    cases b
    cases b'
    cases h
    rfl
  · exact congrArg KeyMap.entries

lemma same_iff_unsigned {b b' : Binding} : b.same b' = true ↔ b.unsigned = b'.unsigned := by
  rw [← canonical_inj, canonical, canonical, Value.compact_inj, Value.obj.injEq, KeyMap.same,
    Value.sameFields_iff_unsigned, Value.unsignedFields_eq_map, Value.unsignedFields_eq_map]
  rfl

/--
The canonical text tells a binding exactly. Matching takes two bindings for equal exactly if they have the
same text once their zeros have no signs, so where there are no negative zeros the text tells equal ones.
-/
theorem canonical_identifies (b b' : Binding) :
    (b.canonical = b'.canonical ↔ b = b') ∧
      (b.same b' = true ↔ b.unsigned.canonical = b'.unsigned.canonical) ∧
      (b.unsigned = b → b'.unsigned = b' → (b.same b' = true ↔ b.canonical = b'.canonical)) := by
  have hsame : b.same b' = true ↔ b.unsigned.canonical = b'.unsigned.canonical :=
    same_iff_unsigned.trans canonical_inj.symm
  refine ⟨canonical_inj, hsame, fun hb hb' => ?_⟩
  rw [hsame, hb, hb']

/-- Zero as an integer and as a double are two values, neither a negative zero, and have two texts. -/
theorem canonical_identifies_zero :
    let whole : Binding := .singleton "n" (.int 0)
    let double : Binding := .singleton "n" (.double (.zero false))
    whole.unsigned = whole ∧ double.unsigned = double ∧ whole.same double = false ∧
      whole.canonical ≠ double.canonical := by
  refine ⟨rfl, rfl, rfl, fun htexts => ?_⟩
  have hsame := ((canonical_identifies _ _).2.2 rfl rfl).2 htexts
  cases hsame

/-- Matching takes the two zeros for one value, and they have two texts. -/
theorem not_forall_same_iff_canonical_eq :
    ¬ ∀ b b' : Binding, b.same b' = true ↔ b.canonical = b'.canonical := by
  intro h
  have hzeros := h (.singleton "n" (.double (.zero false))) (.singleton "n" (.double (.zero true)))
  have hsame : KeyMap.same (.singleton "n" (.double (.zero false)))
      (.singleton "n" (.double (.zero true))) = true := rfl
  exact absurd (hzeros.1 hsame) (by decide)

end Binding

end Synchrony
