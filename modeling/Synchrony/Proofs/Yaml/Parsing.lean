import Mathlib.Data.Option.Basic
import Mathlib.Tactic.Common
import Synchrony.Config.File

/-!
# The tree of the tokens of a configuration

Written sections are a mapping of mappings, and the values of these are scalars or sequences of scalars.
Their tokens (`Config.tokensOf`) are parsed as their document.
-/

namespace Synchrony

namespace Config

/-! ### Nodes and tokens -/

namespace Written

/-- The node of a text. -/
def textNode (s : String) : Yaml.Node := .scalar (Yaml.styleOf s) none s

/-- The node of a setting. -/
def node : Written → Yaml.Node
  | nothing => .scalar .plain none "null"
  | number n => .scalar .plain none (toString n)
  | text s => textNode s
  | texts l => .sequence (l.map textNode)

/-- The token of a text. -/
def textToken (s : String) : Yaml.Token := .scalar (Yaml.styleOf s) s

/-- The tokens of the value of a setting. -/
def tokens : Written → List Yaml.Token
  | nothing => [.scalar .plain "null"]
  | number n => [.scalar .plain (toString n)]
  | text s => [textToken s]
  | texts [] => [.flowSequenceStart, .flowSequenceEnd]
  | texts l => l.flatMap fun s => [.blockEntry, textToken s]

end Written

/-- The tokens of a name with those of its value. -/
def entryTokens (name : String) (value : List Yaml.Token) : List Yaml.Token :=
  .key :: .scalar .plain name :: .value :: value

/-- The tokens of a mapping. -/
def mappingTokens {α : Type} (value : α → List Yaml.Token) (entries : List (String × α)) :
    List Yaml.Token :=
  .blockMappingStart :: entries.flatMap (fun e => entryTokens e.1 (value e.2)) ++ [.blockEnd]

/-- The tokens of sections. -/
def tokensOf (sections : List (String × List (String × Written))) : List Yaml.Token :=
  mappingTokens (mappingTokens Written.tokens) sections ++ [.streamEnd]

/-- The node of a section. -/
def sectionNode (settings : List (String × Written)) : Yaml.Node :=
  .mapping (settings.map fun e => (.scalar .plain none e.1, e.2.node))

/-- The document of sections. -/
def documentOf (sections : List (String × List (String × Written))) : Yaml.Document :=
  ⟨.mapping (sections.map fun e => (.scalar .plain none e.1, sectionNode e.2)), []⟩

end Config

namespace Yaml.Read

/-! ### Values -/

/-- A source without anchors. -/
def plainSource (tokens : List Token) : Source := { tokens, handles := standardHandles }

/-- The tokens are those of a value: read as a node whatever comes behind, but for an entry of a sequence. -/
structure Parses (tokens : List Token) (n : Node) : Prop where
  opens : ∃ t after, tokens = t :: after ∧ t ∉ [Token.key, .value, .blockEnd]
  node_eq : ∀ fuel rest, tokens.length + 2 ≤ fuel → rest.head? ≠ some .blockEntry →
    node true true fuel (plainSource (tokens ++ rest)) = some (n, plainSource rest)

variable {fuel : Nat} {style : ScalarStyle} {text : String} {rest : List Token}

lemma bind_eq {α β : Type} {read : Read α} {f : α → Read β} {s s' : Source} {a : α}
    (h : read s = some (a, s')) : (read >>= f) s = f a s' := by
  change (read s).bind _ = _
  rw [h]
  rfl

lemma accept_self (t : Token) (rest : List Token) :
    accept t (plainSource (t :: rest)) = some (true, plainSource rest) := by
  change (if t = t then _ else _ : Read Bool) _ = _
  rw [if_pos rfl]
  rfl

lemma accept_of_ne {t : Token} {s : Source} (h : s.tokens.headD .streamEnd ≠ t) :
    accept t s = some (false, s) := by
  change (if s.tokens.headD .streamEnd = t then _ else _ : Read Bool) _ = _
  rw [if_neg h]
  rfl

lemma expect_self (t : Token) (rest : List Token) :
    expect t (plainSource (t :: rest)) = some ((), plainSource rest) := by
  rw [expect, bind_eq (accept_self t rest)]
  rfl

lemma node_scalar (block indentless : Bool) (fuel : Nat) (style : ScalarStyle) (text : String)
    (rest : List Token) : node block indentless (fuel + 1) (plainSource (.scalar style text :: rest)) =
      some (.scalar style none text, plainSource rest) := by
  rw [node]
  rfl

lemma nodeUnless_eq {ends : List Token} {s : Source} (block indentless : Bool) (fuel : Nat)
    (h : s.tokens.headD .streamEnd ∉ ends) :
    nodeUnless block indentless ends (fuel + 1) s = node block indentless fuel s := by
  have hends : ends.contains (s.tokens.headD .streamEnd) = false := by simpa using h
  rw [nodeUnless]
  change (if ends.contains (s.tokens.headD .streamEnd) then (pure .missing : Read Node)
    else node block indentless fuel) s = _
  rw [hends]
  rfl

lemma parses_scalar (style : ScalarStyle) (text : String) :
    Parses [.scalar style text] (.scalar style none text) where
  opens := ⟨_, _, rfl, by simp⟩
  node_eq fuel rest hfuel _ := by
    obtain ⟨fuel, rfl⟩ := Nat.exists_eq_add_of_le' (show 1 ≤ fuel by omega)
    exact node_scalar true true fuel style text rest

lemma parses_flow : Parses [.flowSequenceStart, .flowSequenceEnd] (.sequence []) where
  opens := ⟨_, _, rfl, by simp⟩
  node_eq fuel rest hfuel _ := by
    obtain ⟨fuel, rfl⟩ := Nat.exists_eq_add_of_le' (show 2 ≤ fuel by simp at hfuel; omega)
    rw [node]
    change flowSequence (fuel + 1) [] true (plainSource (.flowSequenceEnd :: rest)) = _
    rw [flowSequence]
    rfl

lemma indentlessSequence_eq {l : List String} (hrest : rest.head? ≠ some .blockEntry) (items : List Node)
    (hfuel : l.length + 2 ≤ fuel) :
    indentlessSequence fuel items
      (plainSource (l.flatMap (fun s => [.blockEntry, Config.Written.textToken s]) ++ rest)) =
      some (.sequence (items.reverse ++ l.map Config.Written.textNode), plainSource rest) := by
  induction l generalizing fuel items with
  | nil =>
    obtain ⟨fuel, rfl⟩ := Nat.exists_eq_add_of_le' (show 1 ≤ fuel by omega)
    have hne : (plainSource rest).tokens.headD .streamEnd ≠ .blockEntry := by
      cases rest with
      | nil => decide
      | cons t rest => simpa [plainSource] using hrest
    rw [indentlessSequence, List.flatMap_nil, List.nil_append, bind_eq (accept_of_ne hne), List.map_nil,
      List.append_nil]
    rfl
  | cons s l ih =>
    obtain ⟨fuel, rfl⟩ := Nat.exists_eq_add_of_le' (show 3 ≤ fuel by simp at hfuel; omega)
    rw [indentlessSequence, List.flatMap_cons, List.append_assoc, List.cons_append, List.cons_append,
      List.nil_append, bind_eq (accept_self _ _), if_pos rfl, Config.Written.textToken,
      bind_eq ((nodeUnless_eq true false _ (by simp [plainSource])).trans (node_scalar _ _ _ _ _ _)),
      ih _ (by simp at hfuel; omega)]
    simp [Config.Written.textNode]

lemma parses_sequence (s : String) (l : List String) :
    Parses ((s :: l).flatMap fun s => [.blockEntry, Config.Written.textToken s])
      (.sequence ((s :: l).map Config.Written.textNode)) where
  opens := ⟨_, _, rfl, by simp⟩
  node_eq fuel rest hfuel hrest := by
    have hlength (l : List String) :
        (l.flatMap fun s => [Token.blockEntry, Config.Written.textToken s]).length = 2 * l.length := by
      induction l with
      | nil => rfl
      | cons s l ih =>
        rw [List.flatMap_cons, List.length_append, ih]
        simp only [List.length_cons, List.length_nil]
        omega
    rw [hlength, List.length_cons] at hfuel
    obtain ⟨fuel, rfl⟩ := Nat.exists_eq_add_of_le' (show 1 ≤ fuel by omega)
    rw [node]
    exact indentlessSequence_eq (l := s :: l) hrest [] (by rw [List.length_cons]; omega)

lemma parses_setting (w : Config.Written) : Parses w.tokens w.node := by
  cases w with
  | nothing => exact parses_scalar _ _
  | number n => exact parses_scalar _ _
  | text s => exact parses_scalar _ _
  | texts l =>
    cases l with
    | nil => exact parses_flow
    | cons s l => exact parses_sequence s l

/-! ### Mappings -/

section Mapping

variable {α : Type} {value : α → List Token} {toNode : α → Node} {entries : List (String × α)}
  (h : ∀ e ∈ entries, Parses (value e.2) (toNode e.2))
include h

lemma blockMapping_eq (read : List (Node × Node))
    (hfuel : (entries.flatMap fun e => Config.entryTokens e.1 (value e.2)).length + 3 ≤ fuel) :
    blockMapping fuel read (plainSource
      (entries.flatMap (fun e => Config.entryTokens e.1 (value e.2)) ++ .blockEnd :: rest)) =
      some (.mapping (read.reverse ++ entries.map fun e => (.scalar .plain none e.1, toNode e.2)),
        plainSource rest) := by
  induction entries generalizing fuel read with
  | nil =>
    obtain ⟨fuel, rfl⟩ := Nat.exists_eq_add_of_le' (show 1 ≤ fuel by omega)
    rw [blockMapping, List.flatMap_nil, List.nil_append,
      bind_eq (accept_of_ne (by simp [plainSource])), if_neg (by decide), bind_eq (expect_self _ _),
      List.map_nil, List.append_nil]
    rfl
  | cons e entries ih =>
    obtain ⟨name, a⟩ := e
    rw [List.forall_mem_cons] at h
    obtain ⟨⟨t, after, hvalue, hopens⟩, hnode⟩ := h.1
    rw [List.flatMap_cons, List.length_append] at hfuel
    simp only [Config.entryTokens, List.length_cons] at hfuel
    obtain ⟨fuel, rfl⟩ := Nat.exists_eq_add_of_le' (show 3 ≤ fuel by omega)
    rw [blockMapping, List.flatMap_cons, Config.entryTokens, List.append_assoc, List.cons_append,
      List.cons_append, List.cons_append, bind_eq (accept_self _ _), if_pos rfl,
      bind_eq ((nodeUnless_eq true true _ (by simp [plainSource])).trans (node_scalar _ _ _ _ _ _))]
    have hnext : ((entries.flatMap fun e => Config.entryTokens e.1 (value e.2)) ++
        .blockEnd :: rest).head? ≠ some .blockEntry := by
      cases entries with
      | nil => simp
      | cons e entries => simp [Config.entryTokens]
    have hread := hnode (fuel + 1) _ (by simp only; omega) hnext
    have hopens : (plainSource (value a ++ ((entries.flatMap fun e => Config.entryTokens e.1 (value e.2)) ++
        .blockEnd :: rest))).tokens.headD .streamEnd ∉ [Token.key, .value, .blockEnd] := by
      simp only at hvalue
      rw [hvalue]
      exact hopens
    rw [bind_eq (accept_self _ _)]
    dsimp only
    rw [if_pos rfl, bind_eq ((nodeUnless_eq true true _ hopens).trans hread), ih h.2 _ (by
      simp only [Config.entryTokens]
      omega)]
    simp

lemma node_mapping (indentless : Bool)
    (hfuel : (Config.mappingTokens value entries).length + 2 ≤ fuel) :
    node true indentless fuel (plainSource (Config.mappingTokens value entries ++ rest)) =
      some (.mapping (entries.map fun e => (.scalar .plain none e.1, toNode e.2)), plainSource rest) := by
  rw [Config.mappingTokens, List.cons_append, List.length_cons, List.length_append] at hfuel
  obtain ⟨fuel, rfl⟩ := Nat.exists_eq_add_of_le' (show 1 ≤ fuel by omega)
  rw [Config.mappingTokens, List.cons_append, List.cons_append, List.append_assoc, node]
  exact blockMapping_eq h [] (by simp only [List.length_cons, List.length_nil] at hfuel; omega)

/-- The tokens of a mapping are those of a value, if its values' are. -/
lemma parses_mapping : Parses (Config.mappingTokens value entries)
    (.mapping (entries.map fun e => (.scalar .plain none e.1, toNode e.2))) where
  opens := ⟨_, _, rfl, by simp⟩
  node_eq _ _ hfuel _ := node_mapping h true hfuel

end Mapping

/-! ### Documents -/

/-- The tokens of sections are those of their document. -/
theorem document_tokensOf (sections : List (String × List (String × Config.Written))) {fuel : Nat}
    (hfuel : (Config.tokensOf sections).length + 2 ≤ fuel) :
    (document fuel).run { tokens := Config.tokensOf sections } =
      some (Config.documentOf sections, plainSource []) := by
  have hsections : ∀ e ∈ sections,
      Parses (Config.mappingTokens Config.Written.tokens e.2) (Config.sectionNode e.2) :=
    fun e _ => parses_mapping fun e _ => parses_setting e.2
  obtain ⟨tokens, htokens⟩ : ∃ tokens, Config.tokensOf sections = .blockMappingStart :: tokens := ⟨_, rfl⟩
  have hroot : node true false fuel (plainSource (.blockMappingStart :: tokens)) =
      some ((Config.documentOf sections).root, plainSource [.streamEnd]) := by
    rw [← htokens]
    rw [Config.tokensOf, List.length_append] at hfuel
    exact node_mapping hsections false (by omega)
  rw [htokens] at hfuel ⊢
  obtain ⟨fuel, rfl⟩ := Nat.exists_eq_add_of_le' (show 1 ≤ fuel by omega)
  have hpeek : peek { tokens := .blockMappingStart :: tokens } =
      some (.blockMappingStart, { tokens := .blockMappingStart :: tokens }) := rfl
  have hdirectives : directives false (fuel + 1) [] { tokens := .blockMappingStart :: tokens } =
      some ((false, []), { tokens := .blockMappingStart :: tokens }) := by
    rw [directives]
    rfl
  have hnone : accept .documentStart (plainSource (.blockMappingStart :: tokens)) =
      some (false, plainSource (.blockMappingStart :: tokens)) := rfl
  change document (fuel + 1) { tokens := .blockMappingStart :: tokens } = _
  rw [document, bind_eq hpeek, if_neg (by decide), bind_eq hdirectives]
  dsimp only
  have hhandles : (modify fun s : Source => { s with handles := [] ++ standardHandles } : Read PUnit)
      { tokens := .blockMappingStart :: tokens } =
        some (⟨⟩, plainSource (.blockMappingStart :: tokens)) := rfl
  have hend : (modify fun s : Source => { s with tokens := s.tokens.dropWhile (· = .documentEnd) } :
      Read PUnit) (plainSource [.streamEnd]) = some (⟨⟩, plainSource [.streamEnd]) := rfl
  have hguard : (guard ((false || !false) = true) : Read Unit) (plainSource (.blockMappingStart :: tokens)) =
      some ((), plainSource (.blockMappingStart :: tokens)) := rfl
  rw [bind_eq hhandles, bind_eq hnone, bind_eq hguard, if_neg (by decide), bind_eq hroot, bind_eq hend,
    bind_eq (expect_self _ _)]
  rfl

end Yaml.Read

end Synchrony
