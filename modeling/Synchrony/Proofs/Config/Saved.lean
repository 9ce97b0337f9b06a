import Mathlib
import Synchrony.Proofs.Config.Chosen
import Synchrony.Proofs.Config.Scanned
import Synchrony.Proofs.Files.Writing
import Synchrony.Proofs.Value.Numbers

/-!
# Saved configurations are loaded again

The document of the settings that are chosen gives these, and it is read back from the text that is saved.
-/

namespace Synchrony

/-! ### Numbers -/

namespace Yaml

lemma digit?_of_isDigit {c : Char} (hc : c.isDigit = true) : digit? 10 c = some (c.toNat - '0'.toNat) := by
  simp only [Char.isDigit, Bool.and_eq_true, decide_eq_true_eq] at hc
  have hhex : hexDigit? c = some (c.toNat - '0'.toNat) := by
    rw [hexDigit?, if_pos ⟨hc.1, hc.2⟩]
  have hlt : c.toNat - '0'.toNat < 10 := by
    have hnine : c.toNat ≤ 57 := hc.2
    have hzero : '0'.toNat = 48 := rfl
    omega
  rw [digit?, hhex, Option.bind_some, if_pos hlt]

lemma foldl_digits {cs : List Char} (hcs : ∀ c ∈ cs, c.isDigit = true) (n : Nat) :
    cs.foldl (fun n? c => do pure ((← n?) * 10 + (← digit? 10 c))) (some n) =
      some (Nat.ofDigitChars 10 cs n) := by
  induction cs generalizing n with
  | nil => simp
  | cons c cs ih =>
    rw [List.forall_mem_cons] at hcs
    rw [List.foldl_cons, Nat.ofDigitChars_cons, ← ih hcs.2, digit?_of_isDigit hcs.1, Nat.mul_comm 10]
    rfl

/-- The digits of a number begin with a zero if they are a zero alone. -/
lemma eq_nil_of_digits {n : Nat} {rest : List Char} (h : Nat.toDigits 10 n = '0' :: rest) : rest = [] := by
  obtain ⟨ds, hds, hsmall, -, -, hhead⟩ := Value.Reader.exists_digits n
  have hzero : ∀ d < 10, d.digitChar = '0' → d = 0 := by decide
  rw [Double.digits, h] at hds
  obtain ⟨d, ds, rfl⟩ : ∃ d ds', ds = d :: ds' := by
    cases ds with
    | nil => cases hds
    | cons d ds => exact ⟨d, ds, rfl⟩
  rw [List.map_cons, List.cons.injEq] at hds
  obtain rfl := hzero d (hsmall d List.mem_cons_self) hds.1.symm
  rcases hhead with hhead | hhead
  · exact absurd rfl hhead
  · obtain rfl : ds = [] := by simpa using hhead
    exact hds.2

/-- A number is read back from its decimal digits. -/
lemma natural?_digits (n : Nat) : natural? (Nat.toDigits 10 n) = some n := by
  have hdigit : ∀ c ∈ Nat.toDigits 10 n, c.isDigit = true := fun c =>
    Nat.isDigit_of_mem_toDigits (by decide) (by decide)
  have hvalue := foldl_digits hdigit 0
  rw [Nat.ofDigitChars_ten_toDigits] at hvalue
  have hlead : ∀ rest, Nat.toDigits 10 n = '0' :: rest → rest = [] := fun rest => eq_nil_of_digits
  have hne : Nat.toDigits 10 n ≠ [] := Nat.toDigits_ne_nil
  generalize Nat.toDigits 10 n = cs at hdigit hlead hvalue hne
  obtain ⟨c, cs, rfl⟩ := List.exists_cons_of_ne_nil hne
  have hc := hdigit c List.mem_cons_self
  have hsign : ∀ rest, c :: cs = '+' :: rest → False := by
    rintro rest ⟨⟩
    cases hc
  have hsign' : ∀ rest, c :: cs = '-' :: rest → False := by
    rintro rest ⟨⟩
    cases hc
  have hzero : hasLeadingZero (c :: cs) = false := by
    simp only [hasLeadingZero]
    split
    · rename_i rest heq
      rw [hlead rest heq]
      rfl
    · rfl
  rw [natural?.eq_def]
  split
  · rename_i heq
    exact (hsign _ heq).elim
  · rw [unsigned?.eq_def]
    split
    · rename_i heq
      cases hlead _ heq
    · rename_i heq
      cases hlead _ heq
    · rename_i heq
      cases hlead _ heq
    · rw [hzero, if_neg (by decide), digits?.eq_def]
      exact hvalue

end Yaml

/-! ### The written document -/

namespace Config

variable {d : Yaml.Document}

lemma fits_number (n : Nat) : (Written.number n).Fits d (Written.number n).node := by
  have hdigits : (toString n).toList = Nat.toDigits 10 n := by simp
  change Yaml.natural? (toString n).toList = some n
  rw [hdigits, Yaml.natural?_digits]

/-- A text that is written plain does not stand for nothing. -/
lemma optionalText?_textNode (s : String) : d.optionalText? (Written.textNode s) = some (some s) := by
  have hstyled := Yaml.styled_written Written.depth s
  rw [Written.textNode]
  generalize Yaml.styleOf s = style, Yaml.written Written.depth s = lines at hstyled ⊢
  cases hstyled with
  | plain hfits hclear =>
    simp only [Yaml.isAmbiguous, Bool.or_eq_false_iff] at hclear
    have hempty : s ≠ "" := by
      rintro rfl
      simp at hclear
    simp [Yaml.Document.optionalText?, Yaml.Document.resolve, hempty, hclear]
  | literal | single | double => rfl

lemma fits_node (w : Written) : w.Fits d w.node := by
  cases w with
  | nothing => rfl
  | number n => exact fits_number n
  | text s => exact optionalText?_textNode s
  | texts l =>
    have htexts : (l.map Written.textNode).mapM d.text? = some l := by
      induction l with
      | nil => rfl
      | cons s l ih =>
        rw [List.map_cons, List.mapM_cons, d.text?_of_optionalText? (optionalText?_textNode s), ih]
        rfl
    exact htexts

lemma mapM_text?_key {α : Type} (node : String × α → Yaml.Node) (settings : List (String × α)) :
    (settings.map fun e => ((.scalar .plain none e.1, node e) : Yaml.Node × Yaml.Node)).mapM
      (fun e => (d.text? e.1).map fun name => (name, e.2)) = some (settings.map fun e => (e.1, node e)) := by
  induction settings with
  | nil => rfl
  | cons e settings ih =>
    rw [List.map_cons, List.mapM_cons, ih]
    rfl

/-- A mapping of settings gives them. -/
lemma gives_mapping {α : Type} {fits : String → α → Yaml.Node → Prop} (names : List String)
    (node : String × α → Yaml.Node) {settings : List (String × α)}
    (h : ∀ e ∈ settings, fits e.1 e.2 (node e)) :
    d.Gives fits names settings (.mapping (settings.map fun e => (.scalar .plain none e.1, node e))) := by
  refine .inl ⟨_, _, rfl, mapM_text?_key node settings, settings.map fun e => (e.1, node e), [], ?_, ?_, ?_⟩
  · rw [List.append_nil]
  · rw [List.forall₂_map_right_iff, List.forall₂_same]
    exact fun e he => ⟨rfl, h e he⟩
  · simp

/-! ### Some of the settings -/

open Yaml Yaml.Scan

variable (chosen : String → String → Bool) (c : Config)

/-- The sections with the chosen settings alone. A section without any is left out. -/
def chosenSections : List (String × List (String × Written)) :=
  (c.sections.filter fun s => s.2.any fun e => chosen s.1 e.1).map fun s =>
    (s.1, s.2.filter fun e => chosen s.1 e.1)

lemma given_sectionNode (chosen : String → Bool) (settings : List (String × Written)) :
    Given d chosen settings (sectionNode (settings.filter fun e => chosen e.1)) :=
  gives_mapping _ (fun e : String × Written => e.2.node) fun e _ => fits_node e.2

/-- The document of the chosen settings gives these and no others. -/
lemma holds_documentOf : Holds (documentOf (c.chosenSections chosen)) chosen c := by
  refine ⟨fun _ => false, ?_⟩
  simp only [documentOf, chosenSections, List.map_map, Bool.false_or]
  exact gives_mapping _ (fun s : String × List (String × Written) =>
    sectionNode (s.2.filter fun e => chosen s.1 e.1)) fun s _ => given_sectionNode (chosen s.1) s.2

variable {chosen c}

lemma named_of_mem_sections {e : String × List (String × Written)} (he : e ∈ c.sections) : Named e := by
  simp only [sections, List.mem_cons, List.not_mem_nil, or_false] at he
  rcases he with rfl | rfl | rfl | rfl
  · exact ⟨(by decide : isKeyName "engine" = true), by simp, by simp; decide⟩
  · exact ⟨(by decide : isKeyName "requesting" = true), by simp, by simp; decide⟩
  · exact ⟨(by decide : isKeyName "server" = true), by simp, by simp; decide⟩
  · exact ⟨(by decide : isKeyName "store" = true), by simp, by simp; decide⟩

lemma named_of_mem_chosenSections {e : String × List (String × Written)} (he : e ∈ c.chosenSections chosen) :
    Named e := by
  obtain ⟨s, hs, rfl⟩ := List.mem_map.1 he
  obtain ⟨hs, hany⟩ := List.mem_filter.1 hs
  obtain ⟨hname, -, hnames⟩ := named_of_mem_sections hs
  refine ⟨hname, ?_, fun e he => hnames e (List.mem_of_mem_filter he)⟩
  simpa using hany

/-- Without chosen settings everything is as by default. -/
lemma only_of_chosenSections_eq_nil (h : c.chosenSections chosen = []) : c.only chosen = {} := by
  simp [chosenSections, sections] at h
  simp [only, h]

lemma all_isBlank_textOf {sections : List (String × List (String × Written))} (hne : sections ≠ [])
    (hnamed : ∀ e ∈ sections, Named e) : (textOf sections).toList.all Text.isBlank = false := by
  obtain ⟨e, sections, rfl⟩ := List.exists_cons_of_ne_nil hne
  obtain ⟨c, cs, hcs, hc, -⟩ := exists_of_isKeyName (hnamed e List.mem_cons_self).1
  have hvisible : Text.isBlank c = false := by
    have hbounds := toNat_of_isLower hc
    simp [Text.isBlank]
    omega
  rw [textOf, String.toList_ofList, List.flatMap_cons, sectionText, hcs, List.cons_append, List.cons_append,
    List.all_cons, hvisible, Bool.false_and]

/-- The chosen settings are loaded from their text. -/
lemma load_textOf (chosen : String → String → Bool) (c : Config) :
    load (some (textOf (c.chosenSections chosen)).toUTF8) = .ok (c.only chosen) := by
  by_cases hne : c.chosenSections chosen = []
  · rw [only_of_chosenSections_eq_nil hne, hne]
    exact load_of_blank rfl
  · have hnamed : ∀ e ∈ c.chosenSections chosen, Named e := fun e => named_of_mem_chosenSections
    exact load_eq (all_isBlank_textOf hne hnamed) (ofText?_textOf hne hnamed) (holds_documentOf chosen c)

lemma load_text (c : Config) : load (some c.text.toUTF8) = .ok c := by
  have hall : c.chosenSections (fun _ _ => true) = c.sections := rfl
  rw [text_eq, ← hall, load_textOf, only_all]

/-- A configuration that was saved is loaded as it was. -/
lemma load_read?_of_write {fails : FileTree.Step → Bool} {t t' : FileTree} {path : FilePath}
    (hsaved : t.write fails path c.text.toUTF8 = (true, t')) : load (t'.read? path) = .ok c := by
  have hwritten := (FileTree.allOrNothing_write fails t path c.text.toUTF8).written
  rw [hsaved] at hwritten
  rw [hwritten rfl, load_text]

lemma loadOrDefault_of_missing {t : FileTree} {path : FilePath} (h : t.contains path = false) :
    loadOrDefault (t.read? path) = .ok {} := by
  rw [FileTree.contains, Option.isSome_eq_false_iff, Option.isNone_iff_eq_none] at h
  rw [FileTree.read?, h]
  rfl

/--
A saved configuration is loaded as it was, and it is saved where nothing is in the way and no step fails.
Whatever a document omits has its default: if only some of the settings are written, if they stand in any
order and among others, and without any, as in a file of blanks or in no file at all.
-/
theorem load_saved_or_default :
    (∀ c : Config, load (some c.text.toUTF8) = .ok c) ∧
      (∀ (c : Config) (fails : FileTree.Step → Bool) (t t' : FileTree) (path : FilePath),
        t.write fails path c.text.toUTF8 = (true, t') → load (t'.read? path) = .ok c) ∧
      (∀ (chosen : String → String → Bool) (c : Config),
        load (some (textOf (c.chosenSections chosen)).toUTF8) = .ok (c.only chosen)) ∧
      (∀ (text : String) (d : Yaml.Document) (chosen : String → String → Bool) (c : Config),
        text.toList.all Text.isBlank = false → Yaml.Document.ofText? text = some d →
          Holds d chosen c → load (some text.toUTF8) = .ok (c.only chosen)) ∧
      (∀ text : String, text.toList.all Text.isBlank = true → load (some text.toUTF8) = .ok {}) ∧
      (∀ (t : FileTree) (path : FilePath), t.contains path = false →
        loadOrDefault (t.read? path) = .ok {}) ∧
      (∀ (c : Config) (t : FileTree) (names : List String) (name : String),
        (∀ n ∈ names ++ [name], isFileName n = true) →
        (∀ front, front <+: names → t.data? front = none) →
        t.isDirectory (names ++ [name]) = false →
        ∃ t', t.write (fun _ => false) ⟨names ++ [name], false⟩ c.text.toUTF8 = (true, t') ∧
          load (t'.read? ⟨names ++ [name], false⟩) = .ok c) := by
  refine ⟨load_text, fun c fails t t' path => load_read?_of_write, load_textOf,
    fun text d chosen c hvisible hdocument h => load_eq hvisible hdocument h, fun text => load_of_blank,
    fun t path => loadOrDefault_of_missing, fun c t names name hnames hfree hdir => ?_⟩
  have hwritten := FileTree.write_of_free hnames hfree hdir c.text.toUTF8
  refine ⟨_, Prod.ext hwritten rfl, load_read?_of_write (Prod.ext hwritten rfl)⟩

/-- A port among settings of unknown names, behind a section without settings, is all that is not a default,
and is saved where there is nothing yet. -/
theorem load_port_alone :
    load (some "other: 1\nserver:\n  color: red\n  port: 9000\nengine: \x7b\x7d\n".toUTF8) =
      .ok { server := { port := 9000 } } ∧
    ∃ t', FileTree.empty.write (fun _ => false) ⟨["etc", "concord.yaml"], false⟩
        (text { server := { port := 9000 } }).toUTF8 = (true, t') ∧
      load (t'.read? ⟨["etc", "concord.yaml"], false⟩) = .ok { server := { port := 9000 } } := by
  have hdocument : Yaml.Document.ofText? "other: 1\nserver:\n  color: red\n  port: 9000\nengine: \x7b\x7d\n" =
      some ⟨.mapping [(.scalar .plain none "other", .scalar .plain none "1"),
        (.scalar .plain none "server", .mapping [(.scalar .plain none "color", .scalar .plain none "red"),
          (.scalar .plain none "port", .scalar .plain none "9000")]),
        (.scalar .plain none "engine", .mapping [])], []⟩ := by cbv
  constructor
  · refine load_saved_or_default.2.2.2.1 _ _ (fun part name => part = "server" && name = "port")
      { server := { port := 9000 } } (by decide) hdocument ⟨(· = "engine"), ?_⟩
    have hsections : (({ server := { port := 9000 } } : Config).sections.filter fun s =>
        decide (s.1 = "engine") || s.2.any fun e => s.1 = "server" && e.1 = "port") =
          [("engine", [("max_depth", .number 32), ("max_actions", .number 1024), ("history", .number 4096)]),
            ("server", [("port", .number 9000)])] := by simp [sections]
    rw [hsections]
    refine .inl ⟨_, _, rfl, rfl, [("engine", .mapping []), ("server", _)], [("other", _)],
      (List.reverse_perm _).symm, .cons ⟨rfl, ?_⟩ (.cons ⟨rfl, ?_⟩ .nil), by simp [sections]⟩
    · exact .inl ⟨_, _, rfl, rfl, [], [], .refl _, .nil, by simp⟩
    · exact .inl ⟨_, _, rfl, rfl, [("port", _)], [("color", _)], (List.reverse_perm _).symm,
        .cons ⟨rfl, fits_number 9000⟩ .nil, by simp⟩
  · refine load_saved_or_default.2.2.2.2.2.2 _ .empty ["etc"] "concord.yaml" (by decide)
      (fun front h => ?_) rfl
    rcases List.prefix_cons_iff.1 h with rfl | ⟨rest, rfl, hrest⟩
    · rfl
    · rw [List.prefix_nil.1 hrest]
      rfl

end Config

end Synchrony
