import Mathlib.Data.List.Nodup
import Mathlib.Tactic.Common
import Synchrony.Config.File

/-!
# Omitted settings have their defaults

A document may give any of the settings, in any order and among others of unknown names
(`Settings.Gives`, at the level of the sections and inside each of them). What it gives counts, and
everything else is as in the default configuration (`Config.only`).
-/

namespace Synchrony

/-! ### Settings among others -/

namespace Settings

variable {α β : Type} {fits : String → β → α → Prop} {names : List String} {name : String}
  {settings : List (String × β)} {entries known others : List (String × α)}

/--
The entries are, in any order, one for each of the settings, which it fits, and others whose names do not
count.
-/
def Gives (fits : String → β → α → Prop) (names : List String) (settings : List (String × β))
    (entries : List (String × α)) : Prop :=
  ∃ known others, entries.Perm (known ++ others) ∧
    List.Forall₂ (fun s e => s.1 = e.1 ∧ fits s.1 s.2 e.2) settings known ∧ ∀ e ∈ others, e.1 ∉ names

lemma lookup_eq_filter (name : String) (entries : List (String × α)) :
    entries.lookup name = (entries.filter (·.1 = name)).head?.map (·.2) := by
  induction entries with
  | nil => rfl
  | cons e entries ih =>
    obtain ⟨n, a⟩ := e
    rw [List.lookup_cons]
    by_cases hn : n = name
    · simp [hn]
    · have hb : (name == n) = false := by simpa using fun h : name = n => hn h.symm
      simpa [hb, hn] using ih

/-- What stands under a name that stands there once does not depend on the order. -/
lemma lookup_eq_of_perm {entries' : List (String × α)} (h : entries.Perm entries')
    (hcount : entries.countP (·.1 = name) ≤ 1) : entries.lookup name = entries'.lookup name := by
  have hfilter := h.filter (fun e => decide (e.1 = name))
  rw [List.countP_eq_length_filter] at hcount
  rw [lookup_eq_filter, lookup_eq_filter]
  generalize entries.filter (fun e => decide (e.1 = name)) = l at hfilter hcount ⊢
  rcases l with _ | ⟨e, _ | ⟨e', l⟩⟩
  · rw [hfilter.nil_eq]
  · rw [hfilter.singleton_eq]
  · simp at hcount

lemma lookup_eq_none_of_forall_ne (h : ∀ e ∈ others, e.1 ≠ name) : others.lookup name = none := by
  rw [lookup_eq_filter, List.filter_eq_nil_iff.2 (by simpa using h)]
  rfl

lemma mem_of_lookup {b : β} (h : settings.lookup name = some b) : name ∈ settings.map (·.1) := by
  by_contra hnone
  rw [lookup_eq_none_of_forall_ne fun e he heq => hnone (List.mem_map.2 ⟨e, he, heq⟩)] at h
  cases h

lemma rel_lookup (h : List.Forall₂ (fun s e => s.1 = e.1 ∧ fits s.1 s.2 e.2) settings known)
    (name : String) : Option.Rel (fits name) (settings.lookup name) (known.lookup name) := by
  induction h with
  | nil => exact .none
  | @cons s e settings known hse _ ih =>
    obtain ⟨n, b⟩ := s
    obtain ⟨m, a⟩ := e
    obtain ⟨rfl, hfits⟩ := hse
    rw [List.lookup_cons, List.lookup_cons]
    by_cases hn : name = n
    · subst hn
      simpa using hfits
    · have hb : (name == n) = false := by simpa using hn
      simpa [hb] using ih

/-- Filtering leaves what stands under a name that stands there once, or nothing. -/
lemma lookup_filter {l : List (String × β)} (hdistinct : (l.map (·.1)).Nodup) (p : String × β → Bool)
    (name : String) : (l.filter p).lookup name = (l.lookup name).filter fun b => p (name, b) := by
  induction l with
  | nil => rfl
  | cons e l ih =>
    obtain ⟨n, b⟩ := e
    rw [List.map_cons, List.nodup_cons] at hdistinct
    rw [List.lookup_cons]
    by_cases hn : name = n
    · subst hn
      rw [beq_self_eq_true]
      have hrest : (l.filter p).lookup name = none := by
        refine lookup_eq_none_of_forall_ne fun e he heq => hdistinct.1 ?_
        exact List.mem_map.2 ⟨e, (List.mem_filter.1 he).1, heq⟩
      rw [Option.filter_some]
      by_cases hp : p (name, b) = true
      · rw [List.filter_cons_of_pos hp, List.lookup_cons, if_pos hp, beq_self_eq_true]
      · rw [List.filter_cons_of_neg hp, hrest, if_neg hp]
    · have hb : (name == n) = false := by simpa using hn
      rw [hb, ← ih hdistinct.2]
      by_cases hp : p (n, b) = true
      · rw [List.filter_cons_of_pos hp, List.lookup_cons, hb]
      · rw [List.filter_cons_of_neg hp]

/-- So each of the names that count stands there once at most, with what fits its setting. -/
lemma Gives.lookup (h : Gives fits names settings entries) (hdistinct : (settings.map (·.1)).Nodup)
    (hname : name ∈ names) : entries.countP (·.1 = name) ≤ 1 ∧
      Option.Rel (fits name) (settings.lookup name) (entries.lookup name) := by
  obtain ⟨known, others, hperm, hknown, hothers⟩ := h
  have hne : ∀ e ∈ others, e.1 ≠ name := fun e he heq => hothers e he (heq ▸ hname)
  have hkeys : settings.map (·.1) = known.map (·.1) := by
    clear hperm hdistinct
    induction hknown with
    | nil => rfl
    | cons hse _ ih => rw [List.map_cons, List.map_cons, hse.1, ih]
  have hcount : entries.countP (·.1 = name) ≤ 1 := by
    have hnone : others.countP (·.1 = name) = 0 := List.countP_eq_zero.2 (by simpa using hne)
    rw [hperm.countP_eq, List.countP_append, hnone, Nat.add_zero]
    have hone := List.nodup_iff_count_le_one.1 (hkeys ▸ hdistinct) name
    rwa [List.count, List.countP_map] at hone
  refine ⟨hcount, ?_⟩
  rw [lookup_eq_of_perm hperm hcount, List.lookup_append, lookup_eq_none_of_forall_ne hne, Option.or_none]
  exact rel_lookup hknown name

end Settings

/-! ### Settings in documents -/

namespace Yaml.Document

variable {β : Type} {fits : String → β → Node → Prop} {names : List String} {name : String}
  {settings : List (String × β)} {d : Document} {n : Node}

/-- The node is a mapping that gives the settings, or no value if there are none to give. -/
def Gives (d : Document) (fits : String → β → Node → Prop) (names : List String)
    (settings : List (String × β)) (n : Node) : Prop :=
  (∃ entries named, d.resolve n = .mapping entries ∧
    entries.mapM (fun e => (d.text? e.1).map fun name => (name, e.2)) = some named ∧
    Settings.Gives fits names settings named) ∨
  settings = [] ∧ ∃ tag, d.resolve n = .scalar .plain tag ""

lemma Gives.select? (h : d.Gives fits names settings n) (hdistinct : (settings.map (·.1)).Nodup) :
    ∃ get, (d.settings? n).bind (Settings.select? names) = some get ∧
      ∀ name ∈ names, Option.Rel (fits name) (settings.lookup name) (get name) := by
  rcases h with ⟨entries, named, hres, hnamed, hgives⟩ | ⟨rfl, tag, hres⟩
  · refine ⟨fun name => named.lookup name, ?_, fun name hname => (hgives.lookup hdistinct hname).2⟩
    have honce : (names.all fun name => named.countP (·.1 = name) ≤ 1) = true :=
      List.all_eq_true.2 fun name hname => decide_eq_true (hgives.lookup hdistinct hname).1
    rw [settings?, hres]
    simp only [hnamed, Option.map_some, Option.bind_some, Settings.select?, if_pos honce]
  · refine ⟨fun _ => none, ?_, fun _ _ => .none⟩
    rw [settings?, hres]
    simp [Settings.select?]

end Yaml.Document

namespace Config

/-- What a node holds is the setting. -/
def Written.Fits (d : Yaml.Document) : Written → Yaml.Node → Prop
  | nothing, n => d.optionalText? n = some none
  | number v, n => d.natural? n = some v
  | text s, n => d.optionalText? n = some (some s)
  | texts l, n => ((d.items? n).bind fun items => items.mapM d.text?) = some l

end Config

namespace Yaml.Document

variable (d : Document)

lemma text?_of_optionalText? {n : Node} {s : String} (h : d.optionalText? n = some (some s)) :
    d.text? n = some s := by
  rw [optionalText?] at h
  rw [text?]
  split at h
  · rename_i tag text heq
    rw [heq]
    split at h
    · split at h <;> cases h
    · split at h <;> cases h
      rfl
  · rename_i heq
    rw [heq]
    cases h
    rfl
  · cases h

/-- A setting is the one that is given if it is among those chosen, else the default. -/
lemma setting?_eq {β : Type} {p : Bool} {w : Config.Written} {found : Option Node} (read : Node → Option β)
    {v : β} (default : β) (h : Option.Rel (Config.Written.Fits d) (if p then some w else none) found)
    (hread : ∀ n, w.Fits d n → read n = some v) :
    Format.setting? read default found = some (if p then v else default) := by
  cases p with
  | false =>
    cases h
    rfl
  | true =>
    cases h with
    | some hfits => exact hread _ hfits

lemma bounded?_eq {bound v : Nat} {n : Node} (h : d.natural? n = some v) (hv : v < bound) :
    d.format.bounded? bound n = some v := by
  change (d.natural? n).bind _ = _
  rw [h, Option.bind_some, if_pos hv]

lemma number16?_eq {v : UInt16} {n : Node} (h : d.natural? n = some v.toNat) :
    d.format.number16? n = some v := by
  rw [Format.number16?, d.bounded?_eq h v.toNat_lt]
  simp

lemma number32?_eq {v : UInt32} {n : Node} (h : d.natural? n = some v.toNat) :
    d.format.number32? n = some v := by
  rw [Format.number32?, d.bounded?_eq h v.toNat_lt]
  simp

lemma number64?_eq {v : UInt64} {n : Node} (h : d.natural? n = some v.toNat) :
    d.format.number64? n = some v := by
  rw [Format.number64?, d.bounded?_eq h v.toNat_lt]
  simp

end Yaml.Document

namespace Config

variable {d : Yaml.Document} {n : Yaml.Node}

/-! ### Sections -/

/-- The settings that are chosen among those of a section, and the names of all of them. -/
def Given (d : Yaml.Document) (chosen : String → Bool) (settings : List (String × Written))
    (n : Yaml.Node) : Prop :=
  d.Gives (fun _ => Written.Fits d) (settings.map (·.1)) (settings.filter fun e => chosen e.1) n

/-- What a section is read from. -/
lemma Given.select? {chosen : String → Bool} {settings : List (String × Written)}
    (h : Given d chosen settings n) (hdistinct : (settings.map (·.1)).Nodup) :
    ∃ get, (d.format.settings? n).bind (Settings.select? (settings.map (·.1))) = some get ∧
      ∀ name w, settings.lookup name = some w →
        Option.Rel (Written.Fits d) (if chosen name then some w else none) (get name) := by
  obtain ⟨get, hget, hrel⟩ := Yaml.Document.Gives.select? h (hdistinct.sublist (List.filter_sublist.map _))
  refine ⟨get, hget, fun name w hw => ?_⟩
  have hfound := hrel name (Settings.mem_of_lookup hw)
  rwa [Settings.lookup_filter hdistinct, hw, Option.filter_some] at hfound

variable {chosen : String → Bool}

lemma engine?_eq {c : EngineConfig} (h : Given d chosen [
      ("max_depth", .number c.maxDepth.toNat),
      ("max_actions", .number c.maxActions.toNat),
      ("history", .number c.history.toNat)] n) :
    d.format.engine? n = some {
      maxDepth := if chosen "max_depth" then c.maxDepth else ({} : EngineConfig).maxDepth
      maxActions := if chosen "max_actions" then c.maxActions else ({} : EngineConfig).maxActions
      history := if chosen "history" then c.history else ({} : EngineConfig).history } := by
  obtain ⟨get, hget, hrel⟩ := h.select? (by simp)
  simp only [List.map_cons, List.map_nil] at hget
  have hdepth := d.setting?_eq d.format.number32? 32 (hrel "max_depth" _ rfl) fun _ => d.number32?_eq
  have hactions := d.setting?_eq d.format.number64? 1024 (hrel "max_actions" _ rfl) fun _ => d.number64?_eq
  have hhistory := d.setting?_eq d.format.number64? 4096 (hrel "history" _ rfl) fun _ => d.number64?_eq
  rw [Format.engine?]
  simp only [Option.bind_eq_bind]
  rw [← Option.bind_assoc, hget, Option.bind_some, hdepth, hactions, hhistory]
  rfl

lemma requesting?_eq {c : RequestingConfig} (h : Given d chosen [
      ("base_path", .text c.basePath),
      ("timeout_ms", .number c.timeoutMs.toNat),
      ("passthrough", .texts c.passthrough)] n) :
    d.format.requesting? n = some {
      basePath := if chosen "base_path" then c.basePath else ({} : RequestingConfig).basePath
      timeoutMs := if chosen "timeout_ms" then c.timeoutMs else ({} : RequestingConfig).timeoutMs
      passthrough :=
        if chosen "passthrough" then c.passthrough else ({} : RequestingConfig).passthrough } := by
  obtain ⟨get, hget, hrel⟩ := h.select? (by simp)
  simp only [List.map_cons, List.map_nil] at hget
  have hbase := d.setting?_eq d.format.text? "/api" (hrel "base_path" _ rfl) fun _ => d.text?_of_optionalText?
  have htimeout := d.setting?_eq d.format.number64? 10000 (hrel "timeout_ms" _ rfl) fun _ => d.number64?_eq
  have hpass := d.setting?_eq d.format.texts? [] (hrel "passthrough" _ rfl) fun _ h => h
  rw [Format.requesting?]
  simp only [Option.bind_eq_bind]
  rw [← Option.bind_assoc, hget, Option.bind_some, hbase, htimeout, hpass]
  rfl

lemma server?_eq {c : ServerConfig} (h : Given d chosen [("port", .number c.port.toNat)] n) :
    d.format.server? n = some {
      port := if chosen "port" then c.port else ({} : ServerConfig).port } := by
  obtain ⟨get, hget, hrel⟩ := h.select? (by simp)
  simp only [List.map_cons, List.map_nil] at hget
  have hport := d.setting?_eq d.format.number16? 8000 (hrel "port" _ rfl) fun _ => d.number16?_eq
  rw [Format.server?]
  simp only [Option.bind_eq_bind]
  rw [← Option.bind_assoc, hget, Option.bind_some, hport]
  rfl

lemma store?_eq {c : StoreConfig} (h : Given d chosen [("path", c.path.elim .nothing .text)] n) :
    d.format.store? n = some {
      path := if chosen "path" then c.path else ({} : StoreConfig).path } := by
  obtain ⟨get, hget, hrel⟩ := h.select? (by simp)
  simp only [List.map_cons, List.map_nil] at hget
  have hpath := d.setting?_eq d.format.optionalText? none (hrel "path" _ rfl) (v := c.path) fun n hn => by
    cases hc : c.path <;> rw [hc] at hn <;> exact hn
  rw [Format.store?]
  simp only [Option.bind_eq_bind]
  rw [← Option.bind_assoc, hget, Option.bind_some, hpath]
  rfl

/-! ### Whole configurations -/

/-- The configuration with its chosen settings; all others are the defaults. -/
def only (chosen : String → String → Bool) (c : Config) : Config where
  engine := {
    maxDepth := if chosen "engine" "max_depth" then c.engine.maxDepth else ({} : EngineConfig).maxDepth
    maxActions := if chosen "engine" "max_actions" then c.engine.maxActions else ({} : EngineConfig).maxActions
    history := if chosen "engine" "history" then c.engine.history else ({} : EngineConfig).history }
  requesting := {
    basePath :=
      if chosen "requesting" "base_path" then c.requesting.basePath else ({} : RequestingConfig).basePath
    timeoutMs :=
      if chosen "requesting" "timeout_ms" then c.requesting.timeoutMs else ({} : RequestingConfig).timeoutMs
    passthrough :=
      if chosen "requesting" "passthrough" then c.requesting.passthrough
      else ({} : RequestingConfig).passthrough }
  server := { port := if chosen "server" "port" then c.server.port else ({} : ServerConfig).port }
  store := { path := if chosen "store" "path" then c.store.path else ({} : StoreConfig).path }

lemma only_all (c : Config) : c.only (fun _ _ => true) = c := rfl

/--
The document gives the chosen settings and no others: each in its section, in any order and among others
of unknown names. A section without chosen settings may be there (`kept`) or not.
-/
def Holds (d : Yaml.Document) (chosen : String → String → Bool) (c : Config) : Prop :=
  ∃ kept : String → Bool, d.Gives (fun name => Given d (chosen name)) (c.sections.map (·.1))
    (c.sections.filter fun s => kept s.1 || s.2.any fun e => chosen s.1 e.1) d.root

/-- A section that is not there has no chosen settings. -/
lemma section_eq {β : Type} {settings : List (String × Written)} {kept : Bool} {found : Option Yaml.Node}
    (read : Yaml.Node → Option β) {v : β} (default : β)
    (h : Option.Rel (Given d chosen)
      (if kept || settings.any fun e => chosen e.1 then some settings else none) found)
    (hread : ∀ n, Given d chosen settings n → read n = some v)
    (hdefault : (∀ e ∈ settings, chosen e.1 = false) → v = default) :
    Format.setting? read default found = some v := by
  cases hthere : kept || settings.any fun e => chosen e.1 with
  | true =>
    rw [hthere] at h
    cases h with
    | some hgiven => exact hread _ hgiven
  | false =>
    rw [hthere] at h
    cases h
    rw [Bool.or_eq_false_iff, List.any_eq_false] at hthere
    rw [Format.setting?, hdefault fun e he => by simpa using hthere.2 e he]

/-- What is given counts, and everything else has its default. -/
theorem ofDocument?_eq {chosen : String → String → Bool} {c : Config} (h : Holds d chosen c) :
    ofDocument? d = some (c.only chosen) := by
  obtain ⟨kept, hgives⟩ := h
  have hdistinct : (c.sections.map (·.1)).Nodup := by simp [sections]
  obtain ⟨get, hget, hrel⟩ := hgives.select? (hdistinct.sublist (List.filter_sublist.map _))
  have hsection (name : String) (settings : List (String × Written))
      (hlookup : c.sections.lookup name = some settings) :
      Option.Rel (Given d (chosen name))
        (if kept name || settings.any fun e => chosen name e.1 then some settings else none) (get name) := by
    have hfound := hrel name (Settings.mem_of_lookup hlookup)
    rwa [Settings.lookup_filter hdistinct, hlookup, Option.filter_some] at hfound
  have hengine := section_eq d.format.engine? {} (hsection "engine" _ rfl) (fun n => engine?_eq)
    (by simp +contextual)
  have hrequesting := section_eq d.format.requesting? {} (hsection "requesting" _ rfl)
    (fun n => requesting?_eq) (by simp +contextual)
  have hserver := section_eq d.format.server? {} (hsection "server" _ rfl) (fun n => server?_eq)
    (by simp +contextual)
  have hstore := section_eq d.format.store? {} (hsection "store" _ rfl) (fun n => store?_eq)
    (by simp +contextual)
  simp only [sections, List.map_cons, List.map_nil] at hget
  have hget : (d.format.settings? d.root).bind
      (Settings.select? ["engine", "requesting", "server", "store"]) = some get := hget
  rw [ofDocument?, Format.config?]
  simp only [Option.bind_eq_bind]
  rw [← Option.bind_assoc, hget, Option.bind_some, hengine, hrequesting, hserver, hstore]
  rfl

/-- A file that holds a text is read as the text. -/
lemma load_toUTF8 (text : String) :
    load (some text.toUTF8) = (ofText? text).elim (.error .malformed) .ok := by
  have htext : String.fromUTF8? text.toUTF8 = some text := dif_pos text.isValidUTF8
  rw [load, htext]

/-- A file with other characters than blanks holds what its document holds. -/
theorem load_eq {text : String} {chosen : String → String → Bool} {c : Config}
    (hvisible : text.toList.all Text.isBlank = false) (hdocument : Yaml.Document.ofText? text = some d)
    (h : Holds d chosen c) : load (some text.toUTF8) = .ok (c.only chosen) := by
  rw [load_toUTF8, ofText?, hvisible, if_neg (by decide), hdocument, Option.bind_some, ofDocument?_eq h]
  rfl

/-- A file of blanks holds the defaults. -/
theorem load_of_blank {text : String} (hblank : text.toList.all Text.isBlank = true) :
    load (some text.toUTF8) = .ok {} := by
  rw [load_toUTF8, ofText?, if_pos hblank]
  rfl

end Config

end Synchrony
