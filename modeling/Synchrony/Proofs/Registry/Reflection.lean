import Mathlib.Data.List.Induction
import Mathlib.Data.List.Nodup
import Synchrony.Proofs.Route.Paths
import Synchrony.Proofs.RuleTable.Installed

/-!
# What the registry reflects

After any calls the registry says of each concept what the last successful one among them said
(`Registry.get?_after`), whatever earlier calls declared and whichever calls were refused. From this
follows what is resolved, counted and listed (`Registry.reflects`). A call is refused exactly if a
name in it is no identifier or an action is declared twice, so names of declared actions cannot run
into each other in a text or a path.
-/

namespace Synchrony

/-! ### Calls -/

namespace Registry

variable {ι : Type}

lemma interfaceFault_eq_none_iff {concept : String} {seen : List String}
    {specs : List ActionSpec} : interfaceFault concept seen specs = none ↔
      (∀ spec ∈ specs, IsIdentifier spec.name) ∧ (specs.map (·.name)).Nodup ∧
        ∀ spec ∈ specs, spec.name ∉ seen := by
  induction specs generalizing seen with
  | nil => simp [interfaceFault]
  | cons spec rest ih =>
    rw [interfaceFault]
    split
    · rename_i hname
      refine ⟨fun h => absurd h (Option.some_ne_none _), fun h => ?_⟩
      exact absurd (isName_iff.2 (h.1 spec List.mem_cons_self)) (by simpa using hname)
    rename_i hname
    split
    · rename_i hseen
      refine ⟨fun h => absurd h (Option.some_ne_none _), fun h => ?_⟩
      exact absurd (List.contains_iff_mem.1 hseen) (h.2.2 spec List.mem_cons_self)
    rename_i hseen
    rw [ih, List.forall_mem_cons, List.forall_mem_cons, List.map_cons, List.nodup_cons]
    constructor
    · rintro ⟨hnames, hdistinct, hfresh⟩
      refine ⟨⟨isName_iff.1 (by simpa using hname), hnames⟩, ⟨fun hmem => ?_, hdistinct⟩,
        mt List.contains_iff_mem.2 hseen, fun s hs => List.not_mem_of_not_mem_cons (hfresh s hs)⟩
      obtain ⟨s, hs, heq⟩ := List.mem_map.1 hmem
      exact hfresh s hs (heq ▸ List.mem_cons_self)
    · rintro ⟨⟨-, hnames⟩, ⟨hnew, hdistinct⟩, -, hfresh⟩
      refine ⟨hnames, hdistinct, fun s hs => List.not_mem_cons_of_ne_of_not_mem ?_ (hfresh s hs)⟩
      exact fun heq => hnew (heq ▸ List.mem_map_of_mem hs)

/-- A concept that is to be registered: its name, its interface and its instance. -/
structure Call (ι : Type) where
  concept : String
  interface : List ActionSpec
  performer : ι

/-- All names are identifiers, and no action is declared twice. -/
structure Call.Valid (call : Call ι) : Prop where
  concept : IsIdentifier call.concept
  actions : ∀ spec ∈ call.interface, IsIdentifier spec.name
  distinct : (call.interface.map (·.name)).Nodup

lemma Call.valid_iff {call : Call ι} : call.Valid ↔
    isName call.concept = true ∧ interfaceFault call.concept [] call.interface = none := by
  rw [isName_iff, interfaceFault_eq_none_iff]
  constructor
  · exact fun h => ⟨h.concept, h.actions, h.distinct, by simp⟩
  · exact fun ⟨hconcept, hactions, hdistinct, _⟩ => ⟨hconcept, hactions, hdistinct⟩

instance (call : Call ι) : Decidable call.Valid := decidable_of_iff' _ Call.valid_iff

/-- What a call makes of the registry. One that is refused makes nothing of it. -/
def attempt (r : Registry ι) (call : Call ι) : Registry ι :=
  match r.register call.concept call.interface call.performer with
  | .ok r => r
  | .error _ => r

/-- What calls make of the registry, one after the other. -/
def after (r : Registry ι) (calls : List (Call ι)) : Registry ι := calls.foldl attempt r

/-- The last valid one of the calls for a concept. -/
def lastOf (calls : List (Call ι)) (concept : String) : Option (Call ι) :=
  calls.reverse.find? fun call => call.Valid ∧ call.concept = concept

variable {calls : List (Call ι)} {call : Call ι} {concept : String} {action : ActionRef}

/-! ### What one call does -/

lemma register_of_valid (r : Registry ι) (h : call.Valid) :
    r.register call.concept call.interface call.performer =
      .ok (r.store call.concept call.interface call.performer) :=
  register_eq_ok (Call.valid_iff.1 h).1 (Call.valid_iff.1 h).2

/-- A call is refused exactly if it is not valid. -/
lemma register_error_iff (r : Registry ι) : (∃ fault,
    r.register call.concept call.interface call.performer = .error fault) ↔ ¬ call.Valid := by
  constructor
  · rintro ⟨fault, hfault⟩ hvalid
    rw [r.register_of_valid hvalid] at hfault
    cases hfault
  · intro hvalid
    rw [Call.valid_iff, not_and] at hvalid
    rw [register]
    split
    · exact ⟨_, rfl⟩
    rename_i hname
    split
    · exact ⟨_, rfl⟩
    rename_i hnone
    exact absurd hnone (hvalid (by simpa using hname))

lemma attempt_of_valid (r : Registry ι) (h : call.Valid) :
    r.attempt call = r.store call.concept call.interface call.performer := by
  rw [attempt, r.register_of_valid h]

lemma attempt_of_not_valid (r : Registry ι) (h : ¬ call.Valid) : r.attempt call = r := by
  obtain ⟨fault, hfault⟩ := r.register_error_iff.2 h
  rw [attempt, hfault]

lemma after_concat (r : Registry ι) (calls : List (Call ι)) (call : Call ι) :
    r.after (calls ++ [call]) = (r.after calls).attempt call := by
  rw [after, List.foldl_append]
  rfl

lemma lastOf_concat (calls : List (Call ι)) (call : Call ι) (concept : String) :
    lastOf (calls ++ [call]) concept =
      if call.Valid ∧ call.concept = concept then some call else lastOf calls concept := by
  rw [lastOf, List.reverse_append, List.reverse_singleton, List.singleton_append, List.find?_cons]
  by_cases h : call.Valid ∧ call.concept = concept
  · rw [decide_eq_true h, if_pos h]
  · rw [decide_eq_false h, if_neg h]
    rfl

lemma valid_of_lastOf (h : lastOf calls concept = some call) :
    call.Valid ∧ call.concept = concept := by
  have hlast := List.find?_some h
  simpa using hlast

/-! ### What a run of calls leaves -/

/-- Each concept is registered as its last valid call says. -/
theorem get?_after (calls : List (Call ι)) (concept : String) :
    (empty.after calls).concepts.get? concept =
      (lastOf calls concept).map fun call => ⟨call.interface, call.performer⟩ := by
  induction calls using List.reverseRecOn with
  | nil => rfl
  | append_singleton calls call ih =>
    rw [after_concat, lastOf_concat]
    by_cases hvalid : call.Valid
    · rw [attempt_of_valid _ hvalid, store, KeyMap.get?_insert]
      by_cases hconcept : concept = call.concept
      · rw [if_pos hconcept, if_pos ⟨hvalid, hconcept.symm⟩]
        rfl
      · rw [if_neg hconcept, if_neg fun h => hconcept h.2.symm, ih]
    · rw [attempt_of_not_valid _ hvalid, if_neg fun h => hvalid h.1, ih]

/-- Where no action is declared twice, it is found by its name from either end. -/
lemma find?_reverse_eq_some_iff {specs : List ActionSpec} (h : (specs.map (·.name)).Nodup)
    {name : String} {spec : ActionSpec} :
    specs.reverse.find? (·.name = name) = some spec ↔ spec ∈ specs ∧ spec.name = name := by
  constructor
  · intro hfind
    have hname := List.find?_some hfind
    exact ⟨List.mem_reverse.1 (List.mem_of_find?_eq_some hfind), by simpa using hname⟩
  · rintro ⟨hmem, hname⟩
    obtain ⟨spec', hspec'⟩ : ∃ spec', specs.reverse.find? (·.name = name) = some spec' :=
      Option.isSome_iff_exists.1 (List.find?_isSome.2 ⟨spec, List.mem_reverse.2 hmem, by simp [hname]⟩)
    have hmem' : spec' ∈ specs := List.mem_reverse.1 (List.mem_of_find?_eq_some hspec')
    have hname' : spec'.name = name := by simpa using List.find?_some hspec'
    rw [hspec', List.inj_on_of_nodup_map h hmem' hmem (hname'.trans hname.symm)]

/-- An action is looked up exactly if the last valid call for its concept declares it. -/
lemma lookup?_after_eq_some_iff {handle : Handle ι} :
    (empty.after calls).lookup? action = some handle ↔ ∃ call spec,
      lastOf calls action.concept = some call ∧ spec ∈ call.interface ∧
      spec.name = action.action ∧ handle = ⟨action, spec, call.performer⟩ := by
  rw [lookup?_eq, get?_after]
  cases hlast : lastOf calls action.concept with
  | none => simp
  | some call =>
    obtain ⟨hvalid, -⟩ := valid_of_lastOf hlast
    rw [Option.map_some, Option.bind_some, Option.map_eq_some_iff]
    simp only [find?_reverse_eq_some_iff hvalid.distinct, Option.some.injEq]
    constructor
    · rintro ⟨spec, ⟨hmem, hname⟩, rfl⟩
      exact ⟨call, spec, rfl, hmem, hname, rfl⟩
    · rintro ⟨_, spec, rfl, hmem, hname, rfl⟩
      exact ⟨spec, ⟨hmem, hname⟩, rfl⟩

lemma resolve_eq_ok_iff {r : Registry ι} {handle : Handle ι} :
    r.resolve action = .ok handle ↔ r.lookup? action = some handle := by
  rw [resolve]
  cases r.lookup? action <;> simp

lemma contains_iff_resolve {r : Registry ι} :
    r.contains action = true ↔ ∃ handle, r.resolve action = .ok handle := by
  simp only [contains, Option.isSome_iff_exists, resolve_eq_ok_iff]

/-! ### What is counted and listed -/

/-- A row has a handle for each declared action. -/
lemma size_rowOf (concept : String) {registered : Registration ι}
    (h : (registered.interface.map (·.name)).Nodup) :
    (rowOf concept registered).size = registered.interface.length := by
  have hcontains (name : String) : (rowOf concept registered).contains name = true ↔
      (KeyMap.empty : KeyMap (Handle ι)).contains name = true ∨
        name ∈ registered.interface.map (·.name) := by
    rw [KeyMap.contains, rowOf, get?_foldl_insert, KeyMap.get?_empty, Option.or_none,
      Option.isSome_map, List.find?_isSome, KeyMap.contains, KeyMap.get?_empty, List.mem_map]
    simp
  rw [KeyMap.size_eq_add_length h (by simp [KeyMap.contains]) hcontains, List.length_map]
  exact Nat.zero_add _

/-- A concept without actions has no row, and none is missing in the count. -/
lemma foldl_size_rows {l : List (String × Registration ι)}
    (h : ∀ e ∈ l, (e.2.interface.map (·.name)).Nodup) (n : Nat) :
    ((l.filterMap fun e => (if e.2.interface.isEmpty then none else some (rowOf e.1 e.2)).map
      fun row => (e.1, row)).map (·.2)).foldl (fun n row => n + row.size) n =
      l.foldl (fun n e => n + e.2.interface.length) n := by
  induction l generalizing n with
  | nil => rfl
  | cons e rest ih =>
    rw [List.forall_mem_cons] at h
    rw [List.foldl_cons, ← ih h.2, List.filterMap_cons]
    by_cases hempty : e.2.interface.isEmpty = true
    · simp [List.isEmpty_iff.1 hempty]
    · simp [hempty, size_rowOf e.1 h.1]

lemma size_eq_foldl {r : Registry ι}
    (h : ∀ e ∈ r.concepts.entries, (e.2.interface.map (·.name)).Nodup) :
    r.size = r.summaries.foldl (fun n summary => n + summary.2.length) 0 := by
  rw [size, r.inStep, handlesOf, KeyMap.values, summaries]
  refine (foldl_size_rows h 0).trans ?_
  rw [List.foldl_map]

lemma lastOf_of_mem_entries {registered : Registration ι}
    (h : (concept, registered) ∈ (empty.after calls).concepts.entries) :
    ∃ call, lastOf calls concept = some call ∧ registered = ⟨call.interface, call.performer⟩ := by
  rw [KeyMap.mem_entries_iff, get?_after] at h
  obtain ⟨call, hlast, rfl⟩ := Option.map_eq_some_iff.1 h
  exact ⟨call, hlast, rfl⟩

lemma mem_names_after_iff :
    concept ∈ (empty.after calls).names ↔ ∃ call, lastOf calls concept = some call := by
  rw [names, KeyMap.mem_keys_iff, KeyMap.contains, get?_after, Option.isSome_map,
    Option.isSome_iff_exists]

lemma mem_summaries_after_iff {specs : List ActionSpec} :
    (concept, specs) ∈ (empty.after calls).summaries ↔
      ∃ call, lastOf calls concept = some call ∧ call.interface = specs := by
  rw [summaries, List.mem_map]
  constructor
  · rintro ⟨⟨concept, registered⟩, hmem, heq⟩
    obtain ⟨rfl, rfl⟩ := Prod.mk.inj heq
    obtain ⟨call, hlast, rfl⟩ := lastOf_of_mem_entries hmem
    exact ⟨call, hlast, rfl⟩
  · rintro ⟨call, hlast, rfl⟩
    refine ⟨(concept, ⟨call.interface, call.performer⟩), ?_, rfl⟩
    rw [KeyMap.mem_entries_iff, get?_after, hlast]
    rfl

/-- Only identifiers are declared. -/
lemma isIdentifier_of_contains (h : (empty.after calls).contains action = true) :
    IsIdentifier action.concept ∧ IsIdentifier action.action := by
  obtain ⟨handle, hhandle⟩ := Option.isSome_iff_exists.1 h
  obtain ⟨call, spec, hlast, hmem, hname, -⟩ := lookup?_after_eq_some_iff.1 hhandle
  obtain ⟨hvalid, hconcept⟩ := valid_of_lastOf hlast
  exact ⟨hconcept ▸ hvalid.concept, hname ▸ hvalid.actions spec hmem⟩

/-- The registry was filled by registering concepts, one after the other. -/
inductive Registered : Registry ι → Prop where
  | empty : Registered .empty
  | register {r r' : Registry ι} {concept : String} {interface : List ActionSpec} {performer : ι}
      (h : Registered r) (hregister : r.register concept interface performer = .ok r') :
      Registered r'

/-- A registry that was filled by calls is one after some calls. -/
lemma Registered.exists_calls {r : Registry ι} (h : r.Registered) :
    ∃ calls, r = Registry.empty.after calls := by
  induction h with
  | empty => exact ⟨[], rfl⟩
  | @register r r' concept interface performer _ hregister ih =>
    obtain ⟨calls, rfl⟩ := ih
    refine ⟨calls ++ [⟨concept, interface, performer⟩], ?_⟩
    rw [after_concat, attempt, hregister]

/-- No other reference has the path of a declared action. -/
theorem Registered.path_inj {r : Registry ι} (h : r.Registered) {action action' : ActionRef}
    (hdeclared : r.contains action = true) (hpath : action.path = action'.path) :
    action = action' := by
  obtain ⟨calls, rfl⟩ := h.exists_calls
  obtain ⟨hconcept, haction⟩ := isIdentifier_of_contains hdeclared
  exact ActionRef.path_inj hconcept haction hpath

/--
Of each concept the registry says what the last call for it that was not refused said. A call is
refused, and changes nothing, exactly if a name in it is no identifier or an action is declared twice.
-/
theorem reflects (calls : List (Call ι)) :
    let r := Registry.empty.after calls
    (∀ call : Call ι,
      ((∃ fault, r.register call.concept call.interface call.performer = .error fault) ↔
        ¬ call.Valid) ∧
      (¬ call.Valid → Registry.empty.after (calls ++ [call]) = r)) ∧
    (∀ action handle, r.resolve action = .ok handle ↔
      ∃ call spec, lastOf calls action.concept = some call ∧ spec ∈ call.interface ∧
        spec.name = action.action ∧ handle = ⟨action, spec, call.performer⟩) ∧
    (∀ action, r.contains action = true ↔ ∃ handle, r.resolve action = .ok handle) ∧
    r.size = r.summaries.foldl (fun n summary => n + summary.2.length) 0 ∧
    r.names.Pairwise (· < ·) ∧ r.summaries.map (·.1) = r.names ∧
    (∀ concept specs, (concept, specs) ∈ r.summaries ↔
      ∃ call, lastOf calls concept = some call ∧ call.interface = specs) ∧
    (∀ concept ∈ r.names, IsIdentifier concept) ∧
    (∀ action, r.contains action = true →
      IsIdentifier action.concept ∧ IsIdentifier action.action) ∧
    ∀ action action', r.contains action = true → r.contains action' = true →
      action.text = action'.text ∨ action.path = action'.path → action = action' := by
  intro r
  refine ⟨fun call => ⟨r.register_error_iff, fun hvalid => ?_⟩, fun action handle => ?_,
    fun action => contains_iff_resolve, size_eq_foldl ?_, List.pairwise_map.2 r.concepts.ordered, ?_,
    fun concept specs => mem_summaries_after_iff, ?_, fun action => isIdentifier_of_contains, ?_⟩
  · rw [after_concat, attempt_of_not_valid _ hvalid]
  · rw [resolve_eq_ok_iff, lookup?_after_eq_some_iff]
  · rintro ⟨concept, registered⟩ hmem
    obtain ⟨call, hlast, rfl⟩ := lastOf_of_mem_entries hmem
    exact (valid_of_lastOf hlast).1.distinct
  · rw [summaries, List.map_map]
    rfl
  · intro concept hconcept
    obtain ⟨call, hlast⟩ := mem_names_after_iff.1 hconcept
    obtain ⟨hvalid, rfl⟩ := valid_of_lastOf hlast
    exact hvalid.concept
  · intro action action' h h' hsame
    obtain ⟨hconcept, haction⟩ := isIdentifier_of_contains h
    obtain ⟨hconcept', -⟩ := isIdentifier_of_contains h'
    rcases hsame with htext | hpath
    · exact ActionRef.text_inj hconcept hconcept' htext
    · exact ActionRef.path_inj hconcept haction hpath

/-- The second call drops `ring`, and the third, which is refused, does not bring it back. -/
example :
    let calls : List (Call Unit) := [⟨"Bell", [⟨"ring", [], []⟩, ⟨"toll", [], []⟩], ()⟩,
      ⟨"Bell", [⟨"toll", [], []⟩], ()⟩, ⟨"Bell", [⟨"ring", [], []⟩, ⟨"ring", [], []⟩], ()⟩]
    (empty.after calls).contains ⟨"Bell", "ring"⟩ = false ∧
      (empty.after calls).contains ⟨"Bell", "toll"⟩ = true := by
  decide

end Registry

end Synchrony
