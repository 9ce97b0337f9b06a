import Synchrony.Proofs.Registry.Reflection
import Synchrony.Proofs.Route.Rules
import Synchrony.Proofs.RuleTable.Upkeep

/-!
# The names of the rules of routes

The rules of a route are called by the route's base name with three endings, one of which ends in
another. So two routes have a rule name in common exactly if they have one base name, or the base name
of one is that of the other with `Error` behind it (`Route.disjoint_ruleNames_iff`). Base names do not
tell all actions apart, as underscores in front and the case of the first letter are lost. A batch of
the rules of routes replaces a rule in exactly these cases (`Route.install_replaced_eq_nil_iff`).
-/

namespace Synchrony

namespace Route

/-! ### Endings -/

/-- The names of the three rules of the routes with this base name. -/
def ruleNames (base : String) : List String :=
  [base ++ "Request", base ++ "Response", base ++ "ErrorResponse"]

@[simp] lemma map_name_rules (r : Route) : r.rules.map (·.name) = ruleNames r.baseName := rfl

lemma map_name_flatMap_rules (routes : List Route) :
    (routes.flatMap rules).map (·.name) = (routes.map baseName).flatMap ruleNames := by
  rw [List.map_flatMap, List.flatMap_map]
  rfl

variable {base other : String}

lemma request_ne_response (base other : String) : base ++ "Request" ≠ other ++ "Response" := by
  intro h
  have hlast := congrArg (·.toList.getLast?) h
  simp at hlast

lemma request_ne_errorResponse (base other : String) :
    base ++ "Request" ≠ other ++ "ErrorResponse" := by
  intro h
  have hlast := congrArg (·.toList.getLast?) h
  simp at hlast

lemma response_eq_errorResponse_iff :
    base ++ "Response" = other ++ "ErrorResponse" ↔ base = other ++ "Error" := by
  have hending : "ErrorResponse" = "Error" ++ "Response" := rfl
  rw [hending, ← String.append_assoc, String.append_left_inj]

lemma ne_append_error (base : String) : base ≠ base ++ "Error" := by
  intro h
  simpa using congrArg String.length h

lemma nodup_ruleNames (base : String) : (ruleNames base).Nodup := by
  simp [ruleNames]

/-- Rule names are shared if the base names are the same, or one is the other one with `Error`. -/
lemma disjoint_ruleNames_iff : (ruleNames base).Disjoint (ruleNames other) ↔
    base ≠ other ∧ base ≠ other ++ "Error" ∧ other ≠ base ++ "Error" := by
  have hresponse := (request_ne_response other base).symm
  have herror := (request_ne_errorResponse other base).symm
  rw [ruleNames, ruleNames]
  simp only [List.disjoint_cons_left, List.disjoint_nil_left, List.mem_cons, List.not_mem_nil,
    String.append_left_inj, request_ne_response, request_ne_errorResponse, hresponse, herror,
    response_eq_errorResponse_iff, eq_comm (a := base ++ "ErrorResponse")]
  tauto

/-- The names of the rules of some routes are kept apart. -/
lemma nodup_flatMap_ruleNames_iff (bases : List String) : (bases.flatMap ruleNames).Nodup ↔
    bases.Nodup ∧ ∀ base ∈ bases, ∀ other ∈ bases, base ≠ other ++ "Error" := by
  induction bases with
  | nil => simp
  | cons base rest ih =>
    have hdisjoint : (ruleNames base).Disjoint (rest.flatMap ruleNames) ↔
        ∀ other ∈ rest, (ruleNames base).Disjoint (ruleNames other) := by
      constructor
      · intro h other hother name hbase hname
        exact h hbase (List.mem_flatMap.2 ⟨other, hother, hname⟩)
      · intro h name hbase hrest
        obtain ⟨other, hother, hname⟩ := List.mem_flatMap.1 hrest
        exact h other hother hbase hname
    have hnew : base ∉ rest ↔ ∀ other ∈ rest, base ≠ other :=
      ⟨fun h other hother heq => h (heq ▸ hother), fun h hmem => h base hmem rfl⟩
    have herror := ne_append_error base
    rw [List.flatMap_cons, List.nodup_append', ih, hdisjoint, List.nodup_cons, hnew]
    simp only [disjoint_ruleNames_iff, nodup_ruleNames, List.forall_mem_cons, forall_and]
    tauto

/-! ### Batches of routes -/

variable {ι : Type} {e : Engine ι} {routes : List Route} {batch : List Rule}

/-- Nothing is wrong with the rules of routes on declared actions, in whatever order. -/
lemma valid_of_perm (hrequest : e.registry.contains Requesting.requestAction = true)
    (hrespond : e.registry.contains Requesting.respondAction = true)
    (hdeclared : ∀ route ∈ routes, e.registry.contains route.action = true)
    (hbatch : batch.Perm (routes.flatMap rules)) :
    ∀ rule ∈ batch, rule.Valid e.registry.contains := by
  intro rule hrule
  obtain ⟨route, hroute, hmem⟩ := List.mem_flatMap.1 (hbatch.mem_iff.1 hrule)
  exact Rule.faults_eq_nil_iff.1
    (faults_eq_nil (hdeclared route hroute) hrequest hrespond rule hmem)

/-- The rules of routes on declared actions, in any order, are all installed, three for each route.
They replace no rule exactly if their names are new, the base names of the routes are kept apart, and
none of these is another one with `Error` behind it; then they stand behind the rules that were
there. -/
theorem install_replaced_eq_nil_iff
    (hrequest : e.registry.contains Requesting.requestAction = true)
    (hrespond : e.registry.contains Requesting.respondAction = true)
    (hdeclared : ∀ route ∈ routes, e.registry.contains route.action = true)
    (hbatch : batch.Perm (routes.flatMap rules)) :
    let done := (e.install batch).1
    done.rejected = [] ∧ done.installed = batch.map (·.name) ∧
      done.installed.length = 3 * routes.length ∧
      (done.replaced = [] ↔ (∀ rule ∈ batch, ¬ e.rules.contains rule.name = true) ∧
        (routes.map baseName).Nodup ∧
        ∀ route ∈ routes, ∀ other ∈ routes, route.baseName ≠ other.baseName ++ "Error") ∧
      (done.replaced = [] → (e.install batch).2.rules.rules = e.rules.rules ++ batch) := by
  intro done
  have hvalid := valid_of_perm hrequest hrespond hdeclared hbatch
  have hfaults (rule : Rule) (hrule : rule ∈ batch) : rule.faults e.registry.contains = [] :=
    Rule.faults_eq_nil_iff.2 (hvalid rule hrule)
  have hinstalled : done.installed = batch.map (·.name) := by
    change (e.rules.install e.registry.contains batch).2.installed = _
    rw [RuleTable.install_eq, List.filter_eq_self.2 fun r hr => decide_eq_true (hvalid r hr)]
  have hrejected : done.rejected = [] := by
    change (e.rules.install e.registry.contains batch).2.rejected = _
    rw [RuleTable.install_eq, List.flatMap_eq_nil_iff]
    intro rule hrule
    rw [hfaults rule hrule, List.map_nil]
  have hlength : batch.length = 3 * routes.length := by
    rw [hbatch.length_eq, List.length_flatMap]
    simp [rules, Nat.mul_comm]
  have hreplaced : done.replaced = [] ↔ (batch.map (·.name)).Nodup ∧
      ∀ rule ∈ batch, ¬ e.rules.contains rule.name = true := RuleTable.replaced_eq_nil_iff hvalid
  have hnames : (batch.map (·.name)).Nodup ↔ (routes.map baseName).Nodup ∧
      ∀ route ∈ routes, ∀ other ∈ routes, route.baseName ≠ other.baseName ++ "Error" := by
    rw [(hbatch.map (·.name)).nodup_iff, map_name_flatMap_rules, nodup_flatMap_ruleNames_iff]
    simp only [List.forall_mem_map]
  refine ⟨hrejected, hinstalled, by rw [hinstalled, List.length_map, hlength], ?_, fun hnil => ?_⟩
  · rw [hreplaced, hnames, and_comm]
  · obtain ⟨hnodup, hnew⟩ := hreplaced.1 hnil
    exact RuleTable.rules_install hnodup hnew hfaults

end Route

/-! ### A pantry -/

namespace Pantry

/-- A pantry shows its jars, counts them and fills them. -/
def interface : List ActionSpec :=
  [⟨"_jars", [], ["jars"]⟩, ⟨"jars", [], ["count"]⟩, ⟨"fill", ["jar"], ["jar"]⟩]

def registry : Registry Unit where
  concepts := KeyMap.ofList
    [(Requesting.conceptName, ⟨Requesting.interface, ()⟩), ("Pantry", ⟨interface, ()⟩)]

lemma registered_registry : registry.Registered :=
  have requesting : Registry.empty.register Requesting.conceptName Requesting.interface
    () = .ok { concepts := KeyMap.ofList [(Requesting.conceptName, _)] } := rfl
  have pantry : Registry.register _ "Pantry" interface () = .ok registry := rfl
  .register (.register .empty requesting) pantry

def engine : Engine Unit where
  limits := ⟨2, 3⟩
  registry := registry
  log := { capacity := 4 }

def shown : Route := ⟨⟨"Pantry", "_jars"⟩, [], ["jars"]⟩

def counted : Route := ⟨⟨"Pantry", "jars"⟩, [], ["count"]⟩

def filled : Route := ⟨⟨"Pantry", "fill"⟩, ["jar"], ["jar"]⟩

end Pantry

open Pantry in
theorem Route.install_replaced_eq_nil_iff_pantry :
    let batch := [shown, filled].flatMap Route.rules
    (engine.install batch.reverse).1.replaced = [] ∧
      (engine.install batch.reverse).2.rules.rules = batch.reverse := by
  have h := @install_replaced_eq_nil_iff Unit engine [shown, filled] _ (by decide) (by decide)
    (by decide) (List.reverse_perm _)
  have hnone := h.2.2.2.1.2 (by decide)
  exact ⟨hnone, h.2.2.2.2 hnone⟩

open Pantry in
/-- The routes of an action and of a query whose names differ in the underscore in front have the
same rule names, so the second one takes the place of the first. -/
theorem Route.not_forall_replaced_eq_nil :
    ¬ ∀ (e : Engine Unit) (routes : List Route) (batch : List Rule), e.registry.Registered →
      e.registry.contains Requesting.requestAction = true →
      e.registry.contains Requesting.respondAction = true →
      (∀ route ∈ routes, e.registry.contains route.action = true) →
      (routes.map (·.action)).Nodup → e.rules = {} → batch.Perm (routes.flatMap rules) →
      (e.install batch).1.replaced = [] := by
  intro h
  have hnone := h engine [shown, counted] _ registered_registry (by decide) (by decide) (by decide)
    (by decide) rfl (List.Perm.refl _)
  exact absurd hnone (by decide)

end Synchrony
