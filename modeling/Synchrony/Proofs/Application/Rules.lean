import Synchrony.Proofs.Application.Actions
import Synchrony.Proofs.Route.Table

/-!
# The rules of the application

The table of the application has the rules of its routes and, beside them, the one that notifies the
owner of a new list. That rule is completed by a request for a new list and the new list only, so a
request and the call that it causes complete what they complete among routes alone, and a new list
perhaps the notification after the response (`Application.completedBy_call`).
-/

namespace Synchrony

/-! ### Registration -/

lemma World.register_eq_ok {w : World} {name : String} {concept : Concept}
    (hname : isName name = true)
    (hinterface : Registry.interfaceFault name [] concept.interface = none) :
    w.register name concept = .ok { w with engine := { w.engine with
      registry := w.engine.registry.store name concept.interface concept } } := by
  rw [register, Engine.register, Registry.register_eq_ok hname hinterface]
  rfl

namespace Application

section Registration

variable (store : String)

lemma registry_eq : registry store =
    ((Registry.empty.store Requesting.conceptName Requesting.interface Requesting.concept).store
      ListCreation.conceptName ListCreation.interface (ListCreation.concept store)).store
      Notifying.conceptName Notifying.interface (Notifying.concept store) :=
  Registry.ext rfl

lemma registered_registry : (registry store).Registered := by
  rw [registry_eq]
  exact ((Registry.Registered.empty.register (Registry.register_eq_ok rfl rfl)).register
    (Registry.register_eq_ok rfl rfl)).register (Registry.register_eq_ok rfl rfl)

lemma registerAll_cons {w w' : World} {name : String} {concept : Concept}
    {rest : List (String × Concept)} (h : w.register name concept = .ok w') :
    registerAll w ((name, concept) :: rest) = registerAll w' rest := by
  rw [registerAll, h]

lemma registerAll_concepts {w : World} (h : w.engine.registry = .empty) :
    registerAll w (concepts store) =
      .ok ⟨{ w.engine with registry := registry store }, w.resources⟩ := by
  rw [concepts, registerAll_cons (World.register_eq_ok rfl rfl),
    registerAll_cons (World.register_eq_ok rfl rfl),
    registerAll_cons (World.register_eq_ok rfl rfl), registry_eq, ← h]
  rfl

/-- The concept of requests is registered. -/
lemma get?_requesting : (registry store).concepts.get? Requesting.conceptName =
    some ⟨Requesting.interface, Requesting.concept⟩ := by
  rw [registry, KeyMap.get?_insert_of_ne _ _ (by decide), KeyMap.get?_insert_of_ne _ _ (by decide),
    KeyMap.get?_insert_self]

lemma lookup?_requestAction : (registry store).lookup? Requesting.requestAction =
    some ⟨Requesting.requestAction, ⟨"request", ["path"], [Requesting.requestField]⟩,
      Requesting.concept⟩ := by
  rw [Registry.lookup?_eq, Requesting.requestAction, get?_requesting]
  rfl

lemma lookup?_respondAction : (registry store).lookup? Requesting.respondAction =
    some ⟨Requesting.respondAction,
      ⟨"respond", [Requesting.requestField], [Requesting.requestField]⟩, Requesting.concept⟩ := by
  rw [Registry.lookup?_eq, Requesting.respondAction, get?_requesting]
  rfl

/-- The routes of the application can be installed together. -/
lemma compatible_routes : Route.Compatible (registry store).contains routes := by
  refine ⟨by decide, by decide, fun route hroute => ?_, by decide, by decide, by decide, by decide⟩
  obtain ⟨spec, performer, hlookup, -⟩ := exists_ends store hroute
  rw [Registry.contains, hlookup]
  rfl

/-- The routes of the application in a table of their own. -/
lemma offers_routes : RuleTable.Offers { rules := routes.flatMap Route.rules } (registry store) routes :=
  ⟨registered_registry store, compatible_routes store, rfl⟩

end Registration

/-! ### The table -/

/-- The table of the application's rules. -/
def table : RuleTable := { rules }

lemma nodup_names : (table.rules.map (·.name)).Nodup := by decide

lemma sound_notifyOwnerRule : notifyOwnerRule.Sound := ⟨by decide, by decide⟩

lemma mem_rules_iff {rule : Rule} :
    rule ∈ rules ↔ rule = notifyOwnerRule ∨ rule ∈ routes.flatMap Route.rules := by
  simp only [rules, routes, List.flatMap_append, List.mem_append, List.mem_singleton]
  tauto

lemma tidy_table : table.Tidy := by
  refine ⟨nodup_names, ?_⟩
  intro rule hrule
  rcases mem_rules_iff.1 hrule with rfl | hrule
  · exact sound_notifyOwnerRule
  · obtain ⟨route, -, rfl | ⟨x, -, rfl⟩⟩ := (offers_routes "").mem_rules_iff.1 hrule
    · exact Route.sound_requestRule
    · exact Route.sound_answerRule _ _

/-- Nothing is wrong with the rules of the application. -/
lemma faults_eq_nil (store : String) :
    ∀ rule ∈ rules, rule.faults (registry store).contains = [] := by
  have hrequest : (registry store).contains Requesting.requestAction = true := by
    rw [Registry.contains, lookup?_requestAction]
    rfl
  have hrespond : (registry store).contains Requesting.respondAction = true := by
    rw [Registry.contains, lookup?_respondAction]
    rfl
  intro rule hrule
  rcases mem_rules_iff.1 hrule with heq | hrule
  · rw [heq]
    apply sound_notifyOwnerRule.faults_eq_nil
    have hnewList : (registry store).contains (listAction "newList") = true := by
      rw [Registry.contains, lookup?_listAction rfl]
      rfl
    have hnotify : (registry store).contains (noticeAction "notify") = true := by
      rw [Registry.contains, lookup?_noticeAction rfl]
      rfl
    simp [Rule.references, notifyOwnerRule, hrequest, hnewList, hnotify]
  · obtain ⟨route, hroute, hrule⟩ := List.mem_flatMap.1 hrule
    exact Route.faults_eq_nil ((compatible_routes store).declared route hroute) hrequest hrespond
      rule hrule

/-- All rules of the application are installed. -/
lemma rules_install (store : String) :
    (({} : RuleTable).install (registry store).contains rules).1 = table := by
  apply RuleTable.ext
  exact RuleTable.rules_install nodup_names (fun rule _ => Bool.false_ne_true) (faults_eq_nil store)

/-! ### What completes them -/

section Completion

variable {store request : String} {route : Route} {root call record : Record}
  {records : List Record}

/-- What a record completes in the table, part by part. -/
lemma completedBy_table : table.completedBy records record =
    RuleTable.completedBy { rules := listRoutes.flatMap Route.rules } records record ++
      ((notifyOwnerRule.completion records record).map (notifyOwnerRule, ·)).toList ++
      RuleTable.completedBy { rules := noticeRoutes.flatMap Route.rules } records record := by
  simp only [RuleTable.completedBy_eq, table, rules, List.filterMap_append, List.filterMap_cons]
  cases notifyOwnerRule.completion records record <;> rfl

lemma completedBy_routes :
    RuleTable.completedBy { rules := routes.flatMap Route.rules } records record =
      RuleTable.completedBy { rules := listRoutes.flatMap Route.rules } records record ++
        RuleTable.completedBy { rules := noticeRoutes.flatMap Route.rules } records record := by
  simp only [RuleTable.completedBy_eq, routes, List.flatMap_append, List.filterMap_append]

/-- Without the notification, a record completes what it completes among the routes. -/
lemma completedBy_eq_routes (h : notifyOwnerRule.completion records record = none) :
    table.completedBy records record =
      RuleTable.completedBy { rules := routes.flatMap Route.rules } records record := by
  rw [completedBy_table, completedBy_routes, h, Option.map_none, Option.toList_none,
    List.append_nil]

/-- A request alone does not cause a notification. -/
lemma completion_notifyOwnerRule_request : notifyOwnerRule.completion [root] root = none := by
  rw [Option.eq_none_iff_forall_ne_some]
  intro m hm
  obtain ⟨chosen, hcompletes, -⟩ := Rule.completion_sound (List.mem_singleton_self _) hm
  have hlength := hcompletes.holds.length_eq
  rw [hcompletes.chosen_eq] at hlength
  cases hlength

/-- Only requests and new lists cause a notification. -/
lemma completion_notifyOwnerRule_of_ne (hrequest : record.action ≠ Requesting.requestAction)
    (hnewList : record.action ≠ listAction "newList") :
    notifyOwnerRule.completion records record = none := by
  apply Rule.completion_eq_none_of_action
  exact List.forall_mem_cons.2 ⟨hrequest.symm, List.forall_mem_singleton.2 hnewList.symm⟩

/-- What happens to lists completes none of the rules for notifications. -/
lemma completedBy_noticeRoutes (hconcept : record.action.concept = ListCreation.conceptName) :
    RuleTable.completedBy { rules := noticeRoutes.flatMap Route.rules } records record = [] := by
  have hconcepts : ∀ rule ∈ noticeRoutes.flatMap Route.rules, ∀ p ∈ rule.conditions,
      p.action.concept ≠ ListCreation.conceptName := by decide
  apply RuleTable.completedBy_eq_nil
  intro rule hrule
  apply Rule.completion_eq_none_of_action
  intro p hp heq
  exact hconcepts rule hrule p hp ((congrArg ActionRef.concept heq).trans hconcept)

/-- A request that a route takes completes its request rule only. -/
theorem completedBy_request (hroute : route ∈ routes) (hroot : root.Requests request)
    (htakes : route.Takes root.input) :
    ∃ m, table.completedBy [root] root = [(route.requestRule, m)] ∧
      ∀ name ∈ route.inputs, m.binding.get? name = root.input.get? name := by
  rw [completedBy_eq_routes completion_notifyOwnerRule_request]
  exact (offers_routes "").completedBy_request hroute hroot htakes

/-- A request that no route takes completes nothing. -/
theorem completedBy_request_eq_nil (hnone : ∀ route ∈ routes, ¬ route.Takes root.input) :
    table.completedBy [root] root = [] := by
  rw [completedBy_eq_routes completion_notifyOwnerRule_request]
  exact (offers_routes "").completedBy_request_eq_nil hnone

/-- The call of a route's action completes the rule that answers, and perhaps the notification. -/
theorem completedBy_call (hroute : route ∈ routes) (hfollows : route.Follows root call request)
    {x : String × List String} (hx : x ∈ route.answers) (hanswers : Route.Answers call.output x.2) :
    ∃ m : Match, table.completedBy [root, call] call = (route.answerRule x.1 x.2, m) ::
        ((notifyOwnerRule.completion [root, call] call).map (notifyOwnerRule, ·)).toList ∧
      m.binding.get? Requesting.requestField = some (.str request) ∧
      ∀ name ∈ x.2, m.binding.get? name = call.output.get? name := by
  obtain ⟨m, hm, hrequest, hfields⟩ :=
    (offers_routes "").completedBy_call hroute hfollows hx hanswers
  refine ⟨m, ?_, hrequest, hfields⟩
  by_cases hnewList : call.action = listAction "newList"
  · have hnone : RuleTable.completedBy { rules := noticeRoutes.flatMap Route.rules } [root, call] call = [] :=
      completedBy_noticeRoutes (congrArg ActionRef.concept hnewList)
    rw [completedBy_routes, hnone, List.append_nil] at hm
    rw [completedBy_table, hm, hnone, List.append_nil, List.singleton_append]
  · have hnone : notifyOwnerRule.completion [root, call] call = none :=
      completion_notifyOwnerRule_of_ne hfollows.action_ne hnewList
    rw [completedBy_eq_routes hnone, hm, hnone]
    rfl

/-- Responses complete nothing. -/
lemma completedBy_respond (haction : record.action = Requesting.respondAction) :
    table.completedBy records record = [] := by
  have hnone : notifyOwnerRule.completion records record = none := by
    apply completion_notifyOwnerRule_of_ne <;> rw [haction] <;> decide
  rw [completedBy_eq_routes hnone]
  exact (offers_routes "").completedBy_respond haction

/-- Notifications complete nothing. -/
lemma completedBy_notify (haction : record.action = noticeAction "notify") :
    table.completedBy records record = [] := by
  have hactions : ∀ rule ∈ rules, ∀ p ∈ rule.conditions, p.action ≠ noticeAction "notify" := by
    decide
  apply RuleTable.completedBy_eq_nil
  intro rule hrule
  apply Rule.completion_eq_none_of_action
  rw [haction]
  exact hactions rule hrule

end Completion

end Application

end Synchrony
