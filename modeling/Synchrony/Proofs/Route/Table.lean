import Synchrony.Proofs.Route.Completion
import Synchrony.Proofs.Registry.Reflection

/-!
# Tables of routes

In a table of compatible routes, a request completes the request rule of the route that takes it and
no other rule (`RuleTable.Offers.completedBy_request`). The call of a route's action completes,
after the request, only the rule by which the route answers (`RuleTable.Offers.completedBy_call`). A
response completes nothing.
-/

namespace Synchrony

variable {ι : Type}

/-! ### Tables in which one rule is completed -/

namespace RuleTable

variable {t : RuleTable} {records : List Record} {record : Record}

lemma completedBy_eq_nil (h : ∀ rule ∈ t.rules, rule.completion records record = none) :
    t.completedBy records record = [] := by
  rw [completedBy_eq, List.filterMap_eq_nil_iff]
  intro rule hrule
  rw [h rule hrule]
  rfl

lemma completedBy_eq_singleton (hnames : (t.rules.map (·.name)).Nodup) {rule : Rule}
    (hrule : rule ∈ t.rules) {m : Match} (hm : rule.completion records record = some m)
    (honly : ∀ other ∈ t.rules, other ≠ rule → other.completion records record = none) :
    t.completedBy records record = [(rule, m)] := by
  rw [completedBy_eq, List.filterMap_eq_flatMap_toList,
    flatMap_eq_of_forall_ne hnames.of_map hrule fun other hother hne => ?_]
  · rw [hm]
    rfl
  · rw [honly other hother hne]
    rfl

end RuleTable

/-! ### Routes in a table -/

namespace RuleTable

/-- The rules of the table are those of compatible routes on declared actions. -/
structure Offers (t : RuleTable) (registry : Registry ι) (routes : List Route) : Prop where
  registered : registry.Registered
  compatible : Route.Compatible registry.contains routes
  rules : t.rules = routes.flatMap Route.rules

namespace Offers

variable {t : RuleTable} {registry : Registry ι} {routes : List Route} {route other : Route}
  {rule : Rule} {root call record : Record} {records : List Record} {request : String} {m : Match}

lemma nodup_names (h : t.Offers registry routes) : (t.rules.map (·.name)).Nodup := by
  rw [h.rules]
  exact h.compatible.names

lemma mem_rules_iff (h : t.Offers registry routes) : rule ∈ t.rules ↔
    ∃ route ∈ routes, rule = route.requestRule ∨
      ∃ x ∈ route.answers, rule = route.answerRule x.1 x.2 := by
  simp only [h.rules, List.mem_flatMap, Route.rules_eq, List.mem_cons, List.mem_map, eq_comm]

lemma eq_of_action (h : t.Offers registry routes) (hroute : route ∈ routes)
    (hother : other ∈ routes) (haction : route.action = other.action) : route = other :=
  List.inj_on_of_nodup_map h.compatible.actions hroute hother haction

/-- Routes on one path are one route. -/
lemma eq_of_path (h : t.Offers registry routes) (hroute : route ∈ routes) (hother : other ∈ routes)
    (hpath : route.action.path = other.action.path) : route = other :=
  h.eq_of_action hroute hother
    (h.registered.path_inj (h.compatible.declared route hroute) hpath)

/-! ### Responses -/

/-- A response completes nothing. -/
lemma completedBy_respond (h : t.Offers registry routes)
    (hrecord : record.action = Requesting.respondAction) : t.completedBy records record = [] := by
  apply completedBy_eq_nil
  intro rule hrule
  apply Rule.completion_eq_none_of_action
  rw [hrecord]
  have hrequest : Requesting.requestAction ≠ Requesting.respondAction := by decide
  obtain ⟨route, hroute, rfl | ⟨x, -, rfl⟩⟩ := h.mem_rules_iff.1 hrule
  · exact List.forall_mem_singleton.2 hrequest
  · have haction : route.action ≠ Requesting.respondAction := fun heq =>
      h.compatible.concept route hroute (congrArg ActionRef.concept heq)
    exact List.forall_mem_cons.2 ⟨hrequest, List.forall_mem_singleton.2 haction⟩

/-! ### Requests -/

/-- A request completes the request rule of a route that takes it. -/
lemma takes_of_completion (h : t.Offers registry routes) (hrule : rule ∈ t.rules)
    (hm : rule.completion [root] root = some m) :
    ∃ route ∈ routes, rule = route.requestRule ∧ route.Takes root.input := by
  obtain ⟨chosen, hcompletes, -⟩ := Rule.completion_sound (List.mem_singleton_self _) hm
  obtain ⟨route, hroute, rfl | ⟨x, -, rfl⟩⟩ := h.mem_rules_iff.1 hrule
  · exact ⟨route, hroute, rfl,
      Route.takes_of_completes (h.compatible.inputs route hroute) hcompletes⟩
  · have hlength := hcompletes.holds.length_eq
    rw [hcompletes.chosen_eq] at hlength
    cases hlength

theorem completedBy_request (h : t.Offers registry routes) (hroute : route ∈ routes)
    (hroot : root.Requests request) (htakes : route.Takes root.input) :
    ∃ m, t.completedBy [root] root = [(route.requestRule, m)] ∧
      ∀ name ∈ route.inputs, m.binding.get? name = root.input.get? name := by
  obtain ⟨m, hm⟩ := Option.isSome_iff_exists.1 (Route.isSome_completion_requestRule hroot htakes)
  refine ⟨m, ?_, fun name hname => Route.get?_of_completion_requestRule hm hname⟩
  apply completedBy_eq_singleton h.nodup_names _ hm
  · intro rule hrule hne
    rw [Option.eq_none_iff_forall_ne_some]
    intro m' hm'
    obtain ⟨other, hother, rfl, htakes'⟩ := h.takes_of_completion hrule hm'
    have hpath : route.action.path = other.action.path := by
      simpa using htakes.path.symm.trans htakes'.path
    exact hne (congrArg Route.requestRule (h.eq_of_path hroute hother hpath).symm)
  · exact h.mem_rules_iff.2 ⟨route, hroute, Or.inl rfl⟩

/-- A request that no route takes completes nothing. -/
theorem completedBy_request_eq_nil (h : t.Offers registry routes)
    (hnone : ∀ route ∈ routes, ¬ route.Takes root.input) : t.completedBy [root] root = [] := by
  apply completedBy_eq_nil
  intro rule hrule
  rw [Option.eq_none_iff_forall_ne_some]
  intro m hm
  obtain ⟨route, hroute, -, htakes⟩ := h.takes_of_completion hrule hm
  exact hnone route hroute htakes

/-! ### Calls -/

/-- After a request, the call of a route's action completes only rules that answer for the route. -/
lemma answers_of_completion (h : t.Offers registry routes) (hroute : route ∈ routes)
    (hfollows : route.Follows root call request) (hrule : rule ∈ t.rules)
    (hm : rule.completion [root, call] call = some m) :
    ∃ x ∈ route.answers, rule = route.answerRule x.1 x.2 ∧ Route.Answers call.output x.2 := by
  obtain ⟨other, hother, rfl | ⟨x, hx, rfl⟩⟩ := h.mem_rules_iff.1 hrule
  · rw [Rule.completion_eq_none_of_action] at hm
    · cases hm
    · intro p hp heq
      rw [List.mem_singleton.1 hp] at heq
      exact hfollows.action_ne heq.symm
  · obtain ⟨chosen, hcompletes, -⟩ := Rule.completion_sound (by simp) hm
    have hholds := hcompletes.holds
    rw [hfollows.chosen_eq hcompletes, Route.answerRule] at hholds
    obtain ⟨-, hholds⟩ := List.forall₂_cons.1 hholds
    have haction := (List.forall₂_cons.1 hholds).1.action
    obtain rfl := h.eq_of_action hother hroute (haction.trans hfollows.action)
    exact ⟨x, hx, rfl, hfollows.answers_of_completes hcompletes⟩

theorem completedBy_call (h : t.Offers registry routes) (hroute : route ∈ routes)
    (hfollows : route.Follows root call request) {x : String × List String}
    (hx : x ∈ route.answers) (hanswers : Route.Answers call.output x.2) :
    ∃ m, t.completedBy [root, call] call = [(route.answerRule x.1 x.2, m)] ∧
      m.binding.get? Requesting.requestField = some (.str request) ∧
      ∀ name ∈ x.2, m.binding.get? name = call.output.get? name := by
  have hfields := h.compatible.notMem_of_mem_answers hroute hx
  obtain ⟨m, hm⟩ := Option.isSome_iff_exists.1 (hfollows.isSome_completion hfields hanswers)
  refine ⟨m, ?_, hfollows.binding_of_completion hfields hm⟩
  apply completedBy_eq_singleton h.nodup_names _ hm
  · intro rule hrule hne
    rw [Option.eq_none_iff_forall_ne_some]
    intro m' hm'
    obtain ⟨y, hy, rfl, hanswers'⟩ := h.answers_of_completion hroute hfollows hrule hm'
    obtain rfl := Route.eq_of_answers (h.compatible.error route hroute) hx hy hanswers hanswers'
    exact hne rfl
  · exact h.mem_rules_iff.2 ⟨route, hroute, Or.inr ⟨x, hx, rfl⟩⟩

/-- A call that the route does not answer completes nothing. -/
theorem completedBy_call_eq_nil (h : t.Offers registry routes) (hroute : route ∈ routes)
    (hfollows : route.Follows root call request)
    (hnone : ∀ x ∈ route.answers, ¬ Route.Answers call.output x.2) :
    t.completedBy [root, call] call = [] := by
  apply completedBy_eq_nil
  intro rule hrule
  rw [Option.eq_none_iff_forall_ne_some]
  intro m hm
  obtain ⟨x, hx, -, hanswers⟩ := h.answers_of_completion hroute hfollows hrule hm
  exact hnone x hx hanswers

end Offers

end RuleTable

end Synchrony
