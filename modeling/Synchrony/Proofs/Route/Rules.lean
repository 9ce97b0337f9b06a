import Synchrony.Proofs.RuleTable.Installed
import Synchrony.Route

/-!
# The rules of routes

The shapes of a route's rules hold one variable for each name (`Route.get?_withVars`), so a rule
binds all it uses, and routes with rules of different names on declared actions are installed as
they are (`Route.rules_install`). What a consequence is called with is read off its shape
(`Shape.get?_of_resolve`).
-/

namespace Synchrony

/-! ### Shapes -/

namespace Shape

lemma mem_vars_iff {s : Shape} {x : String} : x ∈ s.vars ↔ ∃ key, s.get? key = some (.var x) := by
  rw [vars, List.mem_filterMap]
  constructor
  · rintro ⟨⟨key, term⟩, hmem, hvar⟩
    cases term with
    | lit v => cases hvar
    | var y =>
      cases hvar
      exact ⟨key, KeyMap.mem_entries_iff.1 hmem⟩
  · rintro ⟨key, hkey⟩
    exact ⟨(key, .var x), KeyMap.mem_entries_iff.2 hkey, rfl⟩

lemma get?_of_resolveEntries {b : Binding} {entries : List (String × Term)} {fields : Fields}
    (h : resolveEntries b entries = .ok fields) (key : String) :
    fields.get? key = (KeyMap.find? key entries).bind fun term => (term.value? b).toOption := by
  induction entries generalizing fields with
  | nil =>
    cases h
    rfl
  | cons e rest ih =>
    obtain ⟨k, term⟩ := e
    obtain ⟨v, fields', hv, hrest, rfl⟩ := resolveEntries_cons_eq_ok_iff.1 h
    rw [KeyMap.get?_insert, KeyMap.find?]
    by_cases heq : key = k
    · rw [if_pos heq, if_pos heq.symm, Option.bind_some, hv]
      rfl
    · rw [if_neg heq, if_neg (Ne.symm heq), ih hrest]

/-- Each argument is the value of the term at its place. -/
lemma get?_of_resolve {s : Shape} {b : Binding} {fields : Fields} (h : s.resolve b = .ok fields)
    (key : String) :
    fields.get? key = (s.get? key).bind fun term => (term.value? b).toOption :=
  get?_of_resolveEntries h key

end Shape

lemma Term.toOption_value?_var (b : Binding) (name : String) :
    ((Term.var name).value? b).toOption = b.get? name := by
  rw [value?]
  cases b.get? name <;> rfl

namespace Route

lemma get?_withVars (s : Shape) (names : List String) (key : String) :
    (withVars s names).get? key = if key ∈ names then some (.var key) else s.get? key := by
  induction names generalizing s with
  | nil => rfl
  | cons name names ih =>
    rw [withVars, List.foldl_cons]
    change (withVars _ names).get? key = _
    rw [ih, KeyMap.get?_insert]
    by_cases hmem : key ∈ names
    · simp [hmem]
    · by_cases heq : key = name
      · simp [heq]
      · simp [hmem, heq]

lemma mem_vars_withVars (s : Shape) (names : List String) {x : String} (hx : x ∈ names) :
    x ∈ (withVars s names).vars := by
  rw [Shape.mem_vars_iff]
  exact ⟨x, by rw [get?_withVars, if_pos hx]⟩

lemma mem_or_mem_vars_of_mem_vars_withVars {s : Shape} {names : List String} {x : String}
    (hx : x ∈ (withVars s names).vars) : x ∈ names ∨ x ∈ s.vars := by
  obtain ⟨key, hkey⟩ := Shape.mem_vars_iff.1 hx
  rw [get?_withVars] at hkey
  split at hkey
  · cases hkey
    exact .inl ‹_›
  · exact .inr (Shape.mem_vars_iff.2 ⟨key, hkey⟩)

/-- A consequence that takes variables is called with their values under their names. -/
lemma get?_of_resolve_withVars {s : Shape} {names : List String} {b : Binding} {fields : Fields}
    (h : (withVars s names).resolve b = .ok fields) {key : String} (hkey : key ∈ names) :
    fields.get? key = b.get? key := by
  rw [Shape.get?_of_resolve h, get?_withVars, if_pos hkey, Option.bind_some,
    Term.toOption_value?_var]

lemma get?_of_resolve_withVars_of_notMem {s : Shape} {names : List String} {b : Binding}
    {fields : Fields} (h : (withVars s names).resolve b = .ok fields) {key : String}
    (hkey : key ∉ names) :
    fields.get? key = (s.get? key).bind fun term => (term.value? b).toOption := by
  rw [Shape.get?_of_resolve h, get?_withVars, if_neg hkey]

/-! ### Soundness -/

variable {route : Route}

lemma sound_requestRule : route.requestRule.Sound := by
  refine ⟨List.cons_ne_nil _ _, ?_⟩
  intro invocation hinvocation x hx
  rw [List.mem_singleton.1 hinvocation] at hx
  rcases mem_or_mem_vars_of_mem_vars_withVars hx with hmem | hempty
  · simp [requestRule, Pattern.vars, mem_vars_withVars _ _ hmem]
  · cases hempty

/-- The rule by which these fields of the action's output go back as the response. -/
def answerRule (route : Route) (name : String) (fields : List String) : Rule where
  name := name
  conditions := [route.requestPattern, ⟨route.action, .empty, withVars .empty fields⟩]
  consequences :=
    [⟨Requesting.respondAction, withVars (withVars .empty [Requesting.requestField]) fields⟩]

lemma responseRule_eq :
    route.responseRule = route.answerRule (route.baseName ++ "Response") route.outputs := rfl

lemma errorRule_eq :
    route.errorRule = route.answerRule (route.baseName ++ "ErrorResponse") ["error"] := rfl

lemma sound_answerRule (name : String) (fields : List String) :
    (route.answerRule name fields).Sound := by
  refine ⟨List.cons_ne_nil _ _, ?_⟩
  intro invocation hinvocation x hx
  rw [List.mem_singleton.1 hinvocation] at hx
  rcases mem_or_mem_vars_of_mem_vars_withVars hx with hmem | hrequest
  · simp [answerRule, Pattern.vars, mem_vars_withVars _ _ hmem]
  -- the request is bound by the first condition
  rcases mem_or_mem_vars_of_mem_vars_withVars hrequest with hmem | hempty
  · simp [answerRule, requestPattern, Pattern.vars, mem_vars_withVars _ _ hmem]
  · cases hempty

/-- Nothing is wrong with the rules of a route on a declared action. -/
lemma faults_eq_nil {declared : ActionRef → Bool} (haction : declared route.action = true)
    (hrequest : declared Requesting.requestAction = true)
    (hrespond : declared Requesting.respondAction = true) :
    ∀ rule ∈ route.rules, rule.faults declared = [] := by
  intro rule hrule
  simp only [rules, List.mem_cons, List.not_mem_nil, or_false] at hrule
  rw [responseRule_eq, errorRule_eq] at hrule
  rcases hrule with rfl | rfl | rfl
  · exact sound_requestRule.faults_eq_nil
      (by simp [Rule.references, requestRule, haction, hrequest])
  all_goals
    apply (sound_answerRule _ _).faults_eq_nil
    simp [Rule.references, answerRule, requestPattern, haction, hrequest, hrespond]

/-! ### Tables of routes -/

/--
The routes can be installed together: their rules have different names, and their actions are
different declared ones of other concepts. No input is called like the path, and no output like the
identifier of a request or the error.
-/
structure Compatible (declared : ActionRef → Bool) (routes : List Route) : Prop where
  names : ((routes.flatMap rules).map (·.name)).Nodup
  actions : (routes.map (·.action)).Nodup
  declared : ∀ route ∈ routes, declared route.action = true
  concept : ∀ route ∈ routes, route.action.concept ≠ Requesting.conceptName
  inputs : ∀ route ∈ routes, "path" ∉ route.inputs
  request : ∀ route ∈ routes, Requesting.requestField ∉ route.outputs
  error : ∀ route ∈ routes, "error" ∉ route.outputs

/-- Compatible routes are installed as they are. -/
theorem Compatible.rules_install {declared : ActionRef → Bool} {routes : List Route}
    (h : Compatible declared routes) (hrequest : declared Requesting.requestAction = true)
    (hrespond : declared Requesting.respondAction = true) :
    (({} : RuleTable).install declared (routes.flatMap rules)).1.rules = routes.flatMap rules := by
  refine RuleTable.rules_install h.names (fun _ _ => by exact Bool.false_ne_true) ?_
  intro rule hrule
  obtain ⟨route, hroute, hrule⟩ := List.mem_flatMap.1 hrule
  exact faults_eq_nil (h.declared route hroute) hrequest hrespond rule hrule

end Route

end Synchrony
