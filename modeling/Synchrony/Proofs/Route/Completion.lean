import Synchrony.Proofs.Burst.Firings
import Synchrony.Proofs.Route.Rules

/-!
# What completes the rules of a route

A request completes the request rule of a route that takes it, and the call of a route's action
after the request completes a rule that answers if its output has what goes back (`Route.Takes`,
`Route.Answers`). The action is called with the request's fields that it takes, and the response has
the fields of the output that the route answers with (`Route.payload?`).
-/

namespace Synchrony

/-! ### Bindings -/

lemma KeyMap.get?_filterKeys_mem {α : Type} (names : List String) (m : KeyMap α) (key : String) :
    (m.filterKeys (· ∈ names)).get? key = if key ∈ names then m.get? key else none := by
  simp [get?_filterKeys]

/-- A variable that meets one value only has that value. -/
lemma Fits.get?_of_forall {patterns : List Pattern} {chosen : List Record} {b : Binding}
    (h : Fits patterns chosen b) {x : String} {v : Value} (hmem : (x, v) ∈ foundBy patterns chosen)
    (hunique : ∀ w, (x, w) ∈ foundBy patterns chosen → w = v) : b.get? x = some v := by
  rw [h.values]
  cases hfirst : KeyMap.find? x (foundBy patterns chosen) with
  | none => exact absurd hmem (KeyMap.find?_eq_none_iff.1 hfirst v)
  | some w => rw [hunique w (KeyMap.mem_of_find?_eq_some hfirst)]

lemma Value.eq_str_of_same {v : Value} {s : String} (h : v.same (.str s) = true) : v = .str s := by
  cases v with
  | str t =>
    rw [same, beq_iff_eq] at h
    rw [h]
  | _ => simp [same] at h

/-! ### Shapes of variables -/

namespace Route

lemma get?_ne_var_of_vars_eq_nil {s : Shape} (hs : s.vars = []) (key x : String) :
    s.get? key ≠ some (.var x) := by
  intro hkey
  have hmem := Shape.mem_vars_iff.2 ⟨key, hkey⟩
  rw [hs] at hmem
  cases hmem

lemma mem_vars_withVars_iff {s : Shape} (hs : s.vars = []) {names : List String} {x : String} :
    x ∈ (withVars s names).vars ↔ x ∈ names := by
  constructor
  · intro hx
    obtain ⟨key, hkey⟩ := Shape.mem_vars_iff.1 hx
    rw [get?_withVars] at hkey
    split at hkey
    · cases hkey
      assumption
    · exact absurd hkey (get?_ne_var_of_vars_eq_nil hs key x)
  · exact mem_vars_withVars s names

lemma notMem_foundIn_of_vars_eq_nil {s : Shape} (hs : s.vars = []) {fields : Fields} {x : String}
    {v : Value} : (x, v) ∉ Shape.foundIn fields s.entries := by
  rw [Shape.mem_foundIn_iff]
  rintro ⟨key, hkey, -⟩
  exact get?_ne_var_of_vars_eq_nil hs key x hkey

lemma mem_foundIn_withVars_iff {s : Shape} (hs : s.vars = []) {names : List String}
    {fields : Fields} {x : String} {v : Value} :
    (x, v) ∈ Shape.foundIn fields (withVars s names).entries ↔
      x ∈ names ∧ fields.get? x = some v := by
  rw [Shape.mem_foundIn_iff]
  constructor
  · rintro ⟨key, hkey, hvalue⟩
    rw [get?_withVars] at hkey
    split at hkey
    · cases hkey
      exact ⟨by assumption, hvalue⟩
    · exact absurd hkey (get?_ne_var_of_vars_eq_nil hs key x)
  · rintro ⟨hx, hvalue⟩
    exact ⟨x, by rw [get?_withVars, if_pos hx], hvalue⟩

lemma contains_of_holds {s : Shape} {names : List String} {fields : Fields} {b : Binding}
    (h : (withVars s names).Holds fields b) {name : String} (hname : name ∈ names) :
    fields.contains name = true := by
  obtain ⟨v, hv, -⟩ := h name (.var name) (by rw [get?_withVars, if_pos hname])
  exact KeyMap.contains_iff.2 ⟨v, hv⟩

/-- Fields have a shape of variables if they are all there and are the values of the variables. -/
lemma holds_withVars {s : Shape} {names : List String} {fields : Fields} {b : Binding}
    (hs : s.Holds fields b) (hfields : ∀ name ∈ names, fields.contains name = true)
    (hb : ∀ name ∈ names, b.get? name = fields.get? name) : (withVars s names).Holds fields b := by
  intro key term hkey
  rw [get?_withVars] at hkey
  split at hkey
  · rename_i hmem
    cases hkey
    obtain ⟨v, hv⟩ := KeyMap.contains_iff.1 (hfields key hmem)
    exact ⟨v, hv, v, (hb key hmem).trans hv, Value.same_refl v⟩
  · exact hs key term hkey

/-! ### Requests -/

variable {route : Route}

/-- The request is on the route's path and has all the fields that the action takes. -/
structure Takes (route : Route) (input : Fields) : Prop where
  path : input.get? "path" = some (.str route.action.path)
  inputs : ∀ name ∈ route.inputs, input.contains name = true

lemma vars_pathShape : route.pathShape.vars = [] := rfl

lemma get?_pathShape : route.pathShape.get? "path" = some (.lit (.str route.action.path)) :=
  KeyMap.get?_singleton_self _ _

lemma holds_pathShape {input : Fields} (h : input.get? "path" = some (.str route.action.path))
    (b : Binding) : route.pathShape.Holds input b := by
  intro key term hkey
  rw [pathShape, KeyMap.singleton, KeyMap.get?_insert] at hkey
  split at hkey
  · rename_i heq
    cases hkey
    rw [heq]
    exact ⟨_, h, Value.same_refl _⟩
  · cases hkey

lemma path_of_holds {names : List String} (hnames : "path" ∉ names) {input : Fields} {b : Binding}
    (h : (withVars route.pathShape names).Holds input b) :
    input.get? "path" = some (.str route.action.path) := by
  obtain ⟨v, hv, hsame⟩ := h "path" (.lit (.str route.action.path))
    (by rw [get?_withVars, if_neg hnames, get?_pathShape])
  rw [hv, Value.eq_str_of_same hsame]

end Route

/-- The record is of a request that got an identifier. -/
structure Record.Requests (root : Record) (request : String) : Prop where
  action : root.action = Requesting.requestAction
  output : root.output = Requesting.named request

lemma Record.Requests.isError {root : Record} {request : String} (h : root.Requests request) :
    root.isError = false := by
  rw [Record.isError, h.output]
  rfl

lemma Record.Requests.get?_output {root : Record} {request : String} (h : root.Requests request) :
    root.output.get? Requesting.requestField = some (.str request) := by
  rw [h.output]
  exact KeyMap.get?_singleton_self ..

/-- A choice out of one record is that record. -/
lemma Rule.Completes.chosen_eq {rule : Rule} {r : Record} {chosen : List Record} {b : Binding}
    (h : rule.Completes [r] r chosen b) : chosen = [r] := by
  have hlisted : ∀ r' ∈ chosen, r' = r := fun r' hr' => List.mem_singleton.1 (h.listed r' hr')
  have hdistinct := h.distinct
  rw [List.eq_replicate_of_mem hlisted, List.map_replicate, List.nodup_replicate] at hdistinct
  have hpos := List.length_pos_of_mem h.trigger_mem
  rw [List.eq_replicate_of_mem hlisted, Nat.le_antisymm hdistinct hpos]
  rfl

/-- A choice out of two records, of which the second one does not fit the first condition. -/
lemma Rule.Completes.chosen_eq_pair {rule : Rule} {p q : Pattern} {root call : Record}
    {chosen : List Record} {b : Binding} (h : rule.Completes [root, call] call chosen b)
    (hconditions : rule.conditions = [p, q]) (hp : p.action ≠ call.action) : chosen = [root, call] := by
  have hholds := h.holds
  rw [hconditions] at hholds
  cases hholds with
  | @cons _ first _ _ hfirst hrest =>
    cases hrest with
    | @cons _ second _ _ hsecond hrest =>
      cases hrest
      have hne : first ≠ call := by
        rintro rfl
        exact hp hfirst.action
      have hroot : first = root := by
        simpa [hne] using h.listed first (by simp)
      have hcall : second = call := by
        simpa [hne.symm, eq_comm] using h.trigger_mem
      rw [hroot, hcall]

namespace Route

section Request

variable {route : Route} {root : Record} {request : String} {b : Binding} {chosen : List Record}

lemma mem_vars_requestRule_iff {x : String} :
    x ∈ route.requestRule.conditions.flatMap Pattern.vars ↔ x ∈ route.inputs := by
  rw [requestRule, List.flatMap_singleton, Pattern.vars, List.mem_append,
    mem_vars_withVars_iff vars_pathShape]
  exact or_iff_left List.not_mem_nil

lemma mem_foundBy_requestRule_iff {x : String} {v : Value} :
    (x, v) ∈ foundBy route.requestRule.conditions [root] ↔
      x ∈ route.inputs ∧ root.input.get? x = some v := by
  simp only [requestRule, foundBy, List.zip_cons_cons, List.zip_nil_left, List.flatMap_singleton,
    Pattern.found, List.mem_append, mem_foundIn_withVars_iff vars_pathShape]
  exact or_iff_left (notMem_foundIn_of_vars_eq_nil rfl)

lemma takes_of_completes (hpath : "path" ∉ route.inputs)
    (h : route.requestRule.Completes [root] root chosen b) : route.Takes root.input := by
  have hholds := h.holds
  rw [h.chosen_eq] at hholds
  obtain ⟨hpattern, -⟩ := List.forall₂_cons.1 hholds
  exact ⟨path_of_holds hpath hpattern.input, fun name hname =>
    contains_of_holds hpattern.input hname⟩

/-- A request that the route takes completes its request rule. -/
lemma isSome_completion_requestRule (hroot : root.Requests request)
    (htakes : route.Takes root.input) :
    (route.requestRule.completion [root] root).isSome = true := by
  have hsorted : ([] ++ [root] : List Record).Pairwise (·.seq < ·.seq) :=
    List.pairwise_singleton _ _
  apply (Rule.completion_isSome_iff_of_sorted hsorted).2
  apply (Rule.exists_completes_iff fun _ _ _ => rfl).2
  let b := root.input.filterKeys (· ∈ route.inputs)
  have hget (x : String) : b.get? x = if x ∈ route.inputs then root.input.get? x else none :=
    KeyMap.get?_filterKeys_mem _ _ _
  refine ⟨[root], b, .cons ⟨hroot.action.symm, ?_, ?_, ?_⟩ .nil, ?_, by simp, by simp, by simp, rfl⟩
  · simp [hroot.isError]
  · apply holds_withVars (holds_pathShape htakes.path _) htakes.inputs
    intro name hname
    rw [hget, if_pos hname]
  · intro key term hkey
    cases hkey
  · intro x
    rw [mem_vars_requestRule_iff, hget]
    constructor
    · intro hx
      split at hx
      · assumption
      · cases hx
    · intro hx
      rw [if_pos hx]
      exact htakes.inputs x hx

/-- The request rule is completed with the values of the request's fields. -/
lemma get?_of_completion_requestRule {m : Match}
    (hm : route.requestRule.completion [root] root = some m) {name : String}
    (hname : name ∈ route.inputs) : m.binding.get? name = root.input.get? name := by
  obtain ⟨chosen, hcompletes, -⟩ := Rule.completion_sound (List.mem_singleton_self _) hm
  obtain rfl := hcompletes.chosen_eq
  obtain ⟨hpattern, -⟩ := List.forall₂_cons.1 hcompletes.holds
  obtain ⟨v, hv⟩ := KeyMap.contains_iff.1 (contains_of_holds hpattern.input hname)
  rw [hv]
  apply hcompletes.toFits.get?_of_forall (mem_foundBy_requestRule_iff.2 ⟨hname, hv⟩)
  intro w hw
  exact Option.some.inj ((mem_foundBy_requestRule_iff.1 hw).2.symm.trans hv)

end Request

/-! ### Calls -/

section Call

variable {route : Route} {root call : Record} {request name : String} {fields : List String}

/-- The call of the route's action, after a request on its path. -/
structure Follows (route : Route) (root call : Record) (request : String) : Prop where
  requests : root.Requests request
  path : root.input.get? "path" = some (.str route.action.path)
  concept : route.action.concept ≠ Requesting.conceptName
  action : call.action = route.action
  later : root.seq < call.seq

lemma Follows.action_ne (h : route.Follows root call request) :
    call.action ≠ Requesting.requestAction := by
  rw [h.action]
  intro heq
  exact h.concept (congrArg ActionRef.concept heq)

lemma Follows.sorted (h : route.Follows root call request) :
    ([root] ++ [call]).Pairwise (·.seq < ·.seq) :=
  List.pairwise_pair.2 h.later

/-- What a rule that answers looks at is the request and the call. -/
lemma Follows.chosen_eq (h : route.Follows root call request) {other : Route}
    {chosen : List Record} {b : Binding}
    (hcompletes : (other.answerRule name fields).Completes [root, call] call chosen b) :
    chosen = [root, call] :=
  hcompletes.chosen_eq_pair rfl fun heq => h.action_ne heq.symm

/-- The output has all these fields, and no error beside them. -/
structure Answers (output : Fields) (fields : List String) : Prop where
  error : output.contains "error" = true → "error" ∈ fields
  fields : ∀ name ∈ fields, output.contains name = true

lemma contains_error_iff {fields : List String} :
    (withVars .empty fields).contains "error" = true ↔ "error" ∈ fields := by
  rw [KeyMap.contains, get?_withVars]
  split
  · rename_i hmem
    exact iff_of_true rfl hmem
  · rename_i hmem
    exact iff_of_false (fun h => by cases h) hmem

lemma Follows.answers_of_completes (h : route.Follows root call request) {chosen : List Record}
    {b : Binding}
    (hcompletes : (route.answerRule name fields).Completes [root, call] call chosen b) :
    Answers call.output fields := by
  have hholds := hcompletes.holds
  rw [h.chosen_eq hcompletes, answerRule] at hholds
  obtain ⟨-, hholds⟩ := List.forall₂_cons.1 hholds
  obtain ⟨hpattern, -⟩ := List.forall₂_cons.1 hholds
  exact ⟨fun herror => contains_error_iff.1 (hpattern.error herror),
    fun name hname => contains_of_holds hpattern.output hname⟩

lemma holds_empty (fields : Fields) (b : Binding) : Shape.Holds .empty fields b := by
  intro key term hkey
  cases hkey

lemma mem_vars_answerRule_iff {x : String} :
    x ∈ (route.answerRule name fields).conditions.flatMap Pattern.vars ↔
      x = Requesting.requestField ∨ x ∈ fields := by
  simp only [answerRule, requestPattern, List.flatMap_cons, List.flatMap_nil, Pattern.vars,
    List.mem_append, vars_pathShape, List.not_mem_nil, or_false, false_or]
  rw [mem_vars_withVars_iff (s := .empty) rfl, mem_vars_withVars_iff (s := .empty) rfl,
    List.mem_singleton]
  exact or_congr_right (or_iff_right List.not_mem_nil)

lemma mem_foundBy_answerRule_iff {x : String} {v : Value} :
    (x, v) ∈ foundBy (route.answerRule name fields).conditions [root, call] ↔
      x = Requesting.requestField ∧ root.output.get? x = some v ∨
        x ∈ fields ∧ call.output.get? x = some v := by
  simp only [answerRule, requestPattern, foundBy, List.zip_cons_cons, List.zip_nil_left,
    List.flatMap_cons, List.flatMap_nil, List.append_nil, Pattern.found, List.mem_append]
  rw [mem_foundIn_withVars_iff (s := .empty) rfl, mem_foundIn_withVars_iff (s := .empty) rfl,
    List.mem_singleton]
  exact or_congr (or_iff_right (notMem_foundIn_of_vars_eq_nil vars_pathShape))
    (or_iff_right (notMem_foundIn_of_vars_eq_nil rfl))

/-- A call whose output has the fields completes the rule that answers with them. -/
lemma Follows.isSome_completion (h : route.Follows root call request)
    (hfields : Requesting.requestField ∉ fields) (hanswers : Answers call.output fields) :
    ((route.answerRule name fields).completion [root, call] call).isSome = true := by
  apply (Rule.completion_isSome_iff_of_sorted h.sorted).2
  apply (Rule.exists_completes_iff fun _ _ _ => rfl).2
  let b : Binding :=
    (call.output.filterKeys (· ∈ fields)).insert Requesting.requestField (.str request)
  have hrequest : b.get? Requesting.requestField = some (.str request) :=
    KeyMap.get?_insert_self ..
  have hget {x : String} (hx : x ≠ Requesting.requestField) :
      b.get? x = if x ∈ fields then call.output.get? x else none := by
    rw [KeyMap.get?_insert_of_ne _ _ hx, KeyMap.get?_filterKeys_mem]
  have houtput := h.requests.get?_output
  have hroot : route.requestPattern.Holds root b := by
    refine ⟨h.requests.action.symm, ?_, holds_pathShape h.path b, ?_⟩
    · simp [h.requests.isError]
    · apply holds_withVars (holds_empty _ b)
      · simp [KeyMap.contains_iff, houtput]
      · simp [hrequest, houtput]
  have hcall : (Pattern.mk route.action .empty (withVars .empty fields)).Holds call b := by
    refine ⟨h.action.symm, ?_, holds_empty _ b, ?_⟩
    · exact fun herror => contains_error_iff.2 (hanswers.error herror)
    · apply holds_withVars (holds_empty _ b) hanswers.fields
      intro x hx
      rw [hget fun heq => hfields (heq ▸ hx), if_pos hx]
  refine ⟨[root, call], b, .cons hroot (.cons hcall .nil), ?_, ?_, by simp, by simp, rfl⟩
  · intro x
    rw [mem_vars_answerRule_iff]
    by_cases hx : x = Requesting.requestField
    · simp [hx, hrequest]
    · rw [hget hx, or_iff_right hx]
      split
      · rename_i hmem
        exact iff_of_true (hanswers.fields x hmem) hmem
      · rename_i hmem
        exact iff_of_false (by simp) hmem
  · simpa using h.later.ne

/-- The rule is completed with the request's identifier and the fields of the call's output. -/
lemma Follows.binding_of_completion (h : route.Follows root call request)
    (hfields : Requesting.requestField ∉ fields) {m : Match}
    (hm : (route.answerRule name fields).completion [root, call] call = some m) :
    m.binding.get? Requesting.requestField = some (.str request) ∧
      ∀ x ∈ fields, m.binding.get? x = call.output.get? x := by
  obtain ⟨chosen, hcompletes, -⟩ := Rule.completion_sound (by simp) hm
  have hanswers := h.answers_of_completes hcompletes
  obtain rfl := h.chosen_eq hcompletes
  have houtput := h.requests.get?_output
  constructor
  · apply hcompletes.toFits.get?_of_forall (mem_foundBy_answerRule_iff.2 (Or.inl ⟨rfl, houtput⟩))
    intro w hw
    rcases mem_foundBy_answerRule_iff.1 hw with ⟨-, hw⟩ | ⟨hmem, -⟩
    · exact Option.some.inj (hw.symm.trans houtput)
    · exact absurd hmem hfields
  · intro x hx
    obtain ⟨v, hv⟩ := KeyMap.contains_iff.1 (hanswers.fields x hx)
    rw [hv]
    apply hcompletes.toFits.get?_of_forall (mem_foundBy_answerRule_iff.2 (Or.inr ⟨hx, hv⟩))
    intro w hw
    rcases mem_foundBy_answerRule_iff.1 hw with ⟨rfl, -⟩ | ⟨-, hw⟩
    · exact absurd hx hfields
    · exact Option.some.inj (hw.symm.trans hv)

end Call

/-! ### What the arguments of consequences are -/

/-- The action is called with the request's fields that it takes. -/
lemma args_eq_of_resolve_requestRule {inputs : List String} {b : Binding} {input args : Fields}
    (hargs : (withVars .empty inputs).resolve b = .ok args)
    (hb : ∀ name ∈ inputs, b.get? name = input.get? name) :
    args = input.filterKeys (· ∈ inputs) := by
  apply KeyMap.ext_get?
  intro key
  rw [KeyMap.get?_filterKeys_mem]
  by_cases hkey : key ∈ inputs
  · rw [get?_of_resolve_withVars hargs hkey, hb key hkey, if_pos hkey]
  · rw [get?_of_resolve_withVars_of_notMem hargs hkey, if_neg hkey]
    rfl

/-- The response is given the request's identifier and, beside it, the fields of the output. -/
lemma args_of_resolve_answerRule {fields : List String} {b : Binding} {output args : Fields}
    {request : String} (hfields : Requesting.requestField ∉ fields)
    (hargs : (withVars (withVars .empty [Requesting.requestField]) fields).resolve b = .ok args)
    (hrequest : b.get? Requesting.requestField = some (.str request))
    (hb : ∀ x ∈ fields, b.get? x = output.get? x) :
    Requesting.addressee? args = some request ∧
      Requesting.payloadOf args = output.filterKeys (· ∈ fields) := by
  have hother {key : String} (hkey : key ∉ fields) : args.get? key =
      if key = Requesting.requestField then some (.str request) else none := by
    rw [get?_of_resolve_withVars_of_notMem hargs hkey, get?_withVars]
    by_cases heq : key = Requesting.requestField
    · rw [heq, if_pos (List.mem_singleton_self _), if_pos rfl, Option.bind_some,
        Term.toOption_value?_var, hrequest]
    · rw [if_neg (by simpa using heq), if_neg heq]
      rfl
  constructor
  · rw [Requesting.addressee?, hother hfields, if_pos rfl]
  · apply KeyMap.ext_get?
    intro key
    rw [Requesting.payloadOf, KeyMap.get?_erase, KeyMap.get?_filterKeys_mem]
    by_cases hkey : key ∈ fields
    · have hne : key ≠ Requesting.requestField := fun heq => hfields (heq ▸ hkey)
      rw [if_neg hne, get?_of_resolve_withVars hargs hkey, hb key hkey, if_pos hkey]
    · rw [hother hkey, if_neg hkey]
      split <;> rfl

/-! ### What a route answers -/

/-- The rules by which a route answers, each with the fields of the output that go back. -/
def answers (route : Route) : List (String × List String) :=
  [(route.baseName ++ "Response", route.outputs), (route.baseName ++ "ErrorResponse", ["error"])]

lemma rules_eq (route : Route) : route.rules =
    route.requestRule :: route.answers.map fun x => route.answerRule x.1 x.2 := rfl

/-- What goes back for an output: its error, or what the route returns if all of it is there. -/
def payload? (route : Route) (output : Fields) : Option Fields :=
  match output.get? "error" with
  | some v => some (KeyMap.singleton "error" v)
  | none =>
    if ∀ name ∈ route.outputs, output.contains name = true then
      some (output.filterKeys (· ∈ route.outputs))
    else none

section Answers

variable {route : Route} {output : Fields} {x : String × List String}

lemma mem_answers_iff : x ∈ route.answers ↔
    x = (route.baseName ++ "Response", route.outputs) ∨
      x = (route.baseName ++ "ErrorResponse", ["error"]) := by
  simp [answers]

lemma answers_error_iff : Answers output ["error"] ↔ output.contains "error" = true := by
  constructor
  · intro h
    exact h.fields "error" (List.mem_singleton_self _)
  · intro h
    refine ⟨fun _ => List.mem_singleton_self _, ?_⟩
    intro name hname
    rwa [List.mem_singleton.1 hname]

lemma answers_iff_of_notMem {fields : List String} (hfields : "error" ∉ fields) :
    Answers output fields ↔
      output.get? "error" = none ∧ ∀ name ∈ fields, output.contains name = true := by
  have herror : output.get? "error" = none ↔ ¬ output.contains "error" = true := by
    rw [KeyMap.contains, Option.isSome_iff_ne_none, not_not]
  rw [herror]
  constructor
  · intro h
    exact ⟨fun hcontains => hfields (h.error hcontains), h.fields⟩
  · rintro ⟨hnone, hall⟩
    exact ⟨fun hcontains => absurd hcontains hnone, hall⟩

/-- A rule that answers sends the fields of the output that the route answers with. -/
lemma payload?_eq_some (herror : "error" ∉ route.outputs) (hx : x ∈ route.answers)
    (h : Answers output x.2) : route.payload? output = some (output.filterKeys (· ∈ x.2)) := by
  rcases mem_answers_iff.1 hx with rfl | rfl
  · obtain ⟨hnone, hall⟩ := (answers_iff_of_notMem herror).1 h
    rw [payload?, hnone]
    exact if_pos hall
  · obtain ⟨v, hv⟩ := KeyMap.contains_iff.1 (answers_error_iff.1 h)
    rw [payload?, hv]
    refine congrArg some (KeyMap.ext_get? fun key => ?_)
    rw [KeyMap.get?_filterKeys_mem, KeyMap.singleton, KeyMap.get?_insert]
    simp only [List.mem_singleton]
    split
    · rename_i heq
      rw [heq, hv]
    · rfl

/-- If no rule answers, the route has no answer. -/
lemma payload?_eq_none (herror : "error" ∉ route.outputs)
    (h : ∀ x ∈ route.answers, ¬ Answers output x.2) : route.payload? output = none := by
  have hresponse := h _ (mem_answers_iff.2 (Or.inl rfl))
  have hfails := h _ (mem_answers_iff.2 (Or.inr rfl))
  have hnone : output.get? "error" = none := by
    cases hget : output.get? "error" with
    | none => rfl
    | some v => exact absurd (answers_error_iff.2 (KeyMap.contains_iff.2 ⟨v, hget⟩)) hfails
  rw [payload?, hnone]
  exact if_neg fun hall => hresponse ((answers_iff_of_notMem herror).2 ⟨hnone, hall⟩)

/-- An output is answered by at most one rule of a route. -/
lemma eq_of_answers (herror : "error" ∉ route.outputs) {y : String × List String}
    (hx : x ∈ route.answers) (hy : y ∈ route.answers) (hanswers : Answers output x.2)
    (hanswers' : Answers output y.2) : x = y := by
  rcases mem_answers_iff.1 hx with rfl | rfl <;> rcases mem_answers_iff.1 hy with rfl | rfl
  · rfl
  · exact absurd (hanswers.error (answers_error_iff.1 hanswers')) herror
  · exact absurd (hanswers'.error (answers_error_iff.1 hanswers)) herror
  · rfl

/-- The request's identifier is not among the fields that go back. -/
lemma Compatible.notMem_of_mem_answers {declared : ActionRef → Bool} {routes : List Route}
    (h : Compatible declared routes) (hroute : route ∈ routes) (hx : x ∈ route.answers) :
    Requesting.requestField ∉ x.2 := by
  rcases mem_answers_iff.1 hx with rfl | rfl
  · exact h.request route hroute
  · simp [Requesting.requestField]

end Answers

end Route

end Synchrony
