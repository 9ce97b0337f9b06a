import Synchrony.Proofs.Application.Answering

/-!
# The notification of a new list

After a request for a new list, the rule for notifications is completed exactly if the request names
an owner and the list was created (`Application.bound_of_completion`,
`Application.isSome_completion_notifyOwnerRule`). What is sent then has
the owner as its recipient, whatever the owner is, and names the list
(`Application.Settles.notice`).
-/

namespace Synchrony.Application

/-- The route to new lists. -/
def newListRoute : Route := ⟨listAction "newList", ["listName"], ["list"]⟩

lemma newListRoute_mem_routes : newListRoute ∈ routes := List.mem_cons_self

/-! ### The rule -/

/-- A request for a new list that names an owner. -/
def ownerPattern : Pattern where
  action := Requesting.requestAction
  input := KeyMap.ofList
    [("path", .lit (.str (listAction "newList").path)), ("owner", .var "owner")]
  output := .empty

/-- The creation of a list. -/
def listPattern : Pattern where
  action := listAction "newList"
  input := KeyMap.singleton "listName" (.var "listName")
  output := KeyMap.singleton "list" (.var "list")

lemma conditions_notifyOwnerRule : notifyOwnerRule.conditions = [ownerPattern, listPattern] := rfl

/-- The request names an owner, and the call created a list of a name. -/
structure Concerns (root call : Record) (owner name list : Value) : Prop where
  owner : root.input.get? "owner" = some owner
  name : call.input.get? "listName" = some name
  list : call.output.get? "list" = some list
  error : call.isError = false

section

variable {root call : Record} {request : String} {owner name list : Value} {b : Binding} {m : Match}

lemma entries_ownerPattern : ownerPattern.input.entries =
    [("owner", .var "owner"), ("path", .lit (.str (listAction "newList").path))] := rfl

lemma found_ownerPattern (howner : root.input.get? "owner" = some owner)
    (hpath : root.input.get? "path" = some (.str newListRoute.action.path)) :
    ownerPattern.found root = [("owner", owner)] := by
  have houtput : Shape.foundIn root.output ownerPattern.output.entries = [] := rfl
  rw [Pattern.found, houtput, entries_ownerPattern, Shape.foundIn_cons _ _ howner,
    Shape.foundIn_cons _ _ hpath]
  rfl

lemma found_listPattern (h : Concerns root call owner name list) :
    listPattern.found call = [("listName", name), ("list", list)] := by
  have hinput : listPattern.input.entries = [("listName", .var "listName")] := rfl
  have houtput : listPattern.output.entries = [("list", .var "list")] := rfl
  rw [Pattern.found, hinput, houtput, Shape.foundIn_cons _ _ h.name, Shape.foundIn_cons _ _ h.list]
  rfl

/-- The values that the variables of the rule meet. -/
lemma foundBy_notifyOwnerRule (h : Concerns root call owner name list)
    (hpath : root.input.get? "path" = some (.str newListRoute.action.path)) :
    foundBy notifyOwnerRule.conditions [root, call] =
      [("owner", owner), ("listName", name), ("list", list)] := by
  rw [conditions_notifyOwnerRule, foundBy]
  simp [found_ownerPattern h.owner hpath, found_listPattern h]

lemma exists_concerns (hroot : ownerPattern.Holds root b) (hcall : listPattern.Holds call b) :
    ∃ owner name list, Concerns root call owner name list := by
  obtain ⟨owner, howner, -⟩ := hroot.input "owner" (.var "owner") rfl
  obtain ⟨name, hname, -⟩ := hcall.input "listName" (.var "listName") rfl
  obtain ⟨list, hlist, -⟩ := hcall.output "list" (.var "list") rfl
  refine ⟨owner, name, list, howner, hname, hlist, ?_⟩
  rw [Bool.eq_false_iff]
  exact fun herror => absurd (hcall.error herror) (by decide)

/-- What is bound when the rule is completed. -/
lemma bound_of_completion (h : newListRoute.Follows root call request)
    (hm : notifyOwnerRule.completion [root, call] call = some m) :
    ∃ owner name list, Concerns root call owner name list ∧ m.binding.get? "owner" = some owner ∧
      m.binding.get? "listName" = some name ∧ m.binding.get? "list" = some list := by
  obtain ⟨chosen, hcompletes, -⟩ := Rule.completion_sound (by simp) hm
  obtain rfl := hcompletes.chosen_eq_pair conditions_notifyOwnerRule fun heq => h.action_ne heq.symm
  obtain ⟨hroot, hrest⟩ := List.forall₂_cons.1 hcompletes.holds
  obtain ⟨hcall, -⟩ := List.forall₂_cons.1 hrest
  obtain ⟨owner, name, list, hconcerns⟩ := exists_concerns hroot hcall
  have hvalues := hcompletes.values
  rw [foundBy_notifyOwnerRule hconcerns h.path] at hvalues
  exact ⟨owner, name, list, hconcerns, hvalues _, hvalues _, hvalues _⟩

/-- A request that names an owner and the creation of a list complete the rule. -/
lemma isSome_completion_notifyOwnerRule (h : newListRoute.Follows root call request)
    (hconcerns : Concerns root call owner name list) :
    (notifyOwnerRule.completion [root, call] call).isSome = true := by
  apply (Rule.completion_isSome_iff_of_sorted h.sorted).2
  apply (Rule.exists_completes_iff fun _ _ _ => rfl).2
  let b : Binding := KeyMap.ofList [("owner", owner), ("listName", name), ("list", list)]
  have hownerVar : (Term.var "owner").Holds b owner :=
    ⟨owner, by simp [b, KeyMap.ofList, KeyMap.get?_insert], Value.same_refl _⟩
  have hnameVar : (Term.var "listName").Holds b name :=
    ⟨name, by simp [b, KeyMap.ofList, KeyMap.get?_insert], Value.same_refl _⟩
  have hlistVar : (Term.var "list").Holds b list :=
    ⟨list, by simp [b, KeyMap.ofList], Value.same_refl _⟩
  have hroot : ownerPattern.Holds root b := by
    refine ⟨h.requests.action.symm, ?_, Shape.holdIn_entries_iff.1 ?_, Route.holds_empty _ b⟩
    · simp [h.requests.isError]
    · refine List.forall_mem_cons.2 ⟨⟨owner, hconcerns.owner, hownerVar⟩, ?_⟩
      exact List.forall_mem_singleton.2 ⟨_, h.path, Value.same_refl _⟩
  have hcall : listPattern.Holds call b := by
    refine ⟨h.action.symm, ?_, Shape.holdIn_entries_iff.1 ?_, Shape.holdIn_entries_iff.1 ?_⟩
    · simp [hconcerns.error]
    · exact List.forall_mem_singleton.2 ⟨name, hconcerns.name, hnameVar⟩
    · exact List.forall_mem_singleton.2 ⟨list, hconcerns.list, hlistVar⟩
  refine ⟨[root, call], b, .cons hroot (.cons hcall .nil), fun x => ?_, ?_, by simp, by simp, rfl⟩
  · exact KeyMap.contains_ofList_iff
  · simpa using h.later.ne

/-- What a notification of a new list is sent with. -/
def noticeArgs (owner name list : Value) : Fields :=
  KeyMap.ofList
    [("recipient", owner), ("topic", .str "list_created"), ("list", list), ("listName", name)]

lemma input_of_sends {notice : Record} {depth : UInt32} {chain : List (List Char)}
    (howner : b.get? "owner" = some owner) (hname : b.get? "listName" = some name)
    (hlist : b.get? "list" = some list)
    (hsends : List.Forall₂ Sends (consequencesOf notifyOwnerRule b depth chain) [notice]) :
    notice.input = noticeArgs owner name list := by
  obtain ⟨hsends, -⟩ := List.forall₂_cons.1 hsends
  have htopic : ((Term.lit (.str "list_created")).value? b).toOption = some (.str "list_created") := rfl
  refine KeyMap.ext_get? fun key => ?_
  rw [Shape.get?_of_resolve hsends.input key, noticeArgs]
  simp only [KeyMap.ofList, List.foldl_cons, List.foldl_nil, KeyMap.get?_insert]
  split_ifs
  all_goals simp [Term.toOption_value?_var, howner, hname, hlist, htopic]

end

/-- A notification is sent if the request names an owner and the list was created, and none
otherwise. -/
theorem Settles.notice {root call response : Record} {request : String} {more : List Record}
    {report : Report} (h : Settles newListRoute root request call response more report) :
    (∃ owner name list notice, Concerns root call owner name list ∧ more = [notice] ∧
        notice.action = noticeAction "notify" ∧ notice.input = noticeArgs owner name list) ∨
      (∀ owner name list, ¬ Concerns root call owner name list) ∧ more = [] := by
  obtain ⟨chain, hsends⟩ := h.notices
  rw [noticesAfter] at hsends
  cases hm : notifyOwnerRule.completion [root, call] call with
  | none =>
    rw [hm] at hsends
    refine .inr ⟨fun owner name list hconcerns => ?_, List.forall₂_nil_left_iff.1 hsends⟩
    have hsome := isSome_completion_notifyOwnerRule h.follows hconcerns
    rw [hm] at hsome
    cases hsome
  | some m =>
    rw [hm, Option.toList_some, List.flatMap_singleton] at hsends
    obtain ⟨owner, name, list, hconcerns, howner, hname, hlist⟩ := bound_of_completion h.follows hm
    obtain ⟨notice, rfl⟩ : ∃ notice, more = [notice] := List.length_eq_one_iff.1 hsends.length_eq.symm
    exact .inl ⟨owner, name, list, notice, hconcerns, rfl, (List.forall₂_cons.1 hsends).1.action,
      input_of_sends howner hname hlist hsends⟩

end Synchrony.Application
