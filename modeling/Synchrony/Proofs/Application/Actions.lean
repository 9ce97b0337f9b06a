import Synchrony.Application
import Synchrony.Proofs.Route.Completion
import Synchrony.Proofs.Work.Steps

/-!
# What the actions of the application come to

The work of the lists and of the notifications ends: a routed action comes to an output that its
route answers (`Application.exists_output`), and a notification to some output.
-/

namespace Synchrony

/-! ### Outputs that are answered -/

namespace Route

/-- One of the rules of the route answers the output. -/
def Answerable (route : Route) (output : Fields) : Prop :=
  ∃ x ∈ route.answers, Answers output x.2

variable {route : Route}

lemma answerable_of_error {output : Fields} (h : output.contains "error" = true) :
    route.Answerable output :=
  ⟨_, mem_answers_iff.2 (Or.inr rfl), answers_error_iff.2 h⟩

lemma answerable_of_outputs {output : Fields} (herror : output.contains "error" = false)
    (h : ∀ name ∈ route.outputs, output.contains name = true) : route.Answerable output := by
  refine ⟨_, mem_answers_iff.2 (Or.inl rfl), fun hcontains => ?_, h⟩
  rw [herror] at hcontains
  cases hcontains

/-- The result is recorded as an output that the route answers. -/
def Settles (route : Route) (result : Except ConceptError Fields) : Prop :=
  route.Answerable (outputOf result)

lemma settles_error (e : ConceptError) : route.Settles (.error e) := answerable_of_error rfl

lemma ends_errorOutput (message : String) : (Work.succeed (errorOutput message)).Ends route.Settles :=
  .done (answerable_of_error rfl)

end Route

/-! ### Lists -/

namespace ListCreation

open Application (listAction)

variable (store : String) (input : Fields)

lemma ends_newList :
    (newList store input).Ends (Route.mk (listAction "newList") ["listName"] ["list"]).Settles := by
  refine .given Route.settles_error fun listName => .given Route.settles_error fun owner =>
    .onStore Route.settles_error fun existing => ?_
  match (existing : Option Fields) with
  | some _ => exact Route.ends_errorOutput _
  | none =>
    exact .clock fun created => .onStore Route.settles_error fun id =>
      .done (Route.answerable_of_outputs rfl (List.forall_mem_singleton.2 rfl))

lemma ends_deleteList :
    (deleteList store input).Ends (Route.mk (listAction "deleteList") ["list"] ["list"]).Settles := by
  refine .given Route.settles_error fun list => .onStore Route.settles_error fun deleted => ?_
  match (deleted : Bool) with
  | true => exact .done (Route.answerable_of_outputs rfl (List.forall_mem_singleton.2 rfl))
  | false => exact Route.ends_errorOutput _

/-- Lists are changed for routes that return the list and the item. -/
lemma ends_storeItems {route : Route} (houtputs : route.outputs = ["list", "item"])
    (list item : String) (items : List Value) :
    (storeItems store list item items).Ends route.Settles := by
  refine .onStore Route.settles_error fun _ => .done (Route.answerable_of_outputs rfl ?_)
  rw [houtputs]
  exact List.forall_mem_cons.2 ⟨rfl, List.forall_mem_singleton.2 rfl⟩

lemma ends_addItem : (addItem store input).Ends
    (Route.mk (listAction "addItem") ["list", "item"] ["list", "item"]).Settles := by
  refine .given Route.settles_error fun list => .given Route.settles_error fun item =>
    .onStore Route.settles_error fun found => ?_
  match (found : Option Fields) with
  | none => exact Route.ends_errorOutput _
  | some doc =>
    dsimp only
    split
    · exact Route.ends_errorOutput _
    · exact ends_storeItems store rfl ..

lemma ends_removeItem : (removeItem store input).Ends
    (Route.mk (listAction "removeItem") ["list", "item"] ["list", "item"]).Settles := by
  refine .given Route.settles_error fun list => .given Route.settles_error fun item =>
    .onStore Route.settles_error fun found => ?_
  match (found : Option Fields) with
  | none => exact Route.ends_errorOutput _
  | some doc =>
    dsimp only
    split
    · exact ends_storeItems store rfl ..
    · exact Route.ends_errorOutput _

lemma ends_getLists :
    (getLists store input).Ends (Route.mk (listAction "_getLists") [] ["lists"]).Settles :=
  .given Route.settles_error fun _ => .onStore Route.settles_error fun _ =>
    .done (Route.answerable_of_outputs rfl (List.forall_mem_singleton.2 rfl))

lemma ends_getList : (getList store input).Ends
    (Route.mk (listAction "_getList") ["list"] ["list", "listName", "items"]).Settles := by
  refine .given Route.settles_error fun list => .onStore Route.settles_error fun found => ?_
  match (found : Option Fields) with
  | none => exact Route.ends_errorOutput _
  | some doc =>
    refine .done (Route.answerable_of_outputs ?_ fun name hname => ?_)
    · rw [Bool.eq_false_iff]
      intro hcontains
      exact absurd (KeyMap.contains_ofList_iff.1 hcontains) (by simp)
    · apply KeyMap.contains_ofList_iff.2
      revert name
      simp

end ListCreation

/-! ### Notifications -/

namespace Notifying

open Application (noticeAction)

variable (store : String) (input : Fields)

lemma ends_notify : (notify store input).Ends fun _ => True :=
  .given (fun _ => trivial) fun _ => .given (fun _ => trivial) fun _ => .clock fun _ =>
    .onStore (fun _ => trivial) fun _ => .done trivial

lemma ends_markRead : (markRead store input).Ends
    (Route.mk (noticeAction "markRead") ["notification"] ["notification"]).Settles := by
  refine .given Route.settles_error fun id => .onStore Route.settles_error fun found => ?_
  match (found : Option Fields) with
  | none => exact Route.ends_errorOutput _
  | some _ =>
    exact .onStore Route.settles_error fun _ =>
      .done (Route.answerable_of_outputs rfl (List.forall_mem_singleton.2 rfl))

lemma ends_getNotifications : (getNotifications store input).Ends
    (Route.mk (noticeAction "_getNotifications") ["recipient"] ["notifications"]).Settles :=
  .given Route.settles_error fun _ => .onStore Route.settles_error fun _ =>
    .done (Route.answerable_of_outputs rfl (List.forall_mem_singleton.2 rfl))

end Notifying

/-! ### Routed actions -/

namespace Application

/-- The concepts of the application, registered. -/
def registry (store : String) : Registry Concept where
  concepts :=
    ((KeyMap.empty.insert Requesting.conceptName ⟨Requesting.interface, Requesting.concept⟩).insert
      ListCreation.conceptName ⟨ListCreation.interface, ListCreation.concept store⟩).insert
      Notifying.conceptName ⟨Notifying.interface, Notifying.concept store⟩

/-- The routes of the application. -/
def routes : List Route := listRoutes ++ noticeRoutes

variable {store name : String} {spec : ActionSpec} {route : Route}

lemma lookup?_listAction (h : ListCreation.interface.reverse.find? (·.name = name) = some spec) :
    (registry store).lookup? (listAction name) =
      some ⟨listAction name, spec, ListCreation.concept store⟩ := by
  have hget : (registry store).concepts.get? ListCreation.conceptName =
      some ⟨ListCreation.interface, ListCreation.concept store⟩ := by
    rw [registry, KeyMap.get?_insert_of_ne _ _ (by decide), KeyMap.get?_insert_self]
  rw [Registry.lookup?_eq, listAction, hget, Option.bind_some, h]
  rfl

lemma lookup?_noticeAction (h : Notifying.interface.reverse.find? (·.name = name) = some spec) :
    (registry store).lookup? (noticeAction name) =
      some ⟨noticeAction name, spec, Notifying.concept store⟩ := by
  rw [Registry.lookup?_eq, noticeAction, registry, KeyMap.get?_insert_self, Option.bind_some, h]
  rfl

/-- The work of a route's action ends in an output that the route answers. -/
theorem exists_ends (store : String) (hroute : route ∈ routes) : ∃ spec performer,
    (registry store).lookup? route.action = some ⟨route.action, spec, performer⟩ ∧
      ∀ input, (performer.perform route.action.action input).Ends route.Settles := by
  simp only [routes, listRoutes, noticeRoutes, List.cons_append, List.nil_append, List.mem_cons,
    List.not_mem_nil, or_false] at hroute
  rcases hroute with rfl | rfl | rfl | rfl | rfl | rfl | rfl | rfl
  · exact ⟨_, _, lookup?_listAction rfl, ListCreation.ends_newList store⟩
  · exact ⟨_, _, lookup?_listAction rfl, ListCreation.ends_deleteList store⟩
  · exact ⟨_, _, lookup?_listAction rfl, ListCreation.ends_addItem store⟩
  · exact ⟨_, _, lookup?_listAction rfl, ListCreation.ends_removeItem store⟩
  · exact ⟨_, _, lookup?_listAction rfl, ListCreation.ends_getLists store⟩
  · exact ⟨_, _, lookup?_listAction rfl, ListCreation.ends_getList store⟩
  · exact ⟨_, _, lookup?_noticeAction rfl, Notifying.ends_markRead store⟩
  · exact ⟨_, _, lookup?_noticeAction rfl, Notifying.ends_getNotifications store⟩

end Application

end Synchrony
