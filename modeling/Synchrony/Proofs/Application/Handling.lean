import Synchrony.Proofs.Application.Notice
import Synchrony.Proofs.Application.Reached
import Synchrony.Proofs.ListCreation.Creation

/-!
# How a request is handled

In every state that the application reaches, a request that was made and not handled is ignored, or
it is settled by the route that takes it; in both cases the stores have afterwards what the calls of
the burst make of them (`Application.Stands.handles`). A request for a new list that is settled
calls for a list with the name of the request, and with nothing else from it
(`Application.Handles.exists_newList`).
-/

namespace Synchrony.Application

/-- What a burst with this report makes of a request, and of the resources. -/
inductive Handles (store : String) (r : Resources) (root : Record) (request : String)
    (report : Report) :
    Resources → Prop where
  | ignored (hnone : ∀ route ∈ routes, ¬ route.Takes root.input) (hrecords : report.records = [root]) :
      Handles store r root request report r
  | settled {route : Route} {call response : Record} {more : List Record} {r' : Resources}
      (hroute : route ∈ routes) (htakes : route.Takes root.input)
      (hsettles : Settles route root request call response more report)
      (hdelivers : Delivers r r' request response)
      (hreplays : Replays (registry store) r (call :: response :: more) r') :
      Handles store r root request report r'

variable {store : String} {s : State} {b : Burst}

/-- A request that was made in a state that is in order is handled. -/
theorem Stands.handles (h : Stands store s) (hb : b ∈ s.opened)
    (haction : b.root.action = Requesting.requestAction) :
    ∃ report w request, s.world.startBurst b = (.over report, w) ∧ b.root.Requests request ∧
      InOrder store w.resources ∧ Handles store s.world.resources b.root request report w.resources := by
  have hwaits := h.opened b hb
  obtain ⟨request, hrequests⟩ := hwaits.requests haction
  by_cases htaken : ∃ route ∈ routes, route.Takes b.root.input
  · obtain ⟨route, hroute, htakes⟩ := htaken
    obtain ⟨report, w, hstart, call, response, more, hsettles, hdelivers⟩ :=
      h.runs.settles_of_takes (r := s.world.resources) hroute hrequests hwaits.depth htakes
        hwaits.keeps_id hwaits.burst_eq hwaits.queue hwaits.appended
    obtain ⟨rest, hrecords, hreplays⟩ := (World.leaves_of_startBurst hstart).replays
    rw [h.runs.registry] at hreplays
    rw [hwaits.keeps_id.records, hsettles.records] at hrecords
    obtain rfl : call :: response :: more = rest := (List.cons.inj hrecords).2
    exact ⟨report, w, request, hstart, hrequests, h.resources.replays hreplays,
      .settled hroute htakes hsettles hdelivers hreplays⟩
  · have hnone : ∀ route ∈ routes, ¬ route.Takes b.root.input := fun route hroute htakes =>
      htaken ⟨route, hroute, htakes⟩
    obtain ⟨report, w, hstart, -, hrecords⟩ :=
      h.runs.concludes_of_not_takes (r := s.world.resources) hwaits.depth hnone hwaits.keeps_id
        hwaits.burst_eq hwaits.queue
    obtain ⟨rest, hrest, hreplays⟩ := (World.leaves_of_startBurst hstart).replays
    rw [h.runs.registry] at hreplays
    rw [hwaits.keeps_id.records, hrecords] at hrest
    obtain rfl : rest = [] := List.append_right_eq_self.1 hrest.symm
    refine ⟨report, w, request, hstart, hrequests, h.resources.replays hreplays, ?_⟩
    rw [hreplays.eq_of_nil]
    exact .ignored hnone hrecords

/-! ### Requests for new lists -/

section

variable {r r' : Resources} {root call response : Record} {request : String}
  {more rest : List Record}
  {report : Report}

/-- The path of new lists is that of no other route. -/
lemma eq_newListRoute_of_path {route : Route} (hroute : route ∈ routes)
    (hpath : route.action.path = newListRoute.action.path) : route = newListRoute := by
  have hnodup : (routes.map (·.action.path)).Nodup := by decide
  exact List.inj_on_of_nodup_map hnodup hroute newListRoute_mem_routes hpath

lemma takes_newListRoute_iff
    (hpath : root.input.get? "path" = some (.str newListRoute.action.path)) :
    newListRoute.Takes root.input ↔ root.input.contains "listName" = true := by
  constructor
  · intro htakes
    exact htakes.inputs "listName" (List.mem_singleton_self _)
  · intro hname
    exact ⟨hpath, List.forall_mem_singleton.2 hname⟩

/-- What a call for a new list does. -/
lemma exists_run_of_newList (haction : call.action = listAction "newList")
    (h : Replays (registry store) r (call :: rest) r') :
    ∃ result r₁, (ListCreation.newList store call.input).run r = (.finished result, r₁) ∧
      call.output = outputOf result ∧ Replays (registry store) r₁.readClock.2 rest r' := by
  cases h with
  | cons hhandle hrun houtput hrest =>
    rw [haction, lookup?_listAction rfl] at hhandle
    cases hhandle
    rw [haction] at hrun
    exact ⟨_, _, hrun, houtput, hrest⟩

namespace Handles

/-- A request for a new list without a name is ignored. -/
lemma eq_of_nameless (h : Handles store r root request report r')
    (hpath : root.input.get? "path" = some (.str newListRoute.action.path))
    (hname : root.input.contains "listName" = false) : report.records = [root] ∧ r' = r := by
  cases h with
  | ignored hnone hrecords => exact ⟨hrecords, rfl⟩
  | settled hroute htakes =>
    have heq : Value.str _ = .str _ := Option.some.inj (htakes.path.symm.trans hpath)
    obtain rfl := eq_newListRoute_of_path hroute (Value.str.inj heq)
    rw [(takes_newListRoute_iff hpath).1 htakes] at hname
    cases hname

/-- A request for a new list with a name is settled, and calls for a list of that name. -/
lemma exists_newList (h : Handles store r root request report r')
    (hpath : root.input.get? "path" = some (.str newListRoute.action.path)) {name : Value}
    (hname : root.input.get? "listName" = some name) :
    ∃ call response more, Settles newListRoute root request call response more report ∧
      Delivers r r' request response ∧
      call.input = KeyMap.singleton "listName" name ∧
      Replays (registry store) r (call :: response :: more) r' := by
  cases h with
  | ignored hnone =>
    refine absurd ?_ (hnone newListRoute newListRoute_mem_routes)
    exact (takes_newListRoute_iff hpath).2 (KeyMap.contains_iff.2 ⟨name, hname⟩)
  | @settled route call response more _ hroute htakes hsettles hdelivers hreplays =>
    have heq : Value.str _ = .str _ := Option.some.inj (htakes.path.symm.trans hpath)
    obtain rfl := eq_newListRoute_of_path hroute (Value.str.inj heq)
    refine ⟨call, response, more, hsettles, hdelivers, ?_, hreplays⟩
    refine hsettles.input.trans (KeyMap.ext_get? fun key => ?_)
    rw [KeyMap.get?_filterKeys_mem, KeyMap.singleton, KeyMap.get?_insert]
    simp only [newListRoute, List.mem_singleton]
    split
    · rename_i hkey
      rw [hkey, hname]
    · rfl

end Handles

/-- What goes back for a call for a new list names the list, if one was created. -/
lemma Settles.get?_response (h : Settles newListRoute root request call response more report) :
    response.input.get? "list" =
      if call.output.contains "error" = true then none else call.output.get? "list" := by
  obtain ⟨payload, hpayload, hresponds⟩ := h.responds
  have hget : response.input.get? "list" = payload.get? "list" := by
    rw [← hresponds.payload, Requesting.payloadOf, KeyMap.get?_erase, if_neg (by decide)]
  rw [hget]
  rw [Route.payload?] at hpayload
  split at hpayload
  · rename_i v herror
    cases hpayload
    rw [if_pos (KeyMap.contains_iff.2 ⟨v, herror⟩)]
    rfl
  · rename_i herror
    split_ifs at hpayload
    cases hpayload
    rw [if_neg (by simp [KeyMap.contains, herror]), KeyMap.get?_filterKeys_mem]
    rfl

end

end Synchrony.Application
