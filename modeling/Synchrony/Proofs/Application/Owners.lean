import Synchrony.Proofs.Application.Handling

/-!
# Lists of requests have no owner

An owner that a request for a new list names is told of the list, but does not get it: the route
passes on the name of the list only. So a list that answers a request is shown without an owner, and
no query for the lists of an owner finds it (`Application.lists_of_requests_unowned`).
-/

namespace Synchrony.Application

/-- The burst answered its request with a list of this identifier. -/
def Answered (report : Report) (list : String) : Prop :=
  ∃ response ∈ report.records, response.action = Requesting.respondAction ∧
    response.input.get? "list" = some (.str list)

/-- The list is shown without an owner, is among all lists, and is among the lists of no owner. -/
structure Unowned (store list : String) (r : Resources) : Prop where
  shown : ∃ output r', ((ListCreation.concept store).perform "_getList" (ListCreation.named list)).run r =
      (.finished (.ok output), r') ∧
    output.get? "list" = some (.str list) ∧ output.get? "owner" = some .null
  listed : ∃ output r', ((ListCreation.concept store).perform "_getLists" .empty).run r =
      (.finished (.ok output), r') ∧ ListCreation.Lists output list
  hidden : ∀ owner : String, ∃ output r', ((ListCreation.concept store).perform "_getLists"
      (KeyMap.singleton "owner" (.str owner))).run r = (.finished (.ok output), r') ∧
    ¬ ListCreation.Lists output list

section

variable {store request list : String} {r r' : Resources} {root call response : Record}
  {more records : List Record} {report : Report} {route : Route} {entries : List ListCreation.Entry}
  {e : ListCreation.Entry} {s : State} {b : Burst} {name : Value}

/-- Calls of other concepts leave the lists as they are. -/
lemma has_of_replays (h : ListCreation.Has store entries r)
    (hreplays : Replays (registry store) r records r')
    (hconcepts : ∀ record ∈ records, record.action.concept ≠ ListCreation.conceptName) :
    ListCreation.Has store entries r' := by
  refine hreplays.preserves (P := ListCreation.Has store entries) ?_ ?_ h
  · intro record hrecord handle result r₁ r₂ hhandle hrun hr
    have huses := uses_of_ne_listCreation hhandle (hconcepts record hrecord) record.input
    have hkept := hr.run_of_uses huses
    rwa [hrun] at hkept
  · exact fun r hr => hr.of_untouched ⟨rfl, fun _ => rfl⟩

lemma Settles.concept_ne (h : Settles route root request call response more report) :
    ∀ record ∈ response :: more, record.action.concept ≠ ListCreation.conceptName := by
  obtain ⟨payload, -, hresponds⟩ := h.responds
  refine List.forall_mem_cons.2 ⟨?_, fun record hrecord => ?_⟩
  · rw [hresponds.action]
    decide
  · rw [(h.forall_mem_more.2 record hrecord).1]
    decide

/-- The only response of a burst is the one to its request. -/
lemma Settles.eq_response (h : Settles route root request call response more report)
    (hroute : route ∈ routes) {record : Record} (hrecord : record ∈ report.records)
    (haction : record.action = Requesting.respondAction) : record = response := by
  rw [h.records, List.mem_append] at hrecord
  simp only [List.mem_cons, List.not_mem_nil, or_false] at hrecord
  rcases hrecord with (rfl | rfl | rfl) | hmore
  · rw [h.follows.requests.action] at haction
    exact absurd haction (by decide)
  · rw [h.follows.action] at haction
    exact absurd (congrArg ActionRef.concept haction) ((compatible_routes "").concept route hroute)
  · rfl
  · rw [(h.forall_mem_more.2 record hmore).1] at haction
    exact absurd haction (by decide)

/-- A list without an owner among lists that are in order. -/
lemma unowned_of_has (h : ListCreation.Has store entries r)
    (horderly : ListCreation.Orderly entries)
    (he : e ∈ entries) (howner : e.owner = none) : Unowned store e.id r := by
  refine ⟨?_, ?_, fun owner => ?_⟩
  · have hlist : Arguments.text (ListCreation.named e.id) "list" = .ok e.id := by
      simp [Arguments.text, ListCreation.named]
    obtain ⟨r', hrun, -⟩ := h.run_getList he hlist
    refine ⟨_, r', hrun, ListCreation.get?_view_list e, ?_⟩
    rw [ListCreation.get?_view_owner, howner]
    rfl
  · have hnone : Arguments.optionalText .empty "owner" = .ok none := rfl
    obtain ⟨sorted, r', hrun, hperm, -⟩ := h.run_getLists horderly.names hnone
    refine ⟨_, r', hrun, ListCreation.lists_listsOutput_iff.2 ⟨e, hperm.mem_iff.2 ?_, rfl⟩⟩
    exact List.mem_filter.2 ⟨he, rfl⟩
  · have hsome : Arguments.optionalText (KeyMap.singleton "owner" (.str owner)) "owner" =
        .ok (some owner) := by simp [Arguments.optionalText, Arguments.text, Except.map]
    obtain ⟨sorted, r', hrun, hperm, -⟩ := h.run_getLists horderly.names hsome
    refine ⟨_, r', hrun, fun hlists => ?_⟩
    obtain ⟨f, hf, hid⟩ := ListCreation.lists_listsOutput_iff.1 hlists
    obtain ⟨hf, hfilter⟩ := List.mem_filter.1 (hperm.mem_iff.1 hf)
    obtain rfl := List.inj_on_of_nodup_map h.nodup_id hf he hid
    simp [howner] at hfilter

/-! ### Lists that requests are answered with -/

/-- A request that is answered with a list created it without an owner. -/
lemma Handles.unowned (h : Handles store r root request report r') (hroot : root.Requests request)
    (hr : InOrder store r) (hpath : root.input.get? "path" = some (.str newListRoute.action.path))
    (hanswered : Answered report list) : Unowned store list r' := by
  obtain ⟨record, hrecord, haction, hlist⟩ := hanswered
  cases hname : root.input.get? "listName" with
  | none =>
    obtain ⟨hrecords, -⟩ := h.eq_of_nameless hpath (by rw [KeyMap.contains, hname]; rfl)
    rw [hrecords, List.mem_singleton] at hrecord
    rw [hrecord, hroot.action] at haction
    exact absurd haction (by decide)
  | some name =>
    obtain ⟨call, response, more, hsettles, -, hinput, hcalls⟩ := h.exists_newList hpath hname
    obtain ⟨result, r₁, hrun, houtput, hreplays⟩ := exists_run_of_newList hsettles.follows.action hcalls
    obtain rfl := hsettles.eq_response newListRoute_mem_routes hrecord haction
    rw [hsettles.get?_response, houtput] at hlist
    obtain ⟨entries, hhas, horderly⟩ := hr.lists.exists_entries
    rcases hhas.run_newList call.input with ⟨e, r₂, hrun', hcreates⟩ | ⟨result', r₂, hrun', herror, -⟩
    · rw [hrun] at hrun'
      cases hrun'
      have howner : e.owner = none := by
        have howner := hcreates.owner
        rw [hinput] at howner
        exact (Except.ok.inj howner).symm
      rw [outputOf, if_neg (by simp [ListCreation.Call.contains_error_named])] at hlist
      have hid : e.id = list := by simpa [ListCreation.named] using hlist
      have hhas' : ListCreation.Has store (entries ++ [e]) r₁.readClock.2 :=
        hcreates.has.of_untouched ⟨rfl, fun _ => rfl⟩
      rw [← hid]
      have hhas'' := has_of_replays hhas' hreplays hsettles.concept_ne
      exact unowned_of_has hhas'' (hcreates.orderly horderly) (List.mem_append_right _ (List.mem_singleton_self e)) howner
    · rw [hrun] at hrun'
      cases hrun'
      rw [if_pos herror] at hlist
      cases hlist

/-- A request with a new name is answered with a list. -/
lemma Handles.exists_answered (h : Handles store r root request report r')
    (hhas : ListCreation.Has store entries r)
    (hpath : root.input.get? "path" = some (.str newListRoute.action.path)) {text : String}
    (hname : root.input.get? "listName" = some (.str text)) (htext : Text.trim text ≠ "")
    (hnew : ∀ e ∈ entries, e.name ≠ Text.trim text) : ∃ list, Answered report list := by
  obtain ⟨call, response, more, hsettles, -, hinput, hcalls⟩ := h.exists_newList hpath hname
  obtain ⟨result, r₁, hrun, houtput, -⟩ := exists_run_of_newList hsettles.follows.action hcalls
  have hname' : Arguments.name call.input "listName" = .ok (Text.trim text) := by
    simp [hinput, Arguments.name, Arguments.text, htext]
  have howner : Arguments.optionalText call.input "owner" = .ok none := by
    rw [hinput]
    rfl
  rcases hhas.run_newList_of_ok hname' howner with ⟨e, r₂, hrun', -⟩ | ⟨_, -, ⟨e, he, heq⟩, -⟩
  · rw [hrun] at hrun'
    cases hrun'
    obtain ⟨payload, -, hresponds⟩ := hsettles.responds
    refine ⟨e.id, response, ?_, hresponds.action, ?_⟩
    · rw [hsettles.records]
      simp
    · rw [hsettles.get?_response, houtput]
      rfl
  · exact absurd heq (hnew e he)

end

/--
In every state that the application reaches, a request for a new list is handled, and the list that
it is answered with has no owner, whatever owner the request names: it is shown without one, and a
query for the lists of any owner does not find it.
-/
theorem lists_of_requests_unowned {c : EngineConfig} (hdepth : 2 ≤ c.maxDepth)
    (hactions : 4 ≤ c.maxActions)
    {store : String} {s₀ s : State} {b : Burst} (hassembled : Assembled c store s₀)
    (hreaches : Reaches c store s₀ s) (hb : b ∈ s.opened)
    (haction : b.root.action = Requesting.requestAction)
    (hpath : b.root.input.get? "path" = some (.str "/ListCreation/newList")) :
    ∃ report w, s.world.startBurst b = (.over report, w) ∧
      ∀ list, Answered report list → Unowned store list w.resources := by
  have hstands := hassembled.stands_of_reaches hdepth hactions hreaches
  obtain ⟨report, w, request, hstart, hroot, -, hhandles⟩ := hstands.handles hb haction
  exact ⟨report, w, hstart, fun list => hhandles.unowned hroot hstands.resources hpath⟩

/-! ### A list for a trip -/

namespace Trip

/-- A request for a new list that names an owner. -/
def input : Fields := KeyMap.ofList [
  ("path", .str "/ListCreation/newList"), ("listName", .str "Trip"), ("owner", .str "ann")]

/-- The request is answered with a list, and the list has no owner. -/
lemma exists_unowned : ∃ s₀ s b report w list, Assembled {} "memory" s₀ ∧ Reaches {} "memory" s₀ s ∧
    b ∈ s.opened ∧ b.root.action = Requesting.requestAction ∧ b.root.input = input ∧
    s.world.startBurst b = (.over report, w) ∧ Answered report list ∧
    Unowned "memory" list w.resources := by
  obtain ⟨s₀, s, b, hassembled, hreaches, hb, haction, hinput, hhas⟩ :=
    exists_reaches_request (c := {}) (by decide) (by decide) "memory" input
  have hstands := hassembled.stands_of_reaches (by decide) (by decide) hreaches
  obtain ⟨report, w, request, hstart, hroot, -, hhandles⟩ := hstands.handles hb haction
  have hpath : b.root.input.get? "path" = some (.str newListRoute.action.path) := hinput ▸ rfl
  have hname : b.root.input.get? "listName" = some (.str "Trip") := hinput ▸ rfl
  obtain ⟨list, hanswered⟩ := hhandles.exists_answered hhas hpath hname (by decide) (by simp)
  exact ⟨s₀, s, b, report, w, list, hassembled, hreaches, hb, haction, hinput, hstart, hanswered,
    hhandles.unowned hroot hstands.resources hpath hanswered⟩

end Trip

open Trip in
theorem lists_of_requests_unowned_trip :
    (2 : UInt32) ≤ ({} : EngineConfig).maxDepth ∧ (4 : UInt64) ≤ ({} : EngineConfig).maxActions ∧
      ∃ s₀ s b report w list, Assembled {} "memory" s₀ ∧ Reaches {} "memory" s₀ s ∧ b ∈ s.opened ∧
        b.root.input = input ∧ s.world.startBurst b = (.over report, w) ∧ Answered report list ∧
        Unowned "memory" list w.resources := by
  obtain ⟨s₀, s, b, report, w, list, hassembled, hreaches, hb, haction, hinput, hstart, hanswered, -⟩ :=
    exists_unowned
  obtain ⟨report', w', hstart', hunowned⟩ := lists_of_requests_unowned (by decide) (by decide) hassembled
    hreaches hb haction (hinput ▸ rfl)
  obtain ⟨⟨rfl⟩, rfl⟩ := Prod.mk.inj (hstart.symm.trans hstart')
  exact ⟨by decide, by decide, s₀, s, b, report, w, list, hassembled, hreaches, hb, hinput, hstart,
    hanswered, hunowned list hanswered⟩

open Trip in
/-- The list that a request with an owner is answered with is not shown with that owner. -/
theorem not_forall_lists_of_requests_owned :
    ¬ ∀ (c : EngineConfig) (store name owner : String) (s₀ s : State) (b : Burst) (report : Report)
        (w : World) (list : String),
      2 ≤ c.maxDepth → 4 ≤ c.maxActions → Assembled c store s₀ → Reaches c store s₀ s → b ∈ s.opened →
        b.root.action = Requesting.requestAction →
        b.root.input.get? "path" = some (.str "/ListCreation/newList") →
        b.root.input.get? "listName" = some (.str name) → b.root.input.get? "owner" = some (.str owner) →
        s.world.startBurst b = (.over report, w) → Answered report list →
        (∃ output r', ((ListCreation.concept store).perform "_getList" (ListCreation.named list)).run
            w.resources = (.finished (.ok output), r') ∧ output.get? "owner" = some (.str owner)) ∧
          ∀ (o : String) (output : Fields) (r' : Resources),
            ((ListCreation.concept store).perform "_getLists" (KeyMap.singleton "owner" (.str o))).run
              w.resources = (.finished (.ok output), r') →
            (ListCreation.Lists output list ↔ o = owner) := by
  intro h
  obtain ⟨s₀, s, b, report, w, list, hassembled, hreaches, hb, haction, hinput, hstart, hanswered,
    ⟨output, _, hrun, -, hnull⟩, -⟩ := exists_unowned
  obtain ⟨⟨output', _, hrun', howner⟩, -⟩ := h {} "memory" "Trip" "ann" s₀ s b report w list (by decide)
    (by decide) hassembled hreaches hb haction (hinput ▸ rfl) (hinput ▸ rfl) (hinput ▸ rfl) hstart
    hanswered
  rw [hrun] at hrun'
  cases hrun'
  rw [hnull] at howner
  cases howner

end Synchrony.Application
