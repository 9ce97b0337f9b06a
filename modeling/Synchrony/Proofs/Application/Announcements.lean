import Synchrony.Proofs.Application.Handling
import Synchrony.Proofs.Notifying.Sending

/-!
# Owners are told of new lists

A request for a new list that names an owner, and for which the list is created, leads to exactly
one notification, which the owner gets after the response. No other request leads to a notification
(`Application.owner_told_of_new_list`).
-/

namespace Synchrony.Application

open ListCreation (newList named)
open Notifying (notifications)

/-- The request makes a list come into being, and names an owner who can be told. -/
structure CreatesFor (store : String) (r : Resources) (input : Fields) (list owner : String) :
    Prop where
  path : input.get? "path" = some (.str "/ListCreation/newList")
  creates : ∃ name r', input.get? "listName" = some name ∧
    (newList store (KeyMap.singleton "listName" name)).run r = (.finished (.ok (named list)), r')
  names : input.get? "owner" = some (.str owner)
  shown : Text.trim owner ≠ ""

/-- There is only one such list, and only one owner. -/
lemma CreatesFor.unique {store : String} {r : Resources} {input : Fields}
    {list list' owner owner' : String}
    (h : CreatesFor store r input list owner) (h' : CreatesFor store r input list' owner') :
    list = list' ∧ owner = owner' := by
  obtain ⟨-, ⟨name, r₁, hname, hrun⟩, howner, -⟩ := h
  obtain ⟨-, ⟨name', r₂, hname', hrun'⟩, howner', -⟩ := h'
  obtain rfl := Option.some.inj (hname.symm.trans hname')
  rw [hrun] at hrun'
  rw [howner] at howner'
  have hnamed : named list = named list' :=
    Except.ok.inj (Progress.finished.inj (Prod.mk.inj hrun').1)
  refine ⟨?_, by simpa using howner'⟩
  simpa using congrArg (·.string? "list") hnamed

/-- A notification that was not read tells the owner of the list. -/
structure Tells (owner list : String) (doc : Fields) : Prop where
  recipient : doc.get? "recipient" = some (.str owner)
  topic : doc.get? "topic" = some (.str "list_created")
  list : doc.get? "list" = some (.str list)
  read : doc.get? "read" = some (.bool false)

/-- After the response to the request, the burst made one notification, which tells the owner of the
list. -/
structure Told (store : String) (r : Resources) (root : Record) (list owner : String)
    (report : Report)
    (r' : Resources) : Prop where
  records : ∃ call response notice, report.records = [root, call, response, notice] ∧
    response.action = Requesting.respondAction ∧ response.input.get? "list" = some (.str list) ∧
    (∀ request, root.output = Requesting.named request → Delivers r r' request response) ∧
    notice.action = noticeAction "notify"
  stored : ∃ id doc, Tells owner list doc ∧
    Store.Adds notifications id doc (r.storeNamed store) (r'.storeNamed store)

section

variable {store request list owner : String} {r r' : Resources}
  {root call response notice record : Record}
  {more records : List Record} {report : Report} {route : Route} {s : State} {b : Burst} {name : Value}

/-! ### Calls that send nothing -/

/-- Calls of other concepts leave the notifications as they are. -/
lemma sameIn_of_replays (hreplays : Replays (registry store) r records r')
    (hconcepts : ∀ record ∈ records, record.action.concept ≠ Notifying.conceptName) :
    Store.SameIn notifications (r.storeNamed store) (r'.storeNamed store) := by
  refine hreplays.preserves
    (P := fun r' => Store.SameIn notifications (r.storeNamed store) (r'.storeNamed store))
    ?_ ?_ (.refl _ _)
  · intro record hrecord handle result r₁ r₂ hhandle hrun hr
    have huses := uses_of_ne_notifying hhandle (hconcepts record hrecord) record.input
    have hkept : Store.SameIn notifications (r₁.storeNamed store)
        (((handle.performer.perform record.action.action record.input).run r₁).2.storeNamed store) :=
      Resources.sameIn_run r₁ (huses.imp fun _ _ hne => .inr hne)
    rw [hrun] at hkept
    exact hr.trans hkept
  · exact fun r hr => hr

/-- Without a notification that is sent, there are as many as before. -/
lemma ids_of_replays (hreplays : Replays (registry store) r records r')
    (hactions : ∀ record ∈ records, record.action ≠ noticeAction "notify") :
    r'.ids store notifications = r.ids store notifications := by
  refine hreplays.preserves
    (P := fun r' => r'.ids store notifications = r.ids store notifications) ?_ ?_ rfl
  · intro record hrecord handle result r₁ r₂ hhandle hrun hr
    have huses := uses_of_ne_notify hhandle (hactions record hrecord) record.input
    have hkept := Resources.ids_run r₁ huses
    rw [hrun] at hkept
    exact hkept.trans hr
  · exact fun r hr => hr

/-- A request on another path sends nothing. -/
lemma Handles.ids_eq (h : Handles store r root request report r')
    (hpath : root.input.get? "path" ≠ some (.str "/ListCreation/newList")) :
    r'.ids store notifications = r.ids store notifications := by
  cases h with
  | ignored => rfl
  | @settled route call response more _ hroute htakes hsettles hdelivers hreplays =>
    have hnewList : call.action ≠ listAction "newList" := by
      rw [hsettles.follows.action]
      intro heq
      rw [htakes.path, heq] at hpath
      exact hpath rfl
    have hmore : more = [] := by
      obtain ⟨chain, hsends⟩ := hsettles.notices
      rw [noticesAfter, completion_notifyOwnerRule_of_ne hsettles.follows.action_ne hnewList] at hsends
      exact List.forall₂_nil_left_iff.1 hsends
    obtain ⟨payload, -, hresponds⟩ := hsettles.responds
    have hnotify : ∀ route ∈ routes, route.action ≠ noticeAction "notify" := by decide
    refine ids_of_replays hreplays ?_
    rw [hmore, List.forall_mem_cons, List.forall_mem_singleton, hsettles.follows.action,
      hresponds.action]
    exact ⟨hnotify route hroute, by decide⟩

/-! ### Notifications that are sent -/

/-- What a call that sends a notification does. -/
lemma exists_run_of_notify (haction : notice.action = noticeAction "notify")
    (h : Replays (registry store) r [notice] r') :
    ∃ result r₁, (Notifying.notify store notice.input).run r = (.finished result, r₁) ∧
      r' = r₁.readClock.2 := by
  cases h with
  | cons hhandle hrun _ hrest =>
    rw [haction, lookup?_noticeAction rfl] at hhandle
    cases hhandle
    rw [haction] at hrun
    exact ⟨_, _, hrun, hrest.eq_of_nil⟩

lemma get?_noticeArgs (owner name list : Value) (key : String) :
    (noticeArgs owner name list).get? key =
      if key = "listName" then some name else if key = "list" then some list
      else if key = "topic" then some (.str "list_created")
      else if key = "recipient" then some owner else none := by
  simp [noticeArgs, KeyMap.ofList, KeyMap.get?_insert]

lemma tells_docOf (name : Value) (r : Resources) :
    Tells owner list (Notifying.docOf (noticeArgs (.str owner) name (.str list)) r) := by
  constructor
  all_goals
    simp [Notifying.docOf, Store.withId, Notifying.newDoc, Store.idField, KeyMap.get?_insert,
      get?_noticeArgs]

lemma plain_noticeArgs (owner title list : String) :
    ∀ e ∈ (noticeArgs (.str owner) (.str title) (.str list)).entries, Value.Plain 126 e.2 := by
  rintro ⟨key, v⟩ he
  have hget := KeyMap.mem_entries_iff.1 he
  rw [get?_noticeArgs] at hget
  split_ifs at hget
  all_goals
    cases hget
    exact .str _ _

/-- A notification with a recipient is stored, and tells the recipient of the list. -/
lemma exists_adds_of_notice (haction : notice.action = noticeAction "notify") {title : String}
    (hinput : notice.input = noticeArgs (.str owner) (.str title) (.str list))
    (hshown : Text.trim owner ≠ "")
    (hr : InOrder store r) (h : Replays (registry store) r [notice] r') :
    ∃ id doc, Tells owner list doc ∧
      Store.Adds notifications id doc (r.storeNamed store) (r'.storeNamed store) := by
  obtain ⟨result, r₁, hrun, rfl⟩ := exists_run_of_notify haction h
  have hrecipient : Arguments.name notice.input "recipient" = .ok (Text.trim owner) := by
    simp [Arguments.name, Arguments.text, hinput, get?_noticeArgs, hshown]
  have htopic : Arguments.name notice.input "topic" = .ok "list_created" := by
    have htrim : Text.trim "list_created" = "list_created" := by decide
    simp [Arguments.name, Arguments.text, hinput, get?_noticeArgs, htrim]
  have hplain : ∀ e ∈ notice.input.entries, Value.Plain 126 e.2 := hinput ▸ plain_noticeArgs _ _ _
  obtain ⟨result', r₁', hrun', hadds⟩ := Notifying.exists_run_notify hrecipient htopic hr.notices hplain
  rw [hrun] at hrun'
  cases hrun'
  refine ⟨_, _, ?_, hadds⟩
  rw [hinput]
  exact tells_docOf _ r

/-- An owner without a name gets nothing. -/
lemma eq_of_notice_of_nameless (haction : notice.action = noticeAction "notify")
    {owner list : Value}
    (hinput : notice.input = noticeArgs owner name list)
    (hnameless : ¬ ∃ text, owner = .str text ∧ Text.trim text ≠ "")
    (h : Replays (registry store) r [notice] r') : r' = r.readClock.2 := by
  obtain ⟨result, r₁, hrun, rfl⟩ := exists_run_of_notify haction h
  cases hrecipient : Arguments.name notice.input "recipient" with
  | error e =>
    rw [Notifying.run_notify_of_error hrecipient] at hrun
    cases hrun
    rfl
  | ok recipient =>
    obtain ⟨text, htext, rfl⟩ := ListCreation.exists_text_of_name hrecipient
    have howner : owner = .str text := by
      simpa [hinput, get?_noticeArgs] using ListCreation.get?_of_text htext
    exact absurd ⟨text, howner, (ListCreation.isName_of_name hrecipient).1⟩ hnameless

/-! ### Requests for new lists -/

/-- A call for a new list that does not fail created it, and had a text for its name. -/
lemma exists_of_newList {input : Fields} {result : Except ConceptError Fields}
    (hr : InOrder store r)
    (hrun : (newList store input).run r = (.finished result, r'))
    (hok : (outputOf result).contains "error" = false) :
    ∃ list title, result = .ok (named list) ∧ input.get? "listName" = some (.str title) := by
  obtain ⟨entries, hhas, -⟩ := hr.lists.exists_entries
  rcases hhas.run_newList input with ⟨e, r₂, hrun', hcreates⟩ | ⟨result', r₂, hrun', herror, -⟩
  · rw [hrun] at hrun'
    cases hrun'
    obtain ⟨title, htitle, -⟩ := ListCreation.exists_text_of_name hcreates.name
    exact ⟨e.id, title, rfl, ListCreation.get?_of_text htitle⟩
  · rw [hrun] at hrun'
    cases hrun'
    rw [hok] at herror
    cases herror

/-- The calls for a request for a list of this name: `result` is that of the call for the list, and
what follows the response begins with the resources `between`. -/
structure Makes (store : String) (r : Resources) (root : Record) (request : String) (name : Value)
    (call response : Record) (result : Except ConceptError Fields) (between : Resources)
    (more : List Record) (report : Report) (r' : Resources) : Prop where
  names : root.input.get? "listName" = some name
  settles : Settles newListRoute root request call response more report
  delivers : Delivers r r' request response
  input : call.input = KeyMap.singleton "listName" name
  run : ∃ r₁, (newList store (KeyMap.singleton "listName" name)).run r = (.finished result, r₁)
  output : call.output = outputOf result
  before : Replays (registry store) r [call, response] between
  after : Replays (registry store) between more r'

lemma Handles.exists_makes (h : Handles store r root request report r')
    (hpath : root.input.get? "path" = some (.str newListRoute.action.path))
    (hname : root.input.get? "listName" = some name) :
    ∃ call response result between more,
      Makes store r root request name call response result between more report r' := by
  obtain ⟨call, response, more, hsettles, hdelivers, hinput, hcalls⟩ := h.exists_newList hpath hname
  obtain ⟨result, r₁, hrun, houtput, -⟩ := exists_run_of_newList hsettles.follows.action hcalls
  obtain ⟨between, hbefore, hafter⟩ :=
    @Replays.exists_between (registry store) [call, response] more r r' hcalls
  exact ⟨call, response, result, between, more, hname, hsettles, hdelivers, hinput,
    ⟨r₁, hinput ▸ hrun⟩, houtput, hbefore, hafter⟩

namespace Makes

variable {result : Except ConceptError Fields} {between : Resources}

section

variable (h : Makes store r root request name call response result between more report r')
include h

/-- Up to the response nothing is sent. -/
lemma sameIn : Store.SameIn notifications (r.storeNamed store) (between.storeNamed store) := by
  obtain ⟨payload, -, hresponds⟩ := h.settles.responds
  refine sameIn_of_replays h.before ?_
  rw [List.forall_mem_cons, List.forall_mem_singleton, h.settles.follows.action, hresponds.action]
  decide

lemma createsFor_iff (hpath : root.input.get? "path" = some (.str newListRoute.action.path)) :
    CreatesFor store r root.input list owner ↔
      result = .ok (named list) ∧ root.input.get? "owner" = some (.str owner) ∧
        Text.trim owner ≠ "" := by
  obtain ⟨r₁, hrun⟩ := h.run
  constructor
  · intro hfor
    obtain ⟨name', r₂, hname, hrun'⟩ := hfor.creates
    obtain rfl := Option.some.inj (h.names.symm.trans hname)
    exact ⟨Progress.finished.inj (Prod.mk.inj (hrun.symm.trans hrun')).1, hfor.names, hfor.shown⟩
  · rintro ⟨rfl, howner, hshown⟩
    exact ⟨hpath, ⟨name, r₁, h.names, hrun⟩, howner, hshown⟩

/-- If the call for the list does not fail, it created the list, and the name was a text. -/
lemma exists_of_not_error (hr : InOrder store r)
    (hok : (outputOf result).contains "error" = false) :
    ∃ list title, result = .ok (named list) ∧ name = .str title := by
  obtain ⟨r₁, hrun⟩ := h.run
  obtain ⟨list, title, hresult, htitle⟩ := exists_of_newList hr hrun hok
  rw [KeyMap.get?_singleton_self] at htitle
  exact ⟨list, title, hresult, Option.some.inj htitle⟩

/-- The rule for notifications is about a list exactly if the list was created. -/
lemma concerns_iff (hr : InOrder store r) {owner name' list' : Value} :
    Concerns root call owner name' list' ↔
      root.input.get? "owner" = some owner ∧ name' = name ∧
        ∃ list, result = .ok (named list) ∧ list' = .str list := by
  have hname : call.input.get? "listName" = some name := h.input ▸ KeyMap.get?_singleton_self _ _
  have hlist {list : String} (hresult : result = .ok (named list)) :
      call.output.get? "list" = some (.str list) := by
    rw [h.output, hresult]
    exact KeyMap.get?_singleton_self _ _
  constructor
  · intro hconcerns
    obtain ⟨list, -, hresult, -⟩ := h.exists_of_not_error hr (h.output ▸ hconcerns.error)
    exact ⟨hconcerns.owner, Option.some.inj (hconcerns.name.symm.trans hname), list, hresult,
      Option.some.inj (hconcerns.list.symm.trans (hlist hresult))⟩
  · rintro ⟨howner, rfl, list, hresult, rfl⟩
    refine ⟨howner, hname, hlist hresult, ?_⟩
    rw [Record.isError, h.output, hresult]
    exact ListCreation.Call.contains_error_named list

/-- A notification that is sent to an owner with a name is the one that tells of the list. -/
lemma told (hr : InOrder store r) (hroot : root.Requests request) {title : String}
    (hresult : result = .ok (named list))
    (hmore : more = [notice]) (haction : notice.action = noticeAction "notify")
    (hinput : notice.input = noticeArgs (.str owner) (.str title) (.str list))
    (hshown : Text.trim owner ≠ "") : Told store r root list owner report r' := by
  obtain ⟨payload, -, hresponds⟩ := h.settles.responds
  have hafter := h.after
  rw [hmore] at hafter
  obtain ⟨id, doc, htells, hadds⟩ :=
    exists_adds_of_notice haction hinput hshown (hr.replays h.before) hafter
  have hrecords := h.settles.records
  rw [hmore] at hrecords
  refine ⟨⟨call, response, notice, hrecords, hresponds.action, ?_, fun request' hrequest' => ?_,
    haction⟩, id, doc, htells, hadds.of_sameIn h.sameIn (.refl _ _)⟩
  · rw [h.settles.get?_response, h.output, hresult]
    rfl
  · have hget := hroot.get?_output
    rw [hrequest', Requesting.named, KeyMap.get?_singleton_self] at hget
    cases hget
    exact h.delivers

/-- A request with a name leads to a notification exactly if it creates the list for an owner with a
name. -/
lemma told_or_same (hr : InOrder store r) (hroot : root.Requests request)
    (hpath : root.input.get? "path" = some (.str newListRoute.action.path)) :
    (∃ list owner, CreatesFor store r root.input list owner ∧ Told store r root list owner report r') ∨
      (∀ list owner, ¬ CreatesFor store r root.input list owner) ∧
        Store.SameIn notifications (r.storeNamed store) (r'.storeNamed store) := by
  have hafter := h.after
  rcases h.settles.notice with
    ⟨owner, name', list', notice, hconcerns, hmore, haction, hinput⟩ | ⟨hnone, hmore⟩
  · obtain ⟨howner, rfl, list, hresult, rfl⟩ := (h.concerns_iff hr).1 hconcerns
    by_cases hnamed : ∃ text, owner = .str text ∧ Text.trim text ≠ ""
    · obtain ⟨text, rfl, hshown⟩ := hnamed
      obtain ⟨-, title, -, rfl⟩ := h.exists_of_not_error hr (h.output ▸ hconcerns.error)
      exact .inl ⟨list, text, (h.createsFor_iff hpath).2 ⟨hresult, howner, hshown⟩,
        h.told hr hroot hresult hmore haction hinput hshown⟩
    · refine .inr ⟨fun list text hfor => hnamed ⟨text, ?_, hfor.shown⟩, ?_⟩
      · exact Option.some.inj (howner.symm.trans hfor.names)
      · rw [hmore] at hafter
        rw [eq_of_notice_of_nameless haction hinput hnamed hafter]
        exact h.sameIn
  · refine .inr ⟨fun list owner hfor => ?_, ?_⟩
    · obtain ⟨hresult, howner, -⟩ := (h.createsFor_iff hpath).1 hfor
      exact hnone _ _ _ ((h.concerns_iff hr).2 ⟨howner, rfl, list, hresult, rfl⟩)
    · rw [hmore] at hafter
      rw [hafter.eq_of_nil]
      exact h.sameIn

end

end Makes

/-- A request for a new list leads to a notification exactly if it creates the list for an owner
with a name. -/
lemma Handles.told_or_same (h : Handles store r root request report r') (hr : InOrder store r)
    (hroot : root.Requests request)
    (hpath : root.input.get? "path" = some (.str newListRoute.action.path)) :
    (∃ list owner, CreatesFor store r root.input list owner ∧ Told store r root list owner report r') ∨
      (∀ list owner, ¬ CreatesFor store r root.input list owner) ∧
        Store.SameIn notifications (r.storeNamed store) (r'.storeNamed store) := by
  cases hname : root.input.get? "listName" with
  | none =>
    obtain ⟨-, rfl⟩ := h.eq_of_nameless hpath (by rw [KeyMap.contains, hname]; rfl)
    refine .inr ⟨fun list owner hfor => ?_, .refl _ _⟩
    obtain ⟨name, -, hsome, -⟩ := hfor.creates
    rw [hname] at hsome
    cases hsome
  | some name =>
    obtain ⟨call, response, result, between, more, hmakes⟩ := h.exists_makes hpath hname
    exact hmakes.told_or_same hr hroot hpath

end

/--
In every state that the application reaches, a request is handled. If it creates a list and names an
owner, one notification is stored after the response, and it tells the owner of the list; any other
request on that path leaves the notifications as they are, and a request on another path adds and
removes none.
-/
theorem owner_told_of_new_list {c : EngineConfig} (hdepth : 2 ≤ c.maxDepth)
    (hactions : 4 ≤ c.maxActions)
    {store : String} {s₀ s : State} {b : Burst} (hassembled : Assembled c store s₀)
    (hreaches : Reaches c store s₀ s) (hb : b ∈ s.opened)
    (haction : b.root.action = Requesting.requestAction) :
    ∃ report w, s.world.startBurst b = (.over report, w) ∧
      (∀ list owner, CreatesFor store s.world.resources b.root.input list owner →
        Told store s.world.resources b.root list owner report w.resources) ∧
      (b.root.input.get? "path" = some (.str "/ListCreation/newList") →
        (∀ list owner, ¬ CreatesFor store s.world.resources b.root.input list owner) →
        Store.SameIn notifications (s.world.resources.storeNamed store) (w.resources.storeNamed store)) ∧
      (b.root.input.get? "path" ≠ some (.str "/ListCreation/newList") →
        (w.resources.ids store notifications).length =
          (s.world.resources.ids store notifications).length) := by
  have hstands := hassembled.stands_of_reaches hdepth hactions hreaches
  obtain ⟨report, w, request, hstart, hroot, -, hhandles⟩ := hstands.handles hb haction
  refine ⟨report, w, hstart, fun list owner hfor => ?_, fun hpath hnone => ?_, fun hpath => ?_⟩
  · rcases hhandles.told_or_same hstands.resources hroot hfor.path with
      ⟨list', owner', hfor', htold⟩ | ⟨hnone, -⟩
    · obtain ⟨rfl, rfl⟩ := hfor.unique hfor'
      exact htold
    · exact absurd hfor (hnone list owner)
  · rcases hhandles.told_or_same hstands.resources hroot hpath with
      ⟨list', owner', hfor', -⟩ | ⟨-, hsame⟩
    · exact absurd hfor' (hnone list' owner')
    · exact hsame
  · rw [hhandles.ids_eq hpath]

/-! ### A list for a picnic -/

namespace Picnic

/-- A request for a new list that names an owner. -/
def input : Fields := KeyMap.ofList [
  ("path", .str "/ListCreation/newList"), ("listName", .str "Picnic"), ("owner", .str "bob")]

/-- The list is created where there is no other list. -/
lemma exists_createsFor {r : Resources} (hhas : ListCreation.Has "memory" [] r) :
    ∃ list, CreatesFor "memory" r input list "bob" := by
  let args : Fields := KeyMap.singleton "listName" (.str "Picnic")
  have hname : Arguments.name args "listName" = .ok "Picnic" := rfl
  have howner : Arguments.optionalText args "owner" = .ok none := rfl
  rcases hhas.run_newList_of_ok hname howner with ⟨e, r', hrun, -⟩ | ⟨_, -, ⟨e, he, -⟩, -⟩
  · exact ⟨e.id, rfl, ⟨_, r', rfl, hrun⟩, rfl, by decide⟩
  · cases he

end Picnic

open Picnic in
theorem owner_told_of_new_list_picnic :
    (2 : UInt32) ≤ ({} : EngineConfig).maxDepth ∧ (4 : UInt64) ≤ ({} : EngineConfig).maxActions ∧
      ∃ s₀ s b report w list, Assembled {} "memory" s₀ ∧ Reaches {} "memory" s₀ s ∧ b ∈ s.opened ∧
        b.root.input = input ∧ s.world.startBurst b = (.over report, w) ∧
        CreatesFor "memory" s.world.resources input list "bob" ∧
        Told "memory" s.world.resources b.root list "bob" report w.resources := by
  obtain ⟨s₀, s, b, hassembled, hreaches, hb, haction, hinput, hhas⟩ :=
    exists_reaches_request (c := {}) (by decide) (by decide) "memory" input
  obtain ⟨list, hfor⟩ := exists_createsFor hhas
  obtain ⟨report, w, hstart, htold, -⟩ :=
    owner_told_of_new_list (by decide) (by decide) hassembled hreaches hb haction
  exact ⟨by decide, by decide, s₀, s, b, report, w, list, hassembled, hreaches, hb, hinput, hstart,
    hfor, htold list "bob" (hinput ▸ hfor)⟩

end Synchrony.Application
