import Synchrony.Proofs.Application.Rules
import Synchrony.Proofs.Route.Answering
import Synchrony.Proofs.World.Drive

/-!
# How the application answers

A request on the path of a route, with the fields that the action takes, leads to the action, to one
response that succeeds, and perhaps to a notification; any other request stays alone
(`Application.answers_once`). The store may hold anything, and its database may fail at any stage of
any operation: what the concept then answers is an error, and that goes back like any other answer.
-/

namespace Synchrony

/-! ### Ends of bursts -/

namespace Report

/-- The burst ended by itself, after at most four records of depth at most two. -/
structure Short (report : Report) : Prop where
  failure : report.failure = none
  length : report.records.length ≤ 4
  depth : ∀ r ∈ report.records, r.depth ≤ 2

/-- The burst made one response, made it to this request, and it succeeded: it left what it was given,
beside the request, in the slot. -/
def RespondsOnce (report : Report) (request : String) (after : Resources) : Prop :=
  ∃ response, report.recordsOf Requesting.respondAction = [response] ∧
    Requesting.addressee? response.input = some request ∧
    response.output = Requesting.named request ∧
    after.slots.Holds request (Requesting.payloadOf response.input)

end Report

namespace Application

/-- The engine runs the application, with limits that its bursts keep. -/
structure Runs (e : Engine Concept) (store : String) : Prop where
  registry : e.registry = registry store
  rules : e.rules = table
  depth : 2 ≤ e.limits.maxDepth
  actions : 4 ≤ e.limits.maxActions

/-- The consequence is a notification that the burst can dispatch. -/
structure Notifies (p : Pending) : Prop where
  action : p.invocation.action = noticeAction "notify"
  depth : p.depth = 2
  args : ∃ args, p.invocation.args.resolve p.binding = .ok args

/-- The record is of the notification that waited as this consequence. -/
structure Sends (p : Pending) (r : Record) : Prop where
  action : r.action = noticeAction "notify"
  depth : r.depth = 2
  input : p.invocation.args.resolve p.binding = .ok r.input

/-- The notification that waits after a call, if the rule for it is completed. -/
def noticesAfter (root call : Record) (chain : List (List Char)) : List Pending :=
  (notifyOwnerRule.completion [root, call] call).toList.flatMap fun m =>
    consequencesOf notifyOwnerRule m.binding (call.depth + 1) chain

/-- The burst made a call for the request, a response, and then the notifications that waited. -/
structure Settles (route : Route) (root : Record) (request : String) (call response : Record)
    (more : List Record) (report : Report) : Prop where
  failure : report.failure = none
  records : report.records = [root, call, response] ++ more
  follows : route.Follows root call request
  input : call.input = root.input.filterKeys (· ∈ route.inputs)
  depth : call.depth = 1 ∧ response.depth = 2
  responds : ∃ payload, route.payload? call.output = some payload ∧ response.Responds request payload
  notices : ∃ chain, List.Forall₂ Sends (noticesAfter root call chain) more

/-- If the burst found the slot of the request open, the response succeeded and is in the slot. -/
def Delivers (before after : Resources) (request : String) (response : Record) : Prop :=
  before.slots.Open request → response.output = Requesting.named request ∧
    after.slots.Holds request (Requesting.payloadOf response.input)

section Bursts

variable {e : Engine Concept} {store : String} {log : Log} {r r' : Resources} {b : Burst}
  {record root call : Record} {chain : List (List Char)} {rs : List Record} {request : String}
  {route : Route} {fails : Nat → Nat → Store.Failures}

/-- Notifications that wait are sent, which leaves the slots alone, and then the burst is over. -/
lemma Runs.concludes_of_notices (h : Runs e store) (hkeeps : log.Keeps b.id rs)
    (hburst : record.burst = b.id) (hquiet : e.rules.completedBy rs record = [])
    {queue : List Pending} (hqueue : b.queue = queue) (hnotifies : ∀ p ∈ queue, Notifies p)
    (hbudget : b.appended + queue.length ≤ e.limits.maxActions) :
    World.Concludes e log r b record chain fails fun report r' => report.failure = none ∧
      r'.slots = r.slots ∧ ∃ more, report.records = rs ++ more ∧ List.Forall₂ Sends queue more := by
  induction queue generalizing log r b record chain rs with
  | nil =>
    apply World.concludes_of_quiet hkeeps hburst hquiet hqueue
    intro report _ hrecords hfailure
    refine ⟨hfailure, rfl, [], ?_, .nil⟩
    rw [hrecords, List.append_nil]
  | cons p rest ih =>
    rw [List.forall_mem_cons] at hnotifies
    rw [List.length_cons] at hbudget
    obtain ⟨hp, hrest⟩ := hnotifies
    obtain ⟨args, hargs⟩ := hp.args
    have hhandle : e.registry.lookup? p.invocation.action = some
        ⟨noticeAction "notify", ⟨"notify", ["recipient", "topic"], ["notification"]⟩,
          Notifying.concept store⟩ := by
      rw [h.registry, hp.action]
      exact lookup?_noticeAction rfl
    obtain ⟨result, r', hrun, -, hslots⟩ :=
      (Notifying.ends_notify store args).exists_run r (fails b.appended)
    apply World.concludes_of_call hkeeps hburst hquiet (by simp) hqueue hargs hhandle (by omega) hrun
    intro log' next firings hkeeps' _ hcalls
    have haction : next.action = noticeAction "notify" := hcalls.action.trans hp.action
    have hnext : e.rules.completedBy (rs ++ [next]) next = [] := by
      rw [h.rules]
      exact completedBy_notify haction
    have hbudget' : b.appended + 1 + rest.length ≤ e.limits.maxActions := by omega
    refine (ih (b := { b with firings, queue := rest, appended := b.appended + 1 }) hkeeps'
      hcalls.burst hnext rfl hrest hbudget').imp ?_
    rintro report r'' ⟨hfailure, hkept, more, hrecords, hsends⟩
    refine ⟨hfailure, hkept.trans hslots, next :: more, ?_,
      .cons ⟨haction, hcalls.depth.trans hp.depth, ?_⟩ hsends⟩
    · rw [hrecords, List.append_assoc, List.singleton_append]
    · rw [hargs, hcalls.input]

/-- No match of a call is blocked by the firing of the request rule that led to it. -/
lemma Runs.free_call (h : Runs e store) (hroute : route ∈ routes)
    (hfollows : route.Follows root call request) (hdepth : call.depth = 1) (binding : Binding) :
    ∀ x ∈ table.completedBy [root, call] call,
      ¬ Blocked e.limits call [Firing.keyOf route.requestRule.name binding] x := by
  rintro ⟨rule, m⟩ hx (hlt | hmem)
  · rw [hdepth] at hlt
    exact absurd h.depth (UInt32.not_le.2 hlt)
  obtain ⟨hrule, hm⟩ := RuleTable.mem_completedBy_iff.1 hx
  obtain ⟨hname, -⟩ := Firing.keyOf_inj (List.mem_singleton.1 hmem)
  have hrequestRule : route.requestRule ∈ table.rules :=
    mem_rules_iff.2 (Or.inr (List.mem_flatMap.2 ⟨route, hroute, List.mem_cons_self⟩))
  -- the rule would be the request rule, but a call is not a request
  obtain rfl := List.inj_on_of_nodup_map nodup_names hrule hrequestRule hname
  rw [Rule.completion_eq_none_of_action] at hm
  · cases hm
  · intro p hp heq
    rw [List.mem_singleton.1 hp] at heq
    exact hfollows.action_ne heq.symm

/-- What the notification queues can be dispatched. -/
lemma notifies_of_completedBy {m : Match} (hcall : call.depth = 1)
    (hm : (notifyOwnerRule, m) ∈ table.completedBy [root, call] call) :
    ∀ p ∈ consequencesOf notifyOwnerRule m.binding (call.depth + 1) chain, Notifies p := by
  intro p hp
  obtain ⟨invocation, hinvocation, rfl⟩ := List.mem_map.1 hp
  have hargs := RuleTable.exists_resolve_of_mem_completedBy tidy_table (by simp) hm hinvocation
  refine ⟨?_, ?_, hargs⟩
  · rw [List.mem_singleton.1 hinvocation]
  · rw [hcall]
    rfl

/-- What waits after a call are notifications, and no more than one. -/
lemma notifies_of_mem_noticesAfter (hcall : call.depth = 1) :
    (∀ p ∈ noticesAfter root call chain, Notifies p) ∧ (noticesAfter root call chain).length ≤ 1 := by
  rw [noticesAfter]
  cases hnotice : notifyOwnerRule.completion [root, call] call with
  | none => simp
  | some m =>
    rw [Option.toList_some, List.flatMap_singleton]
    refine ⟨notifies_of_completedBy hcall (RuleTable.mem_completedBy_iff.2 ⟨?_, hnotice⟩), Nat.le_refl 1⟩
    exact mem_rules_iff.2 (.inl rfl)

/-- The call of a routed action queues a response to the request, and perhaps a notification. -/
lemma exists_queuedAfter (hroute : route ∈ routes) (hfollows : route.Follows root call request)
    (hcall : call.depth = 1) (hanswerable : route.Answerable call.output) (hqueue : b.queue = []) :
    ∃ p args payload,
      Engine.queuedAfter b call chain (table.completedBy [root, call] call) =
        p :: noticesAfter root call chain ∧
      p.invocation.action = Requesting.respondAction ∧ p.depth = 2 ∧
      p.invocation.args.resolve p.binding = .ok args ∧
      Requesting.addressee? args = some request ∧
      route.payload? call.output = some payload ∧ Requesting.payloadOf args = payload := by
  obtain ⟨x, hx, hanswers⟩ := hanswerable
  obtain ⟨m, hfound, hrequest, hbinding⟩ := completedBy_call hroute hfollows hx hanswers
  have hmem : (route.answerRule x.1 x.2, m) ∈ table.completedBy [root, call] call := by
    rw [hfound]
    exact List.mem_cons_self
  obtain ⟨args, hargs⟩ := RuleTable.exists_resolve_of_mem_completedBy tidy_table (by simp) hmem
    (List.mem_singleton_self _)
  obtain ⟨haddressee, hpayload⟩ := Route.args_of_resolve_answerRule
    ((compatible_routes "").notMem_of_mem_answers hroute hx) hargs hrequest hbinding
  have hdepth : call.depth + 1 = 2 := by rw [hcall]; rfl
  let rule := route.answerRule x.1 x.2
  refine ⟨⟨rule.name, ⟨Requesting.respondAction, _⟩, m.binding, call.depth + 1,
      Firing.keyOf rule.name m.binding :: chain⟩, args, _, ?_, rfl, hdepth, hargs, haddressee,
    Route.payload?_eq_some ((compatible_routes "").error route hroute) hx hanswers, hpayload⟩
  rw [Engine.queuedAfter, hfound, hqueue, List.append_nil, List.flatMap_cons, noticesAfter]
  cases notifyOwnerRule.completion [root, call] call <;> rfl

/-- A response that finds the slot open succeeds, and is in the slot then. -/
lemma exists_run_respond {args : Fields} (haddressee : Requesting.addressee? args = some request)
    (r : Resources) (fails : Nat → Store.Failures) :
    ∃ output r', (Requesting.respond args).run r fails = (.finished (.ok output), r') ∧
      (r.slots.Open request → output = Requesting.named request ∧
        r'.slots.Holds request (Requesting.payloadOf args)) := by
  rw [Exchange.run_respond, haddressee]
  cases htake : r.slots.take request with
  | error err =>
    simp only [htake]
    refine ⟨_, _, rfl, fun hopen => ?_⟩
    obtain ⟨slots, hslots⟩ := Slots.open_iff_exists_take.1 hopen
    rw [htake] at hslots
    cases hslots
  | ok slots =>
    simp only [htake]
    exact ⟨_, _, rfl, fun _ => ⟨rfl, Slots.holds_send_of_take htake _⟩⟩

namespace Settles

variable {response : Record} {more : List Record} {report : Report}

/-- The notifications of a burst that is settled. -/
lemma forall_mem_more (h : Settles route root request call response more report) :
    more.length ≤ 1 ∧ ∀ r ∈ more, r.action = noticeAction "notify" ∧ r.depth = 2 := by
  obtain ⟨chain, hsends⟩ := h.notices
  refine ⟨hsends.length_eq ▸ (notifies_of_mem_noticesAfter h.depth.1).2, fun r hr => ?_⟩
  obtain ⟨i, hi, rfl⟩ := List.mem_iff_getElem.1 hr
  have hsent := hsends.get (hsends.length_eq.symm ▸ hi) hi
  exact ⟨hsent.action, hsent.depth⟩

/-- A burst of a request, a call and a response, with a notification behind them or not. -/
lemma short_and_respondsOnce (h : Settles route root request call response more report)
    (hroute : route ∈ routes) (hroot : root.depth = 0)
    (hdelivers : Delivers r r' request response) (hopen : r.slots.Open request) :
    report.Short ∧ report.RespondsOnce request r' := by
  obtain ⟨hlength, hnotices⟩ := h.forall_mem_more
  obtain ⟨payload, -, hresponds⟩ := h.responds
  refine ⟨⟨h.failure, ?_, ?_⟩, response, ?_, hresponds.addressee, hdelivers hopen⟩
  · rw [h.records, List.length_append]
    simp only [List.length_cons, List.length_nil]
    omega
  · rw [h.records, List.forall_mem_append]
    refine ⟨?_, fun r hr => (hnotices r hr).2 ▸ UInt32.le_refl _⟩
    simp only [List.forall_mem_cons, hroot, h.depth.1, h.depth.2]
    decide
  · have hne : route.action ≠ Requesting.respondAction := fun heq =>
      (compatible_routes "").concept route hroute (congrArg ActionRef.concept heq)
    have hmore : more.filter (·.action = Requesting.respondAction) = [] := by
      rw [List.filter_eq_nil_iff]
      intro r hr
      rw [(hnotices r hr).1]
      decide
    rw [Report.recordsOf, h.records, List.filter_append, hmore, List.append_nil]
    have hrequest : root.action ≠ Requesting.respondAction := by
      rw [h.follows.requests.action]
      decide
    simp [hrequest, h.follows.action, hne, hresponds.action]

end Settles

/-- The call of a routed action is answered. -/
lemma Runs.settles_of_follows (h : Runs e store) (hroute : route ∈ routes)
    (hfollows : route.Follows root call request)
    (hinput : call.input = root.input.filterKeys (· ∈ route.inputs)) (hcall : call.depth = 1)
    (hanswerable : route.Answerable call.output) (hkeeps : log.Keeps b.id [root, call])
    (hburst : call.burst = b.id) (hqueue : b.queue = []) (happended : b.appended = 2)
    (binding : Binding) :
    World.Concludes e log r b call [Firing.keyOf route.requestRule.name binding] fails
      fun report r' => ∃ response more, Settles route root request call response more report ∧
        Delivers r r' request response := by
  obtain ⟨p, args, payload, hqueued, haction, hdepth, hargs, haddressee, hpayload, hsent⟩ :=
    exists_queuedAfter hroute hfollows hcall hanswerable hqueue
  obtain ⟨output, r₁, hrun, hdelivers⟩ := exists_run_respond haddressee r (fails b.appended)
  obtain ⟨hnotifies, hlength⟩ :=
    @notifies_of_mem_noticesAfter root call [Firing.keyOf route.requestRule.name binding] hcall
  have hhandle : e.registry.lookup? p.invocation.action = some ⟨Requesting.respondAction,
      ⟨"respond", [Requesting.requestField], [Requesting.requestField]⟩, Requesting.concept⟩ := by
    rw [h.registry, haction]
    exact lookup?_respondAction store
  have hfound : e.rules.completedBy [root, call] call = table.completedBy [root, call] call := by
    rw [h.rules]
  have hactions := h.actions
  apply World.concludes_of_call hkeeps hburst hfound (h.free_call hroute hfollows hcall binding)
    hqueued hargs hhandle (by omega) hrun
  intro log' response firings hkeeps' _ hcalls
  have hresponse : response.action = Requesting.respondAction := hcalls.action.trans haction
  have hquiet : e.rules.completedBy ([root, call] ++ [response]) response = [] := by
    rw [h.rules]
    exact completedBy_respond hresponse
  have hbudget : b.appended + 1 +
      (noticesAfter root call [Firing.keyOf route.requestRule.name binding]).length ≤
        e.limits.maxActions := by omega
  refine (h.concludes_of_notices (b := { b with firings, queue := _, appended := b.appended + 1 })
    hkeeps' hcalls.burst hquiet rfl hnotifies hbudget).imp ?_
  rintro report r' ⟨hfailure, hkept, more, hrecords, hsends⟩
  refine ⟨response, more, ⟨hfailure, hrecords, hfollows, hinput, ⟨hcall, hcalls.depth.trans hdepth⟩,
    ⟨payload, hpayload, hresponse, ?_, ?_⟩, _, hsends⟩, fun hopen => ?_⟩
  · rw [hcalls.input, haddressee]
  · rw [hcalls.input, hsent]
  · obtain ⟨rfl, hholds⟩ := hdelivers hopen
    rw [hcalls.output, hcalls.input, hkept]
    exact ⟨rfl, hholds⟩

/-- A request that a route takes is settled. -/
lemma Runs.settles_of_takes (h : Runs e store) (hroute : route ∈ routes)
    (hrequests : root.Requests request) (hroot : root.depth = 0) (htakes : route.Takes root.input)
    (hkeeps : log.Keeps b.id [root]) (hburst : root.burst = b.id) (hqueue : b.queue = [])
    (happended : b.appended = 1) :
    World.Concludes e log r b root [] fails fun report r' =>
      ∃ call response more, Settles route root request call response more report ∧
        Delivers r r' request response := by
  obtain ⟨m, hfound, hbinding⟩ := completedBy_request hroute hrequests htakes
  have hmem : (route.requestRule, m) ∈ table.completedBy [root] root := by
    rw [hfound]
    exact List.mem_singleton_self _
  obtain ⟨args, hargs⟩ := RuleTable.exists_resolve_of_mem_completedBy tidy_table (by simp) hmem
    (List.mem_singleton_self _)
  obtain ⟨spec, performer, hhandle, hends⟩ := exists_ends store hroute
  obtain ⟨result, r₁, hrun, hsettles, hslots⟩ := (hends args).exists_run r (fails b.appended)
  have hfree : ∀ x ∈ [(route.requestRule, m)], ¬ Blocked e.limits root [] x := by
    rintro x - (hlt | hmem)
    · rw [hroot] at hlt
      exact absurd h.depth (UInt32.not_le.2 (UInt32.lt_trans hlt (by decide)))
    · cases hmem
  have hqueued : Engine.queuedAfter b root [] [(route.requestRule, m)] =
      [⟨route.requestRule.name, ⟨route.action, Route.withVars .empty route.inputs⟩, m.binding,
        root.depth + 1, [Firing.keyOf route.requestRule.name m.binding]⟩] := by
    rw [Engine.queuedAfter, hqueue]
    rfl
  have hactions := h.actions
  rw [← h.rules] at hfound
  rw [← h.registry] at hhandle
  apply World.concludes_of_call hkeeps hburst hfound hfree hqueued hargs hhandle (by omega) hrun
  intro log' call firings hkeeps' hlater hcalls
  have hfollows : route.Follows root call request :=
    ⟨hrequests, htakes.path, (compatible_routes store).concept route hroute, hcalls.action,
      hlater root (List.mem_singleton_self _)⟩
  have hcall : call.depth = 1 := by
    rw [hcalls.depth, hroot]
    rfl
  have hinput : call.input = root.input.filterKeys (· ∈ route.inputs) := by
    rw [hcalls.input]
    exact Route.args_eq_of_resolve_requestRule hargs hbinding
  refine (h.settles_of_follows (b := { b with firings, queue := [], appended := b.appended + 1 })
    hroute hfollows hinput hcall ?_ hkeeps' hcalls.burst rfl (congrArg (· + 1) happended)
    m.binding).imp ?_
  · rw [hcalls.output]
    exact hsettles
  · rintro report r' ⟨response, more, hsettles, hdelivers⟩
    exact ⟨call, response, more, hsettles, fun hopen => hdelivers (hslots ▸ hopen)⟩

/-- A request that a route takes is answered once. -/
lemma Runs.concludes_of_takes (h : Runs e store) (hroute : route ∈ routes)
    (hrequests : root.Requests request) (hroot : root.depth = 0) (htakes : route.Takes root.input)
    (hkeeps : log.Keeps b.id [root]) (hburst : root.burst = b.id) (hqueue : b.queue = [])
    (happended : b.appended = 1) (hopen : r.slots.Open request) :
    World.Concludes e log r b root [] fails fun report r' =>
      report.Short ∧ report.RespondsOnce request r' := by
  refine (h.settles_of_takes hroute hrequests hroot htakes hkeeps hburst hqueue happended).imp ?_
  rintro report r' ⟨call, response, more, hsettles, hdelivers⟩
  exact hsettles.short_and_respondsOnce hroute hroot hdelivers hopen

/-- A request that no route takes stays alone. -/
lemma Runs.concludes_of_not_takes (h : Runs e store) (hroot : root.depth = 0)
    (hnone : ∀ route ∈ routes, ¬ route.Takes root.input) (hkeeps : log.Keeps b.id [root])
    (hburst : root.burst = b.id) (hqueue : b.queue = []) :
    World.Concludes e log r b root [] fails fun report _ =>
      report.Short ∧ report.records = [root] := by
  have hquiet : e.rules.completedBy [root] root = [] := by
    rw [h.rules]
    exact completedBy_request_eq_nil hnone
  apply World.concludes_of_quiet hkeeps hburst hquiet hqueue
  intro report _ hrecords hfailure
  refine ⟨⟨hfailure, ?_, ?_⟩, hrecords⟩
  · rw [hrecords, List.length_singleton]
    decide
  · rw [hrecords, List.forall_mem_singleton, hroot]
    decide

end Bursts

/-! ### Requests -/

/-- The path is that of a route, and the body has all the fields that its action takes. -/
def Addressed (path : String) (body : Fields) : Prop :=
  ∃ route ∈ routes, route.action.path = path ∧ ∀ name ∈ route.inputs, body.contains name = true

/-- A request is addressed if a route takes it. -/
lemma addressed_iff {path : String} {body : Fields} :
    Addressed path body ↔ ∃ route ∈ routes, route.Takes (body.insert "path" (.str path)) := by
  refine exists_congr fun route => and_congr_right fun hroute => ?_
  have hpath : (body.insert "path" (.str path)).get? "path" = some (.str path) :=
    KeyMap.get?_insert_self ..
  have hcontains {name : String} (hname : name ∈ route.inputs) :
      (body.insert "path" (.str path)).contains name = body.contains name := by
    have hne : name ≠ "path" := fun heq =>
      (compatible_routes "").inputs route hroute (heq ▸ hname)
    rw [KeyMap.contains, KeyMap.get?_insert_of_ne _ _ hne, KeyMap.contains]
  constructor
  · rintro ⟨rfl, hinputs⟩
    exact ⟨hpath, fun name hname => (hcontains hname).trans (hinputs name hname)⟩
  · intro htakes
    refine ⟨?_, fun name hname => (hcontains hname).symm.trans (htakes.inputs name hname)⟩
    simpa [hpath, eq_comm] using htakes.path

/-- The application is assembled whatever the configuration, and then runs on its engine. -/
lemma exists_assemble (c : EngineConfig) (resources : Resources) (store : String) :
    ∃ done w, assemble (World.ofConfig c resources) store = .ok (done, w) ∧
      w.engine.registry = registry store ∧ w.engine.rules = table ∧ w.engine.limits = c.limits := by
  rw [assemble, registerAll_concepts store rfl]
  exact ⟨_, _, rfl, rfl, rules_install store, rfl⟩

/-- A request opens a burst of one record, and an open slot. -/
lemma begin_request {store : String} {w : World} (hregistry : w.engine.registry = registry store)
    (input : Fields) (hfresh : w.engine.log.burstRecords w.resources.drawId.1 = []) :
    ∃ root request w', w.begin Requesting.requestAction input =
        .ok (.opened { id := root.burst, root }, w') ∧
      w'.engine = { w.engine with log := w'.engine.log } ∧
      w'.engine.log.Keeps root.burst [root] ∧ w'.resources.slots.Open request ∧
      root.Requests request ∧ root.depth = 0 ∧ root.input = input := by
  have hresolve : w.engine.registry.resolve Requesting.requestAction =
      .ok ⟨Requesting.requestAction, ⟨"request", ["path"], [Requesting.requestField]⟩,
        Requesting.concept⟩ := by
    rw [hregistry, Registry.resolve, lookup?_requestAction]
  let request := w.resources.drawId.2.drawId.1
  let r : Resources :=
    { w.resources.drawId.2.drawId.2 with slots := w.resources.slots.request request }
  let new : NewRecord := ⟨w.resources.drawId.1, 0, Requesting.requestAction, input,
    Requesting.named request, none, r.readClock.1⟩
  have hkeeps : w.engine.log.Keeps new.burst [] := ⟨hfresh, by simp⟩
  refine ⟨(w.engine.log.append new).1, request,
    ⟨{ w.engine with log := (w.engine.log.append new).2 }, r.readClock.2⟩, ?_, rfl, hkeeps.append,
    ⟨{}, KeyMap.get?_insert_self .., rfl⟩, ⟨rfl, rfl⟩, rfl, rfl⟩
  rw [World.begin, hresolve]
  rfl

/--
The application answers every well-addressed request exactly once, over any store with any content.
It is assembled in any configuration; if the limits allow depth two and four actions, a request with
any path and any body opens a burst, and whatever happens before the burst goes on and however the
database fails while it does, it ends by itself after at most four records of depth at most two. If
the path is that of a route and the body has the fields that the action takes, the burst makes one
response to the request, which succeeds; otherwise the request is its only record.
-/
theorem answers_once {c : EngineConfig} (hdepth : 2 ≤ c.maxDepth) (hactions : 4 ≤ c.maxActions)
    (resources : Resources) (store : String) :
    ∃ done w, assemble (World.ofConfig c resources) store = .ok (done, w) ∧
      ∀ (log : Log) (r : Resources) (path : String) (body : Fields),
        log.burstRecords r.drawId.1 = [] → ∃ b w₁ request,
          World.begin ⟨{ w.engine with log }, r⟩ Requesting.requestAction
            (body.insert "path" (.str path)) = .ok (.opened b, w₁) ∧
          b.root.output = Requesting.named request ∧
          w₁.engine = { w.engine with log := w₁.engine.log } ∧
          w₁.engine.log.Keeps b.id [b.root] ∧ w₁.resources.slots.Open request ∧
          ∀ (log : Log) (r : Resources) (fails : Nat → Nat → Store.Failures),
            log.Keeps b.id [b.root] → r.slots.Open request →
            ∃ report w₂, World.startBurst ⟨{ w.engine with log }, r⟩ b fails = (.over report, w₂) ∧
              report.Short ∧
              (Addressed path body → report.RespondsOnce request w₂.resources) ∧
              (¬ Addressed path body → report.records = [b.root]) := by
  obtain ⟨done, w, hassemble, hregistry, hrules, hlimits⟩ := exists_assemble c resources store
  have hruns : Runs w.engine store := by
    refine ⟨hregistry, hrules, ?_, ?_⟩
    · rwa [hlimits]
    · rw [hlimits]
      exact UInt64.le_iff_toNat_le.1 hactions
  refine ⟨done, w, hassemble, ?_⟩
  intro log r path body hfresh
  obtain ⟨root, request, w₁, hbegin, hengine, hkeeps, hopen, hrequests, hroot, hinput⟩ :=
    begin_request (w := ⟨{ w.engine with log }, r⟩) hregistry (body.insert "path" (.str path)) hfresh
  refine ⟨{ id := root.burst, root }, w₁, request, hbegin, hrequests.output, hengine, hkeeps, hopen,
    ?_⟩
  intro log r fails hkeeps hopen
  by_cases haddressed : Addressed path body
  · obtain ⟨route, hroute, htakes⟩ := addressed_iff.1 haddressed
    rw [← hinput] at htakes
    obtain ⟨report, w₂, hdrive, hshort, hresponds⟩ :=
      hruns.concludes_of_takes hroute hrequests hroot htakes hkeeps rfl rfl rfl hopen
    exact ⟨report, w₂, hdrive, hshort, fun _ => hresponds, fun hnot => absurd haddressed hnot⟩
  · have hnone : ∀ route ∈ routes, ¬ route.Takes root.input := by
      intro route hroute htakes
      rw [hinput] at htakes
      exact haddressed (addressed_iff.2 ⟨route, hroute, htakes⟩)
    obtain ⟨report, w₂, hdrive, hshort, hrecords⟩ :=
      hruns.concludes_of_not_takes hroot hnone hkeeps rfl rfl
    exact ⟨report, w₂, hdrive, hshort, fun hthen => absurd hthen haddressed, fun _ => hrecords⟩

/-! ### A disk that is full -/

namespace FullDisk

/-- The limits that a request for a new list just keeps. -/
def config : EngineConfig := ⟨2, 4, 8⟩

/-- Nothing is stored yet. -/
def resources : Resources where
  stores := KeyMap.singleton "disk" (.durable {})

/-- Nothing is logged yet. -/
def log : Log := { capacity := 8 }

/-- A list with an owner to be notified. -/
def body : Fields := KeyMap.ofList [("listName", .str "groceries"), ("owner", .str "ann")]

lemma addressed_newList : Addressed "/ListCreation/newList" body :=
  ⟨⟨listAction "newList", ["listName"], ["list"]⟩, by simp [routes, listRoutes], rfl, by decide⟩

/-- Everything can be read, and nothing can be written. -/
def failures : Store.Failures
  | .write => some "no space left on device"
  | _ => none

end FullDisk

open FullDisk in
theorem answers_once_full_disk : 2 ≤ config.maxDepth ∧ 4 ≤ config.maxActions ∧
    log.burstRecords resources.drawId.1 = [] ∧
    ((ListCreation.newList "disk" (KeyMap.singleton "listName" (.str "groceries"))).run resources
      fun _ => failures).1 = .finished (.error (.store (.backend "no space left on device"))) ∧
    ∃ done w b w₁ request report w₂,
      assemble (World.ofConfig config {}) "disk" = .ok (done, w) ∧
      World.begin ⟨{ w.engine with log }, resources⟩ Requesting.requestAction
        (body.insert "path" (.str "/ListCreation/newList")) = .ok (.opened b, w₁) ∧
      b.root.output = Requesting.named request ∧
      w₁.startBurst b (fun _ _ => failures) = (.over report, w₂) ∧
      report.Short ∧ report.RespondsOnce request w₂.resources := by
  refine ⟨by decide, by decide, rfl, rfl, ?_⟩
  obtain ⟨done, w, hassemble, h⟩ := answers_once (c := config) (by decide) (by decide) {} "disk"
  obtain ⟨b, w₁, request, hbegin, houtput, hengine, hkeeps, hopen, hruns⟩ :=
    h log resources "/ListCreation/newList" body rfl
  obtain ⟨report, w₂, hstart, hshort, hresponds, -⟩ := hruns _ _ (fun _ _ => failures) hkeeps hopen
  rw [← hengine] at hstart
  exact ⟨done, w, b, w₁, request, report, w₂, hassemble, hbegin, houtput, hstart, hshort,
    hresponds addressed_newList⟩

end Application

end Synchrony
