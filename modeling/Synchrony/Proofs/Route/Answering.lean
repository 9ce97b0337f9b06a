import Synchrony.Proofs.Burst.Thread
import Synchrony.Proofs.Route.Table
import Synchrony.Proofs.Slots.Ledger

/-!
# How routes answer requests

The burst of a request that a route takes is one thread: the request, one call of the route's action
with the fields it takes, and, if the route answers the call's output, one response to the request
with what goes back (`Engine.Serves.records_of_takes`). Any other request stays alone. The response
succeeds exactly if the request's slot still takes one (`Traffic.answers_request`).
-/

namespace Synchrony

/-! ### Requests and responses -/

/-- The slot of the request is there, and nobody took the right to respond. -/
def Slots.Open (s : Slots) (request : String) : Prop :=
  ∃ slot, s.live.get? request = some slot ∧ slot.answered = false

/-- The right to respond is given exactly if the slot is open. -/
lemma Slots.open_iff_exists_take {s : Slots} {request : String} :
    s.Open request ↔ ∃ s', s.take request = .ok s' := by
  rw [Open, take]
  cases s.live.get? request with
  | none => simp
  | some slot => cases hanswered : slot.answered <;> simp [hanswered]

/-- The response is in the slot of the request. -/
def Slots.Holds (s : Slots) (request : String) (payload : Fields) : Prop :=
  ∃ slot, s.live.get? request = some slot ∧ slot.response = some payload

/-- A response that is sent after the right to respond was taken is in the slot. -/
lemma Slots.holds_send_of_take {s s' : Slots} {request : String} (h : s.take request = .ok s')
    (payload : Fields) : (s'.send request payload).Holds request payload := by
  obtain ⟨slot, -, -, rfl⟩ := take_eq_ok h
  refine ⟨{ slot with answered := true, response := some payload }, ?_, rfl⟩
  rw [get?_live_send, if_pos rfl, KeyMap.get?_insert_self]
  rfl

namespace Requesting

/-- The record's output is what its action of the concept comes to in the resources it found. -/
def Performed (r : Record) (found : Resources) : Prop :=
  ∃ result, ((concept.perform r.action.action r.input).run found).1 = .finished result ∧
    r.output = outputOf result

variable {r : Record} {found : Resources} {id : String}

/-- A request gets an identifier with an open slot. -/
lemma Performed.requests (h : Performed r found) (haction : r.action = requestAction) :
    ∃ id, r.Requests id ∧ (request.run found).2.slots.Open id := by
  obtain ⟨result, hresult, houtput⟩ := h
  rw [haction] at hresult
  cases hresult
  exact ⟨found.drawId.1, ⟨haction, houtput⟩, {}, KeyMap.get?_insert_self _ _ _, rfl⟩

/-- A response succeeds exactly if it finds an open slot. -/
lemma Performed.responds (h : Performed r found) (haction : r.action = respondAction)
    (haddressee : addressee? r.input = some id) :
    (found.slots.Open id → r.output = named id) ∧
      (¬ found.slots.Open id → r.isError = true) := by
  obtain ⟨result, hresult, houtput⟩ := h
  rw [haction] at hresult
  change ((respond r.input).run found).1 = _ at hresult
  rw [Exchange.run_respond, haddressee] at hresult
  rw [Slots.open_iff_exists_take]
  cases htake : found.slots.take id with
  | ok slots =>
    simp only [htake] at hresult
    cases hresult
    exact ⟨fun _ => houtput, fun hclosed => absurd ⟨slots, rfl⟩ hclosed⟩
  | error failure =>
    simp only [htake] at hresult
    cases hresult
    refine ⟨fun ⟨_, hopen⟩ => (by cases hopen), fun _ => ?_⟩
    rw [Record.isError, houtput]
    rfl

end Requesting

/-! ### Bursts -/

variable {ι : Type}

/-- The record is of a response to the request with this payload. -/
structure Record.Responds (r : Record) (request : String) (payload : Fields) : Prop where
  action : r.action = Requesting.respondAction
  addressee : Requesting.addressee? r.input = some request
  payload : Requesting.payloadOf r.input = payload

/-- The engine has the rules of the routes and no others, and a burst may follow them to the end. -/
structure Engine.Serves (e : Engine ι) (routes : List Route) : Prop where
  offers : e.rules.Offers e.registry routes
  respond : e.registry.contains Requesting.respondAction = true
  depth : 2 ≤ e.limits.maxDepth
  actions : 3 ≤ e.limits.maxActions

namespace Engine.Serves

variable {e : Engine ι} {routes : List Route} {route : Route} {root call response : Record}
  {request : String} {cause : Cause}

lemma tidy (h : e.Serves routes) : e.rules.Tidy := by
  refine ⟨h.offers.nodup_names, ?_⟩
  intro rule hrule
  obtain ⟨route, -, rfl | ⟨x, -, rfl⟩⟩ := h.offers.mem_rules_iff.1 hrule
  · exact Route.sound_requestRule
  · exact Route.sound_answerRule _ _

/-- A request causes the call of the action of the route that takes it. -/
lemma exists_call (h : e.Serves routes) (hroute : route ∈ routes) (hroot : root.Requests request)
    (hdepth : root.depth = 0) (htakes : route.Takes root.input) :
    e.Free [root] root [] ∧ ∃ cause, e.under [root] root = [cause] ∧
      cause.firing.rule = route.requestRule.name ∧
      ∀ call, root.seq < call.seq → cause.Explains call → route.Follows root call request ∧
        call.input = root.input.filterKeys (· ∈ route.inputs) ∧ call.depth = 1 := by
  obtain ⟨m, hm, hbinding⟩ := h.offers.completedBy_request hroute hroot htakes
  constructor
  · rw [Engine.Free, hm, List.forall_mem_singleton, Blocked, hdepth]
    rintro (hlt | hmem)
    · exact absurd h.depth (UInt32.not_le.2 (UInt32.lt_trans hlt (by decide)))
    · cases hmem
  have hunder := Engine.under_of_completedBy_singleton hm rfl
    (h.offers.compatible.declared route hroute)
  refine ⟨_, hunder, rfl, ?_⟩
  intro call hlater hexplains
  refine ⟨⟨hroot, htakes.path, h.offers.compatible.concept route hroute, hexplains.action, hlater⟩,
    Route.args_eq_of_resolve_requestRule hexplains.input hbinding, ?_⟩
  rw [hexplains.depth, hdepth]
  rfl

/-- A call whose output is answered causes the response. -/
lemma exists_response (h : e.Serves routes) (hroute : route ∈ routes)
    (hfollows : route.Follows root call request) (hdepth : call.depth = 1) {f : Firing}
    (hf : f.rule = route.requestRule.name) {x : String × List String} (hx : x ∈ route.answers)
    (hanswers : Route.Answers call.output x.2) :
    e.Free [root, call] call [f] ∧ ∃ cause, e.under [root, call] call = [cause] ∧
      ∀ response, cause.Explains response →
        response.Responds request (call.output.filterKeys (· ∈ x.2)) := by
  obtain ⟨m, hm, hrequest, hbinding⟩ := h.offers.completedBy_call hroute hfollows hx hanswers
  constructor
  · rw [Engine.Free, hm, List.forall_mem_singleton, Blocked, hdepth]
    rintro (hlt | hmem)
    · exact absurd h.depth (UInt32.not_le.2 hlt)
    -- the two rules have different names, so the chain has no firing of this one
    obtain ⟨hname, -⟩ := Firing.keyOf_inj (List.mem_singleton.1 hmem)
    have hrequestRule : route.requestRule ∈ e.rules.rules :=
      h.offers.mem_rules_iff.2 ⟨route, hroute, Or.inl rfl⟩
    have hanswerRule : route.answerRule x.1 x.2 ∈ e.rules.rules :=
      h.offers.mem_rules_iff.2 ⟨route, hroute, Or.inr ⟨x, hx, rfl⟩⟩
    have heq := List.inj_on_of_nodup_map h.offers.nodup_names hanswerRule hrequestRule
      (hname.trans hf)
    cases congrArg (·.conditions.length) heq
  · refine ⟨_, Engine.under_of_completedBy_singleton hm rfl h.respond, ?_⟩
    intro response hexplains
    obtain ⟨haddressee, hpayload⟩ := Route.args_of_resolve_answerRule
      (h.offers.compatible.notMem_of_mem_answers hroute hx) hexplains.input hrequest hbinding
    exact ⟨hexplains.action, haddressee, hpayload⟩

section Report

variable {id : String} {report : Report}

/-- A request that no route takes stays alone. -/
theorem records_of_not_takes (h : e.Serves routes)
    (hcourse : Course e id report.records (.standing (.over report)))
    (hnone : ∀ route ∈ routes, ¬ route.Takes report.root.input) :
    report.failure = none ∧ report.records = [report.root] := by
  obtain ⟨below, hrecords⟩ := List.head?_eq_some_iff.1 hcourse.tracks.2.1
  exact hcourse.ends_of_thread h.tidy hrecords (Engine.thread_root e _)
    (h.offers.completedBy_request_eq_nil hnone)

/-- A request that a route takes is followed by the call of the route's action. -/
lemma exists_records_of_takes (h : e.Serves routes) (hroute : route ∈ routes)
    (hcourse : Course e id report.records (.standing (.over report)))
    (hroot : report.root.Requests request) (htakes : route.Takes report.root.input) :
    ∃ call rest f, report.records = [report.root, call] ++ rest ∧
      route.Follows report.root call request ∧
      call.input = report.root.input.filterKeys (· ∈ route.inputs) ∧ call.depth = 1 ∧
      f.rule = route.requestRule.name ∧ e.Thread [report.root, call] call [f] := by
  obtain ⟨below, hrecords⟩ := List.head?_eq_some_iff.1 hcourse.tracks.2.1
  have hdepth := (hcourse.root_eq hcourse.tracks.2.1).1
  obtain ⟨hfree, cause, hunder, hrule, hcall⟩ := h.exists_call hroute hroot hdepth htakes
  have hbudget : 1 < e.limits.maxActions := Nat.lt_of_lt_of_le (by decide) h.actions
  obtain ⟨call, rest, hrecords, hlater, hexplains, hthread⟩ := hcourse.exists_next_of_thread h.tidy
    hrecords (Engine.thread_root e _) hfree hunder hbudget
  obtain ⟨hfollows, hinput, hdepth⟩ := hcall call hlater hexplains
  exact ⟨call, rest, cause.firing, hrecords, hfollows, hinput, hdepth, hrule, hthread⟩

/-- A call that the route answers is followed by the response, and nothing else. -/
lemma records_of_answers (h : e.Serves routes) (hroute : route ∈ routes)
    (hcourse : Course e id report.records (.standing (.over report))) {rest : List Record}
    (hrecords : report.records = [root, call] ++ rest) {f : Firing}
    (hf : f.rule = route.requestRule.name) (hthread : e.Thread [root, call] call [f])
    (hfollows : route.Follows root call request) (hdepth : call.depth = 1)
    {x : String × List String} (hx : x ∈ route.answers) (hanswers : Route.Answers call.output x.2) :
    report.failure = none ∧ ∃ response, report.records = [root, call, response] ∧
      response.Responds request (call.output.filterKeys (· ∈ x.2)) := by
  obtain ⟨hfree, cause, hunder, hresponse⟩ :=
    h.exists_response hroute hfollows hdepth hf hx hanswers
  obtain ⟨response, rest, hrecords, -, hexplains, hthread⟩ :=
    hcourse.exists_next_of_thread h.tidy hrecords hthread hfree hunder h.actions
  have hresponds := hresponse response hexplains
  obtain ⟨hfailure, hrecords⟩ := hcourse.ends_of_thread h.tidy hrecords hthread
    (h.offers.completedBy_respond hresponds.action)
  exact ⟨hfailure, response, hrecords, hresponds⟩

/-- A request that a route takes leads to one call, and the call to the route's answer. -/
theorem records_of_takes (h : e.Serves routes) (hroute : route ∈ routes)
    (hcourse : Course e id report.records (.standing (.over report)))
    (hroot : report.root.Requests request) (htakes : route.Takes report.root.input) :
    report.failure = none ∧ ∃ call, call.action = route.action ∧
      call.input = report.root.input.filterKeys (· ∈ route.inputs) ∧
      (route.payload? call.output = none → report.records = [report.root, call]) ∧
      ∀ payload, route.payload? call.output = some payload →
        ∃ response, report.records = [report.root, call, response] ∧
          response.Responds request payload := by
  obtain ⟨call, rest, f, hrecords, hfollows, hinput, hdepth, hf, hthread⟩ :=
    h.exists_records_of_takes hroute hcourse hroot htakes
  have herror := h.offers.compatible.error route hroute
  by_cases hanswered : ∃ x ∈ route.answers, Route.Answers call.output x.2
  · obtain ⟨x, hx, hanswers⟩ := hanswered
    obtain ⟨hfailure, response, hresponse, hresponds⟩ :=
      h.records_of_answers hroute hcourse hrecords hf hthread hfollows hdepth hx hanswers
    have hpayload := Route.payload?_eq_some herror hx hanswers
    refine ⟨hfailure, call, hfollows.action, hinput, fun hnone => ?_, fun payload hsome => ?_⟩
    · rw [hpayload] at hnone
      cases hnone
    · rw [hpayload] at hsome
      cases hsome
      exact ⟨response, hresponse, hresponds⟩
  · simp only [not_exists, not_and] at hanswered
    obtain ⟨hfailure, halone⟩ := hcourse.ends_of_thread h.tidy hrecords hthread
      (h.offers.completedBy_call_eq_nil hroute hfollows hanswered)
    have hpayload := Route.payload?_eq_none herror hanswered
    refine ⟨hfailure, call, hfollows.action, hinput, fun _ => halone, fun payload hsome => ?_⟩
    rw [hpayload] at hsome
    cases hsome

end Report

end Engine.Serves

/-! ### A bakery -/

namespace Bakery

/-- An oven bakes bread of dough. -/
def oven : Concept where
  interface := [⟨"bake", ["dough"], ["bread"]⟩]
  perform
    | "bake", input => .succeed (KeyMap.singleton "bread" ((input.get? "dough").getD .null))
    | other, _ => .fail (.unknownAction other)

def registry : Registry Concept where
  concepts := KeyMap.ofList
    [(Requesting.conceptName, ⟨Requesting.interface, Requesting.concept⟩),
      ("Oven", ⟨oven.interface, oven⟩)]

lemma registered_registry : registry.Registered :=
  have requesting : Registry.empty.register Requesting.conceptName Requesting.interface
    Requesting.concept = .ok { concepts := KeyMap.ofList [(Requesting.conceptName, _)] } := rfl
  have oven : Registry.register _ "Oven" oven.interface oven = .ok registry := rfl
  .register (.register .empty requesting) oven

/-- Bread is offered for dough. -/
def bake : Route := ⟨⟨"Oven", "bake"⟩, ["dough"], ["bread"]⟩

lemma compatible_bake : Route.Compatible registry.contains [bake] := by
  constructor <;> decide

/-- An engine with the rules of the route, whose limits a request just keeps. -/
def engine : Engine Concept where
  limits := ⟨2, 3⟩
  registry := registry
  rules := (({} : RuleTable).install registry.contains ([bake].flatMap Route.rules)).1
  log := { capacity := 4 }

/-- The identifier of the request. -/
def request : String := "00000000-0000-4000-8000-000000000002"

/-- What the request leaves behind. -/
def left : Resources := { drawn := 2, slots := ({} : Slots).request request }

lemma run_request :
    Requesting.request.run { drawn := 1 } = (.finished (.ok (Requesting.named request)), left) := by
  have hid : Resources.idText 2 = request := by decide
  rw [left, ← hid]
  rfl

/-- Bread is ordered. -/
def order : Fields := KeyMap.ofList [("path", .str bake.action.path), ("dough", .str "rye")]

lemma takes_order : bake.Takes order := ⟨rfl, by decide⟩

/-- The bread is baked, and the response comes to the output. -/
def events (output : Fields) : List Event :=
  .begin "a" Requesting.requestAction order ::
    ([Requesting.named request, KeyMap.singleton "bread" (.str "rye"), output].flatMap fun output =>
      [.move "a" (.answer output ⟨10⟩), .move "a" .observe, .move "a" .proceed])

def traffic (output : Fields) : Traffic Concept :=
  ((Traffic.idle engine).run (events output)).getD (.idle engine)

/-- What the burst of the order was. -/
def report (output : Fields) : Report := ((traffic output).report? "a").get rfl

lemma run_events (output : Fields) :
    (Traffic.idle engine).run (events output) = some (traffic output) := rfl

lemma report?_traffic (output : Fields) :
    (traffic output).report? "a" = some (report output) := (Option.some_get _).symm

def call : Record :=
  ⟨2, "a", 1, ⟨"Oven", "bake"⟩, KeyMap.singleton "dough" (.str "rye"),
    KeyMap.singleton "bread" (.str "rye"), some bake.requestRule.name, ⟨10⟩⟩

def response (output : Fields) : Record :=
  ⟨3, "a", 2, Requesting.respondAction,
    KeyMap.ofList [("request", .str request), ("bread", .str "rye")], output,
    some bake.responseRule.name, ⟨10⟩⟩

lemma recordsOf_traffic (output : Fields) :
    (traffic output).recordsOf "a" = [(report output).root, call, response output] := rfl

/-- What the calls of the burst found. -/
def found (later : Resources) (seq : Nat) : Resources := if seq = 1 then { drawn := 1 } else later

lemma performed {output : Fields} {later : Resources}
    (h : Requesting.Performed (response output) later) :
    ∀ r ∈ (traffic output).recordsOf "a", r.action.concept = Requesting.conceptName →
      Requesting.Performed r (found later r.seq) := by
  rw [recordsOf_traffic]
  simp only [List.forall_mem_cons, List.not_mem_nil, false_implies, implies_true, and_true]
  refine ⟨fun _ => ⟨_, congrArg Prod.fst run_request, rfl⟩, fun hconcept => ?_, fun _ => h⟩
  exact absurd hconcept (by decide)

end Bakery

namespace Traffic

/--
On an engine with the rules of compatible routes and no others, a request that a route takes leads
to one call of the route's action, with exactly the fields that it takes. If the route answers the
call's output, one response to the request follows, with exactly what goes back, and nothing else;
it succeeds if it finds open the slot that the request opened, and else it is refused. A request
that no route takes stays alone. No such burst fails.
-/
theorem answers_request {e : Engine Concept} {s : Traffic Concept} {events : List Event}
    {id : String} {report : Report} {routes : List Route} {found : Nat → Resources}
    (hregistered : e.registry.Registered)
    (hrequesting : e.registry.concepts.get? Requesting.conceptName =
      some ⟨Requesting.interface, Requesting.concept⟩)
    (hroutes : Route.Compatible e.registry.contains routes)
    (hrules : e.rules =
      (({} : RuleTable).install e.registry.contains (routes.flatMap Route.rules)).1)
    (hdepth : 2 ≤ e.limits.maxDepth) (hactions : 3 ≤ e.limits.maxActions)
    (hrun : (idle e).run events = some s) (hreport : s.report? id = some report)
    (hroot : report.root.action = Requesting.requestAction)
    (hperformed : ∀ r ∈ s.recordsOf id, r.action.concept = Requesting.conceptName →
      Requesting.Performed r (found r.seq)) :
    report.failure = none ∧ ∃ request, report.root.output = Requesting.named request ∧
      (Requesting.request.run (found report.root.seq)).2.slots.Open request ∧
      (∀ route ∈ routes, route.Takes report.root.input → ∃ call, call.action = route.action ∧
        call.input = report.root.input.filterKeys (· ∈ route.inputs) ∧
        (route.payload? call.output = none → s.recordsOf id = [report.root, call]) ∧
        ∀ payload, route.payload? call.output = some payload → ∃ response,
          s.recordsOf id = [report.root, call, response] ∧ response.Responds request payload ∧
          ((found response.seq).slots.Open request → response.output = Requesting.named request) ∧
          (¬ (found response.seq).slots.Open request → response.isError = true)) ∧
      ((∀ route ∈ routes, ¬ route.Takes report.root.input) → s.recordsOf id = [report.root]) := by
  have hcourse := course_of_report? hrun hreport
  rw [← records_of_report? hrun hreport] at hperformed ⊢
  have hrequest : e.registry.contains Requesting.requestAction = true := by
    rw [Registry.contains, Registry.lookup?_eq, Requesting.requestAction, hrequesting]
    rfl
  have hrespond : e.registry.contains Requesting.respondAction = true := by
    rw [Registry.contains, Registry.lookup?_eq, Requesting.respondAction, hrequesting]
    rfl
  have hserves : e.Serves routes := by
    refine ⟨⟨hregistered, hroutes, ?_⟩, hrespond, hdepth, hactions⟩
    rw [hrules]
    exact hroutes.rules_install hrequest hrespond
  have hmem : report.root ∈ report.records := List.mem_of_mem_head? hcourse.tracks.2.1
  obtain ⟨request, hrequests, hopen⟩ :=
    (hperformed _ hmem (congrArg ActionRef.concept hroot)).requests hroot
  refine ⟨?_, request, hrequests.output, hopen, ?_, ?_⟩
  · by_cases htakes : ∃ route ∈ routes, route.Takes report.root.input
    · obtain ⟨route, hroute, htakes⟩ := htakes
      exact (hserves.records_of_takes hroute hcourse hrequests htakes).1
    · simp only [not_exists, not_and] at htakes
      exact (hserves.records_of_not_takes hcourse htakes).1
  · intro route hroute htakes
    obtain ⟨-, call, haction, hinput, hnone, hsome⟩ :=
      hserves.records_of_takes hroute hcourse hrequests htakes
    refine ⟨call, haction, hinput, hnone, ?_⟩
    intro payload hpayload
    obtain ⟨response, hrecords, hresponds⟩ := hsome payload hpayload
    refine ⟨response, hrecords, hresponds, ?_⟩
    have hresponse : response ∈ report.records := by simp [hrecords]
    exact (hperformed _ hresponse (congrArg ActionRef.concept hresponds.action)).responds
      hresponds.action hresponds.addressee
  · exact fun hnone => (hserves.records_of_not_takes hcourse hnone).2

theorem answers_request_bakery :
    let output := Requesting.named Bakery.request
    ∃ request response, (Bakery.report output).root.output = Requesting.named request ∧
      (Bakery.traffic output).recordsOf "a" =
        [(Bakery.report output).root, Bakery.call, response] ∧
      response.Responds request (KeyMap.singleton "bread" (.str "rye")) ∧
      response.output = output := by
  intro output
  have hresponse : Requesting.Performed (Bakery.response output) Bakery.left :=
    ⟨.ok (Requesting.named Bakery.request), rfl, rfl⟩
  obtain ⟨-, request, houtput, -, hroutes, -⟩ :=
    answers_request Bakery.registered_registry rfl Bakery.compatible_bake rfl (by decide)
      (by decide) (Bakery.run_events output) (Bakery.report?_traffic output) rfl
      (Bakery.performed hresponse)
  obtain ⟨call, -, -, hnone, hsome⟩ :=
    hroutes Bakery.bake (List.mem_singleton_self _) Bakery.takes_order
  rw [Bakery.recordsOf_traffic] at hnone hsome
  cases hpayload : Bakery.bake.payload? call.output with
  | none => cases hnone hpayload
  | some payload =>
    obtain ⟨response, hrecords, hresponds, -⟩ := hsome payload hpayload
    cases hrecords
    cases hpayload
    exact ⟨request, _, houtput, Bakery.recordsOf_traffic output, hresponds, rfl⟩

/--
Not every response succeeds: if the request is abandoned while the action is under way, the response
finds no slot.
-/
theorem not_forall_response_succeeds : ¬ ∀ (e : Engine Concept) (s : Traffic Concept)
    (events : List Event) (id : String) (report : Report) (routes : List Route)
    (found : Nat → Resources) (route : Route) (call : Record) (payload : Fields),
    e.registry.Registered → e.registry.concepts.get? Requesting.conceptName =
      some ⟨Requesting.interface, Requesting.concept⟩ →
    Route.Compatible e.registry.contains routes → e.rules =
      (({} : RuleTable).install e.registry.contains (routes.flatMap Route.rules)).1 →
    2 ≤ e.limits.maxDepth → 3 ≤ e.limits.maxActions →
    (idle e).run events = some s → s.report? id = some report →
    report.root.action = Requesting.requestAction →
    (∀ r ∈ s.recordsOf id, r.action.concept = Requesting.conceptName →
      Requesting.Performed r (found r.seq)) →
    route ∈ routes → route.Takes report.root.input → call ∈ s.recordsOf id →
    call.action = route.action → route.payload? call.output = some payload →
    ∃ r ∈ s.recordsOf id, r.action = Requesting.respondAction ∧ r.isError = false := by
  intro h
  let output := errorOutput (RespondError.unknownRequest Bakery.request).message
  let slots := Bakery.left.slots.abandon Bakery.request
  have hrefused : Requesting.Performed (Bakery.response output) { Bakery.left with slots } :=
    ⟨.ok output, rfl, rfl⟩
  obtain ⟨r, hr, haction, hsuccess⟩ := h Bakery.engine (Bakery.traffic output)
    (Bakery.events output) "a" (Bakery.report output) [Bakery.bake]
    (Bakery.found { Bakery.left with slots }) Bakery.bake Bakery.call
    (KeyMap.singleton "bread" (.str "rye")) Bakery.registered_registry rfl Bakery.compatible_bake
    rfl (by decide) (by decide) (Bakery.run_events output) (Bakery.report?_traffic output) rfl
    (Bakery.performed hrefused) (List.mem_singleton_self _) Bakery.takes_order
    (by simp [Bakery.recordsOf_traffic]) rfl rfl
  simp only [Bakery.recordsOf_traffic, List.mem_cons, List.not_mem_nil, or_false] at hr
  rcases hr with rfl | rfl | rfl
  · have hroot : Requesting.requestAction = Requesting.respondAction := haction
    exact absurd hroot (by decide)
  · exact absurd haction (by decide)
  · cases hsuccess

end Traffic

end Synchrony
