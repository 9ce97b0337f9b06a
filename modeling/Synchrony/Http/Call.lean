import Synchrony.Config
import Synchrony.Host
import Synchrony.Http.Response
import Synchrony.Http.Target
import Synchrony.Value.Reader

/-!
# Calls of the server

A call on a listed path invokes its action directly and returns the action's output. Every other
call becomes a request: its burst goes on in the background, and the call ends with the response, with
the failure of the burst if that comes first and the burst gave no response, or when the time is up.
However a call ends, the slot of its request is forgotten.
-/

namespace Synchrony.Http

/-! ### Bodies -/

/-- Whether an octet is an ASCII blank. -/
def isBlankOctet (b : UInt8) : Bool := b = 32 || b = 9 || b = 10 || b = 12 || b = 13

/-- The fields of a body: a JSON object, or nothing but blanks. -/
def bodyFields (body : List UInt8) : Except ServerError Fields :=
  if body.all isBlankOctet then .ok .empty
  else
    match (utf8Text? body).bind Value.ofText? with
    | some (.obj entries) => .ok (KeyMap.ofList entries)
    | some _ => .error (.badRequest "request body must be a JSON object")
    | none => .error (.badRequest "invalid JSON body")

/-! ### Calls in progress -/

/-- Where a call stands until it is answered. -/
inductive Call where
  | directOpening (o : Opening)
  | direct (running : Running)
  | opening (o : Opening)
  | waiting (task : Nat) (a : Await)
  | settling (a : Await)

/-- What a waiting call looks at first; whichever it is, the other one follows. -/
inductive Order where
  | response
  | burst
deriving DecidableEq

namespace Call

/-- When an opening goes on by itself. -/
def openingAlarm? : Opening → Option Nat
  | .calling _ _ _ wake _ _ => some wake
  | .opened _ => none

/-- When a call goes on by itself. -/
def alarm? : Call → Option Nat
  | directOpening o => openingAlarm? o
  | direct (.calling _ _ _ wake _ _) => some wake
  | direct (.over _) => none
  | opening o => openingAlarm? o
  | waiting _ a => some a.deadline
  | settling a => some a.deadline

/-- The answer of a direct invocation. -/
def directAnswer (report : Report) : Response :=
  match report.failure with
  | some failure => (ServerError.burst failure).response
  | none => .ok report.root.output

/-- The answer for the outcome of waiting. -/
def awaited : Except RequestError Fields → Response
  | .ok payload => .ok payload
  | .error e => (ServerError.request e).response

/-- Whether a burst gave the response to a request. -/
def responded (report : Report) (request : String) : Bool :=
  (report.recordsOf Requesting.respondAction).any fun r =>
    !r.isError && r.input.string? Requesting.requestField = some request

/-- Goes on with a direct invocation. -/
def pollDirect (h : Host) : Running × World → Poll Call Response × Host
  | (.over report, world) => (.ready (directAnswer report), { h with world })
  | (running, world) => (.pending (.direct running), { h with world })

/-- Goes on with the stimulus of a direct invocation. -/
def pollDirectOpening (h : Host) : Opening × World → Poll Call Response × Host
  | (.opened b, world) => pollDirect h (world.startBurst b)
  | (o, world) => (.pending (.directOpening o), { h with world })

/-- The failure of a burst, unless the burst gave the response to a request. -/
def failureFor (report : Report) (request : String) : Option BurstFailure :=
  if responded report request then none else report.failure

/-- The report of a burst in the background that is over. -/
def reportOf? (h : Host) (task : Nat) : Option Report :=
  match h.outcome? task with
  | some (.report report) => some report
  | _ => none

/-- Looks for the response; with an outcome, the call ends. -/
def pollResponse (timeUp : Bool) (h : Host) (a : Await) : Option (Poll Call Response × Host) :=
  (h.world.pollAwait a timeUp).map fun (outcome, world) =>
    (.ready (awaited outcome), { h with world := world.abandon a.request })

/-- Waits for the response alone. -/
def pollSettling (timeUp : Bool) (h : Host) (a : Await) : Poll Call Response × Host :=
  (pollResponse timeUp h a).getD (.pending (.settling a), h)

/-- Looks for the end of the burst; after it, only the response can still come. -/
def pollBurst (timeUp : Bool) (h : Host) (task : Nat) (a : Await) :
    Option (Poll Call Response × Host) :=
  (reportOf? h task).map fun report =>
    match failureFor report a.request with
    | some failure =>
      (.ready (ServerError.burst failure).response,
        { h with world := (h.world.stopAwait a).abandon a.request })
    | none => pollSettling timeUp h a

/-- Waits for the response and for the end of the burst. -/
def pollWaiting (order : Order) (timeUp : Bool) (h : Host) (task : Nat) (a : Await) :
    Poll Call Response × Host :=
  match order with
  | .response =>
    ((pollResponse timeUp h a).or (pollBurst timeUp h task a)).getD (.pending (.waiting task a), h)
  | .burst =>
    ((pollBurst timeUp h task a).or (pollResponse timeUp h a)).getD (.pending (.waiting task a), h)

/-- Begins to wait and waits. -/
def beginWaiting (order : Order) (timeUp : Bool) (timeoutMs : Nat) (h : Host) (task : Nat)
    (request : String) : Poll Call Response × Host :=
  match h.world.beginAwait 0 request timeoutMs with
  | .ok (a, world) => pollWaiting order timeUp { h with world } task a
  | .error e => (.ready (ServerError.request e).response, { h with world := h.world.abandon request })

/-- Looks at a call for the first time whose burst went to the background. -/
def pollStarted (order : Order) (timeUp : Bool) (timeoutMs : Nat) (h : Host) (task : Nat)
    (request : String) : Poll Call Response × Host :=
  match order with
  | .response => beginWaiting order timeUp timeoutMs h task request
  | .burst =>
    match (reportOf? h task).bind (failureFor · request) with
    | some failure =>
      (.ready (ServerError.burst failure).response, { h with world := h.world.abandon request })
    | none => beginWaiting order timeUp timeoutMs h task request

/-- Goes on with the stimulus of a request; once it is open, its burst goes to the background. -/
def pollOpening (timeoutMs : Nat) (h : Host) : Opening × World → Poll Call Response × Host
  | (.opened b, world) =>
    let h := { h with world }
    match b.root.output.string? Requesting.requestField with
    | none =>
      (.ready (ServerError.internal "Requesting.request returned no request id").response, h)
    | some request =>
      let (task, h) := h.spawn (.opened b)
      pollStarted .response (timeoutMs = 0) timeoutMs h task request
  | (o, world) => (.pending (.opening o), { h with world })

/-- Lets a call go on. -/
def poll (timeoutMs : Nat) (h : Host) : Call → Poll Call Response × Host
  | directOpening o => pollDirectOpening h (h.world.resumeOpening o)
  | direct running => pollDirect h (h.world.resume running)
  | opening o => pollOpening timeoutMs h (h.world.resumeOpening o)
  | waiting task a => pollWaiting .response (h.world.timeUp a) h task a
  | settling a => pollSettling (h.world.timeUp a) h a

/-- Drops a call that its caller gave up. -/
def drop (h : Host) : Call → Host
  | waiting _ a => { h with world := (h.world.stopAwait a).abandon a.request }
  | settling a => { h with world := (h.world.stopAwait a).abandon a.request }
  | _ => h

/-- The path that a call names: what stands below the base, with one slash in front. -/
def pathOf (rest : String) : String :=
  "/" ++ String.ofList (rest.toList.dropWhile (· = '/'))

/-- Begins a call on a path. -/
def begin (config : RequestingConfig) (h : Host) (path : String) (body : List UInt8) :
    Poll Call Response × Host :=
  match bodyFields body with
  | .error e => (.ready e.response, h)
  | .ok input =>
    match config.passthroughAction? path with
    | some action =>
      match h.world.begin action input with
      | .error e => (.ready (ServerError.registry e).response, h)
      | .ok opened => pollDirectOpening h opened
    | none =>
      match h.world.begin Requesting.requestAction (input.insert "path" (.str path)) with
      | .error e => (.ready (ServerError.registry e).response, h)
      | .ok opened => pollOpening config.timeoutMs.toNat h opened

end Call

/-! ### Requests and clients -/

/-- A request to the server; the client may give up after some time. -/
structure Request where
  method : String
  uri : Uri
  body : List UInt8
  patience : Option Nat

/-- Where a client stands: its request is not sent yet, or it waits, or it is done. -/
inductive Client where
  | fresh (request : Request)
  | calling (call : Call) (giveUp : Option Nat)
  | done (response : Option Response)

namespace Client

/-- The most recent records, as the server shows them. -/
def history (h : Host) (limit : Nat) : Response :=
  .ok (KeyMap.singleton "records"
    (.arr ((h.world.engine.log.recent limit).map Record.toValue)))

/-- Hands a request to the server. -/
def send (config : RequestingConfig) (h : Host) (r : Request) : Poll Call Response × Host :=
  match Target.of config.trimmedBase r.method r.uri with
  | .options => (.ready (.plain 200), h)
  | .methodNotAllowed => (.ready (.plain 405), h)
  | .notFound => (.ready (.plain 404), h)
  | .health => (.ready (.ok (KeyMap.singleton "status" (.str "ok"))), h)
  | .history query =>
    match queryLimit query with
    | .error () => (.ready (.plain 400), h)
    | .ok limit => (.ready (history h (limit.getD 50)), h)
  | .entry rest =>
    match utf8Text? (percentDecode rest) with
    | none => (.ready (.plain 400), h)
    | some rest => Call.begin config h (Call.pathOf rest) r.body

/-- The response as a client sees it: that to `HEAD` has no body. -/
def seen (r : Request) (response : Response) : Response :=
  if r.method = "HEAD" then .plain response.status else response

/-- Keeps a call that has to wait, unless its client gives up. -/
def keep (h : Host) (giveUp : Option Nat) (call : Call) : Client × Host :=
  match giveUp with
  | some time =>
    if time ≤ h.world.resources.now then (.done none, call.drop h)
    else (.calling call giveUp, h)
  | none => (.calling call giveUp, h)

/-- Lets a client go on. -/
def step (config : RequestingConfig) (h : Host) : Client → Client × Host
  | fresh r =>
    match send config h r with
    | (.ready response, h) => (.done (some (seen r response)), h)
    | (.pending call, h) => keep h (r.patience.map (h.world.resources.now + ·)) call
  | calling call giveUp =>
    match call.poll config.timeoutMs.toNat h with
    | (.ready response, h) => (.done (some response), h)
    | (.pending call, h) => keep h giveUp call
  | done response => (.done response, h)

/-- When a client goes on by itself. -/
def alarm? : Client → Option Nat
  | calling call giveUp => Host.earlier? call.alarm? giveUp
  | _ => none

/-- Lets clients go on, one after the other. -/
def stepAll (config : RequestingConfig) : Host → List Client → List Client × Host
  | h, [] => ([], h)
  | h, c :: cs =>
    let (c, h) := c.step config h
    let (cs, h) := stepAll config h cs
    (c :: cs, h)

/-- The responses of clients that are all done. -/
def responses? : List Client → Option (List (Option Response))
  | [] => some []
  | .done r :: cs => (responses? cs).map (r :: ·)
  | _ :: _ => none

/-- Lets clients go on until all of them are done. -/
def pollAll (config : RequestingConfig) (h : Host) (cs : List Client) :
    Poll (List Client) (List (Option Response)) × Host :=
  let (cs, h) := stepAll config h cs
  match responses? cs with
  | some rs => (.ready rs, h)
  | none => (.pending cs, h)

/-- Sends requests together and waits for all responses; a client that gave up has none. -/
def exchange (config : RequestingConfig) (h : Host) (requests : List Request) :
    List (Option Response) × Host :=
  let alarm (cs : List Client) := cs.foldl (fun t c => Host.earlier? t c.alarm?) none
  match h.block (pollAll config) alarm (requests.map .fresh) with
  | (some rs, h) => (rs, h)
  | (none, h) => ([], h)

end Client

end Synchrony.Http
