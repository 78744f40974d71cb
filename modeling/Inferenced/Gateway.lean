import Inferenced.Arbiter
import Inferenced.Varlink.Protocol

/-!
# The HTTP gateway (crates/inferenced-daemon/src/gateway/handlers.rs)

The two handlers that lease memory. A handler runs from one await point to the
next: it waits for the state lock in `get_model`, in `acquire_lease` and in
`release_lease`, and in between it runs to the next of these without a pause.
The server may drop it at any of the three. A streaming answer is produced by
a task of its own, which the server does not own.
-/

namespace Inferenced.Gateway
open Lib Arbiter Varlink

/-- `check_auth` (handlers.rs:23-29); the header is `none` if it is missing or
no text. -/
def checkAuth (authorization apiToken : Option String) : Bool :=
  match apiToken with
  | none => true
  | some expected =>
    match authorization with
    | some auth =>
      let auth := auth.toList
      decide (Text.trim ((Text.stripPrefix auth "Bearer ".toList).getD auth) = expected.toList)
    | none => false

inductive Endpoint where
  /-- `/v1/chat/completions`; messages and `stream` are not read. -/
  | chatCompletions (model : String)
  /-- `/api/generate`. -/
  | ollamaGenerate (payload : Json)

inductive Answer where
  | chat
  | whole (prompt : String)
  | stream (prompt : String)
  deriving DecidableEq

/-- What a handler has read off its request. -/
structure Job where
  model : String
  clientUnit : String
  answer : Answer

/-- Reading of the request (handlers.rs:52-53, 109-122). -/
def Endpoint.job : Endpoint → Job
  | .chatCompletions model => { model, clientUnit := "gateway-client", answer := .chat }
  | .ollamaGenerate payload =>
    let model := ((payload.get "model").bind Json.asStr).getD "default"
    let prompt := ((payload.get "prompt").bind Json.asStr).getD ""
    let streamRequested := ((payload.get "stream").bind Json.asBool).getD true
    { model, clientUnit := "ollama-client"
      answer := if streamRequested then .stream prompt else .whole prompt }

def Job.leaseRequest (job : Job) (bytes : UInt64) : LeaseRequest :=
  { priority := .interactive, requiredBytes := bytes, preferredPlane := none
    clientUnit := some job.clientUnit, clientPid := none }

inductive Response where
  | json (status : ℕ) (body : Json)
  /-- A body of type `application/x-ndjson`, fed by the task. -/
  | ndjson (status : ℕ)

/-- What a handler reads from outside while it runs: pressure, iteration order
and lease id as in `CallEnv`, the time, and the id of a chat answer. -/
structure PollEnv extends CallEnv where
  createdAt : String
  chatId : String

def unauthorized : Response := .json 401 (.object [("error", .string "Unauthorized")])

def unavailable (e : Error) : Response := .json 503 (.object [("error", .string e.toString)])

def Job.response (job : Job) (env : PollEnv) : Response :=
  match job.answer with
  | .chat =>
    .json 200 (.object
      [("id", .string ("chatcmpl-" ++ env.chatId)), ("model", .string job.model),
       ("choices", .array [.object
         [("index", .posInt 0),
          ("message", .object
            [("role", .string "assistant"),
             ("content", .string "systemd-inferenced: Model compute slice allocated and verified.")]),
          ("finish_reason", .string "stop")]])])
  | .whole prompt | .stream prompt =>
    .json 200 (.object
      [("model", .string job.model), ("created_at", .string env.createdAt),
       ("response", .string ("systemd-inferenced: processed prompt '" ++ prompt ++ "'")),
       ("done", .bool true), ("total_duration", .posInt 1500000)])

/-! ### The streaming task -/

inductive TaskPhase where
  /-- Sending `token`, with `rest` to follow. -/
  | sending (token : String) (rest : List String)
  | sendingFinal
  | awaitRelease
  deriving DecidableEq

structure StreamTask where
  model : String
  lease : LeaseId
  phase : TaskPhase
  sent : List Json

def StreamTask.spawn (model prompt : String) (lease : LeaseId) : StreamTask :=
  { model, lease, sent := []
    phase := .sending "systemd-inferenced: "
      ["streaming ", "token ", "generation ", "for prompt '" ++ prompt ++ "'."] }

def tokenChunk (model createdAt token : String) : Json :=
  .object [("model", .string model), ("created_at", .string createdAt), ("response", .string token),
    ("done", .bool false)]

def finalChunk (model createdAt : String) : Json :=
  .object [("model", .string model), ("created_at", .string createdAt), ("response", .string ""),
    ("done", .bool true), ("total_duration", .posInt 1500000)]

/-- One send of the task (handlers.rs:180-201); `delivered` says whether the
body still reads. -/
def StreamTask.send (t : StreamTask) (createdAt : String) (delivered : Bool) : StreamTask :=
  match t.phase with
  | .sending token rest =>
    if delivered then
      { t with
        sent := t.sent ++ [tokenChunk t.model createdAt token]
        phase := match rest with
          | [] => .sendingFinal
          | next :: rest => .sending next rest }
    else { t with phase := .sendingFinal }
  | .sendingFinal =>
    { t with
      sent := if delivered then t.sent ++ [finalChunk t.model createdAt] else t.sent
      phase := .awaitRelease }
  | .awaitRelease => t

/-! ### Handlers -/

/-- A handler together with the task it has spawned. -/
inductive HandlerState where
  | awaitModel (job : Job)
  | awaitAcquire (job : Job) (bytes : UInt64) (psi : PressureMetrics)
  | awaitRelease (job : Job) (lease : LeaseId)
  /-- The handler has returned, its task is running. -/
  | streaming (response : Response) (task : StreamTask)
  /-- The handler has returned and no task is running. -/
  | completed (response : Response)
  /-- The server has dropped the handler. -/
  | dropped

/-- A handler and, which the code does not keep, the leases acquired for its
request. -/
structure Handler where
  state : HandlerState
  granted : List LeaseId

structure GatewayState where
  arbiter : ArbiterState
  apiToken : Option String
  handlers : List Handler

def start (topology : HardwareTopology) (apiToken : Option String) : GatewayState :=
  { arbiter := Arbiter.new topology, apiToken, handlers := [] }

inductive GatewayOp where
  | request (authorization : Option String) (endpoint : Endpoint)
  /-- The lock that handler `i` waits for is granted, and it runs on. -/
  | poll (i : ℕ) (env : PollEnv)
  /-- The same for the task of handler `i`. -/
  | pollTask (i : ℕ) (createdAt : String) (delivered : Bool)
  /-- The server drops handler `i` at its await point. -/
  | cancel (i : ℕ)
  /-- Another user of the arbiter. -/
  | other (op : ArbiterOp)
  /-- Another user changes the model registry. -/
  | setRegistry (registry : ModelRegistry)

/-- Arrival of a request: up to the first await point. -/
def GatewayState.arrive (g : GatewayState) (authorization : Option String) (endpoint : Endpoint) : Handler :=
  if checkAuth authorization g.apiToken then { state := .awaitModel endpoint.job, granted := [] }
  else { state := .completed unauthorized, granted := [] }

/-- After `acquire_lease` has returned (handlers.rs:66-79, 135-168). -/
def Handler.acquired (h : Handler) (job : Job) : Except Error ComputeLease → Handler
  | .error e => { h with state := .completed (unavailable e) }
  | .ok lease =>
    { granted := h.granted ++ [lease.id]
      state := match job.answer with
        | .chat | .whole _ => .awaitRelease job lease.id
        | .stream prompt => .streaming (.ndjson 200) (StreamTask.spawn job.model prompt lease.id) }

/-- A handler runs from one await point to the next. `acquire_lease` reads the
pressure before it waits for the lock. -/
def Handler.poll (s : ArbiterState) (env : PollEnv) (h : Handler) : ArbiterState × Handler :=
  match h.state with
  | .awaitModel job =>
    let bytes := ((s.registry.get job.model).map (·.estimatedMemoryBytes)).getD (512 * 1024 * 1024)
    if env.psi.level = .critical then
      (s, { h with state := .completed (unavailable (.busSaturation (busSaturationMessage env.psi))) })
    else (s, { h with state := .awaitAcquire job bytes env.psi })
  | .awaitAcquire job bytes psi =>
    let out := acquireLease s { env.toCallEnv with psi } (job.leaseRequest bytes)
    (out.state, h.acquired job out.result)
  | .awaitRelease job lease =>
    ((releaseLease s lease).state, { h with state := .completed (job.response env) })
  | .streaming _ _ | .completed _ | .dropped => (s, h)

def Handler.pollTask (s : ArbiterState) (createdAt : String) (delivered : Bool) (h : Handler) :
    ArbiterState × Handler :=
  match h.state with
  | .streaming response task =>
    match task.phase with
    | .awaitRelease => ((releaseLease s task.lease).state, { h with state := .completed response })
    | _ => (s, { h with state := .streaming response (task.send createdAt delivered) })
  | _ => (s, h)

def Handler.cancel (h : Handler) : Handler :=
  match h.state with
  | .awaitModel _ | .awaitAcquire _ _ _ | .awaitRelease _ _ => { h with state := .dropped }
  | .streaming _ _ | .completed _ | .dropped => h

def GatewayState.update (g : GatewayState) (i : ℕ) (out : ArbiterState × Handler) : GatewayState :=
  { g with arbiter := out.1, handlers := g.handlers.set i out.2 }

def step (g : GatewayState) : GatewayOp → GatewayState
  | .request authorization endpoint =>
    { g with handlers := g.handlers ++ [g.arrive authorization endpoint] }
  | .poll i env =>
    match g.handlers[i]? with
    | some h => g.update i (h.poll g.arbiter env)
    | none => g
  | .pollTask i createdAt delivered =>
    match g.handlers[i]? with
    | some h => g.update i (h.pollTask g.arbiter createdAt delivered)
    | none => g
  | .cancel i =>
    match g.handlers[i]? with
    | some h => g.update i (g.arbiter, h.cancel)
    | none => g
  | .other op => { g with arbiter := Arbiter.step g.arbiter op }
  | .setRegistry registry => { g with arbiter := { g.arbiter with registry } }

def GatewayOp.newIds : GatewayOp → List LeaseId
  | .poll _ env => [env.newId]
  | .other op => op.newIds
  | _ => []

end Inferenced.Gateway
