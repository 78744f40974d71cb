import Inferenced.Arbiter
import Inferenced.Peer
import Inferenced.Varlink.Service

/-!
# Method handlers (varlink/leases.rs, models.rs, inferenced1.rs)

A handler calls the arbiter at most once in a way that changes it, so a handler
is a function of the arbiter state at that call. `parseUuid` stands for
`Uuid::parse_str`.
-/

namespace Inferenced.Varlink
open Lib Arbiter

structure HandlerEnv extends CallEnv where
  modelOrder : IterOrder ModelDescriptor
  now : ℤ

/-- What a handler leaves behind: the arbiter, the lease list of the connection,
the reply (`none` if there is none), the replies it has written itself and its
kernel effects. -/
structure Handled where
  arbiter : ArbiterState
  activeLeases : List LeaseId
  reply : Option VarlinkReply
  streamed : List VarlinkReply := []
  effects : List KernelEffect := []

/-! ### Names of variants (`{:?}`) -/

def kindName : ComputePlaneKind → String
  | .discreteGpu => "DiscreteGpu"
  | .integratedUma => "IntegratedUma"
  | .npuAccelerator => "NpuAccelerator"
  | .cpuMatrixExtension => "CpuMatrixExtension"

def priorityName : LeasePriority → String
  | .batch => "Batch"
  | .interactive => "Interactive"
  | .emergencyTriage => "EmergencyTriage"

def stateName : LeaseState → String
  | .active => "Active"
  | .preempting => "Preempting"
  | .frozen => "Frozen"
  | .preempted => "Preempted"
  | .revoked => "Revoked"
  | .expired => "Expired"

def levelName : PressureLevel → String
  | .normal => "Normal"
  | .elevated => "Elevated"
  | .critical => "Critical"

def placementName : ModelPlacementState → String
  | .dormant => "Dormant"
  | .staged => "Staged"
  | .resident => "Resident"
  | .pinnedTriage => "PinnedTriage"

/-! ### leases.rs -/

/-- `match prio_str { .. }` (leases.rs:30-34): everything else is
interactive. -/
def priorityOf (prioStr : String) : LeasePriority :=
  if prioStr = "Batch" then .batch
  else if prioStr = "EmergencyTriage" then .emergencyTriage
  else .interactive

/-- The request that `handle_acquire_lease` makes of its parameters and the
verified peer (leases.rs:26-62). -/
def acquireRequest (params : Json) (peerInfo : Option PeerInfo) : LeaseRequest :=
  let priority := priorityOf (((params.get "priority").bind Json.asStr).getD "Interactive")
  let memBytes := ((params.get "memory_bytes").bind Json.asU64).getD (1024 * 1024 * 1024)
  let plane := (params.get "plane").bind Json.asStr
  let unit := (params.get "unit").bind Json.asStr
  let pid := ((params.get "pid").bind Json.asU64).map (·.toUInt32)
  match peerInfo with
  | some peer =>
    { priority := if peer.isBatch then .batch else priority
      requiredBytes := memBytes
      preferredPlane := plane
      clientUnit := some peer.slice
      clientPid := if 0 < peer.pid then some peer.pid else pid }
  | none =>
    { priority, requiredBytes := memBytes, preferredPlane := plane, clientUnit := unit
      clientPid := pid }

/-- `handle_acquire_lease` (leases.rs:10-79). -/
def handleAcquireLease (params : Option Json) (s : ArbiterState) (activeLeases : List LeaseId)
    (peerInfo : Option PeerInfo) (env : HandlerEnv) : Handled :=
  match params with
  | none => { arbiter := s, activeLeases, reply := some (invalidParameter "parameters") }
  | some params =>
    let out := acquireLease s env.toCallEnv (acquireRequest params peerInfo)
    match out.result with
    | .ok lease =>
      { arbiter := out.state
        activeLeases := activeLeases ++ [lease.id]
        reply := some (.ok (.object
          [("lease_id", .string lease.id.toString),
           ("plane_id", .string lease.planeId),
           ("allocated_memory", .posInt lease.allocatedMemoryBytes)]))
        effects := out.effects }
    | .error e =>
      { arbiter := out.state
        activeLeases
        reply := some (.fail "io.systemd.inferenced1.ResourceExhaustion"
          (.object [("error", .string e.toString)]))
        effects := out.effects }

section
variable (parseUuid : String → Option LeaseId)

/-- `parse_lease_id` (leases.rs:136-144). -/
def parseLeaseId (params : Option Json) : Option LeaseId :=
  parseUuid (((params.bind (·.get "lease_id")).bind Json.asStr).getD "")

/-- `handle_release_lease` (leases.rs:81-101). -/
def handleReleaseLease (params : Option Json) (s : ArbiterState) (activeLeases : List LeaseId) :
    Handled :=
  match parseLeaseId parseUuid params with
  | none => { arbiter := s, activeLeases, reply := some (invalidParameter "lease_id") }
  | some leaseId =>
    let out := releaseLease s leaseId
    match out.result with
    | .ok () =>
      { arbiter := out.state
        activeLeases := activeLeases.filter fun id => decide (id ≠ leaseId)
        reply := some (.ok (.object [])) }
    | .error e =>
      { arbiter := out.state
        activeLeases
        reply := some (.fail "io.systemd.inferenced1.LeaseNotFound"
          (.object [("error", .string e.toString)])) }

/-- Common body of `handle_yield`, `handle_freeze` and `handle_thaw`
(leases.rs:103-134): `call` on the lease of the parameters, `errorName` for its
error. -/
def handleLeaseCall (call : ArbiterState → LeaseId → Outcome Unit) (errorName : String)
    (params : Option Json) (s : ArbiterState) (activeLeases : List LeaseId) : Handled :=
  match parseLeaseId parseUuid params with
  | none => { arbiter := s, activeLeases, reply := some (invalidParameter "lease_id") }
  | some leaseId =>
    let out := call s leaseId
    { arbiter := out.state
      activeLeases
      reply := some (match out.result with
        | .ok () => .ok (.object [])
        | .error e => .fail errorName (.object [("error", .string e.toString)]))
      effects := out.effects }

def handleYield (params : Option Json) (s : ArbiterState) (activeLeases : List LeaseId) : Handled :=
  handleLeaseCall parseUuid yieldLease "io.systemd.inferenced1.LeaseNotFound" params s activeLeases

def handleFreeze (params : Option Json) (s : ArbiterState) (activeLeases : List LeaseId) : Handled :=
  handleLeaseCall parseUuid freezeLease "io.systemd.inferenced1.LeaseNotFound" params s activeLeases

def handleThaw (params : Option Json) (s : ArbiterState) (activeLeases : List LeaseId) : Handled :=
  handleLeaseCall parseUuid thawLease "io.systemd.inferenced1.ResourceExhaustion" params s
    activeLeases

end

/-- `handle_list_leases` (leases.rs:146-164). -/
def handleListLeases (s : ArbiterState) (order : IterOrder ComputeLease) : VarlinkReply :=
  .ok (.object [("leases", .array ((order.order s.leases.entries).map fun l => .object
    [("id", .string l.id.toString),
     ("plane_id", .string l.planeId),
     ("allocated_memory", .posInt l.allocatedMemoryBytes),
     ("priority", .string (priorityName l.priority)),
     ("state", .string (stateName l.state)),
     ("client_unit", .ofOption .string l.clientUnit),
     ("client_pid", .ofOption (fun pid => .posInt pid.toUInt64) l.clientPid)]))])

/-! ### models.rs -/

def handleListModels (s : ArbiterState) (order : IterOrder ModelDescriptor) : VarlinkReply :=
  .ok (.object [("models", .array ((order.order s.registry.models.entries).map fun m => .object
    [("id", .string m.id),
     ("format", .string m.format),
     ("path", .string m.path),
     ("estimated_memory", .posInt m.estimatedMemoryBytes),
     ("placement", .string (placementName m.placement))]))])

/-- The descriptor that `handle_register_model` builds (models.rs:38-63). -/
def registeredModel (p : Json) (now : ℤ) : ModelDescriptor :=
  { id := ((p.get "id").bind Json.asStr).getD ""
    format := ((p.get "format").bind Json.asStr).getD "GGUF"
    path := ((p.get "path").bind Json.asStr).getD ""
    estimatedMemoryBytes := ((p.get "estimated_bytes").bind Json.asU64).getD 0
    placement := .dormant
    residentPlaneId := none
    lastAccessed := now
    accessCount := 0
    preferredPlane := none }

/-- `handle_register_model` (models.rs:28-66). -/
def handleRegisterModel (params : Option Json) (s : ArbiterState) (env : HandlerEnv) :
    ArbiterState × VarlinkReply :=
  match params with
  | none => (s, invalidParameter "parameters")
  | some p =>
    ({ s with registry := s.registry.register env.modelOrder (registeredModel p env.now) },
      .ok (.object []))

/-- `p.get(key).or_else(|| p.get(other)).and_then(as_str).unwrap_or("")`. -/
def stringParam (p : Json) (key other : String) : String :=
  (((p.get key).or (p.get other)).bind Json.asStr).getD ""

def modelNotFound (modelId : String) : VarlinkReply :=
  .fail "io.systemd.inferenced1.ModelNotFound" (.object [("model", .string modelId)])

/-- `handle_evict_model` (models.rs:68-96). -/
def handleEvictModel (params : Option Json) (s : ArbiterState) : ArbiterState × VarlinkReply :=
  match params with
  | none => (s, invalidParameter "parameters")
  | some p =>
    let modelId := stringParam p "model" "id"
    if modelId = "" then (s, invalidParameter "model")
    else
      let (removed, registry) := s.registry.remove modelId
      ({ s with registry }, match removed with
        | some _ => .ok (.object [])
        | none => modelNotFound modelId)

/-- `handle_pin_model` (models.rs:98-133). -/
def handlePinModel (params : Option Json) (s : ArbiterState) : ArbiterState × VarlinkReply :=
  match params with
  | none => (s, invalidParameter "parameters")
  | some p =>
    let modelId := stringParam p "model" "id"
    let planeId := stringParam p "plane" "plane_id"
    if modelId = "" ∨ planeId = "" then
      (s, invalidParameter (if modelId = "" then "model" else "plane"))
    else
      let (pinned, registry) := s.registry.pinForTriage modelId planeId
      ({ s with registry }, if pinned then .ok (.object []) else modelNotFound modelId)

/-! ### inferenced1.rs -/

def planeJson (p : ComputePlane) : Json :=
  .object
    [("id", .string p.id),
     ("name", .string p.name),
     ("kind", .string (kindName p.kind)),
     ("total_memory", .posInt p.totalMemoryBytes),
     ("available_memory", .posInt p.availableMemoryBytes),
     ("is_triage_reserved", .bool p.isTriageReserved)]

def handleGetStatus (s : ArbiterState) (psi : PressureMetrics) : VarlinkReply :=
  .ok (.object
    [("status", .string "active"),
     ("version", .string "0.1.0"),
     ("daemon", .string "systemd-inferenced"),
     ("planes_count", .ofNat s.topology.planes.length),
     ("leases_count", .ofNat s.leases.len),
     ("pressure", .string (levelName psi.level))])

def handleListPlanes (s : ArbiterState) : VarlinkReply :=
  .ok (.object [("planes", .array (s.topology.planes.map planeJson))])

def handleGetTopology (s : ArbiterState) : VarlinkReply :=
  .ok (.object
    [("planes", .array (s.topology.planes.map planeJson)),
     ("total_ram", .posInt s.topology.totalSystemRamBytes),
     ("available_ram", .posInt s.topology.availableSystemRamBytes),
     ("cpu_cores", .ofNat s.topology.cpuCoresTotal)])

def handleGetPressure (psi : PressureMetrics) : VarlinkReply :=
  .ok (.object
    [("level", .string (levelName psi.level)),
     ("cpu_some", .float psi.cpuSomeAvg10.json),
     ("memory_some", .float psi.memorySomeAvg10.json),
     ("io_some", .float psi.ioSomeAvg10.json)])

/-- The four chunks of `handle_stream_inference` (inferenced1.rs:117-146). -/
def handleStreamInference (params : Option Json) : List VarlinkReply :=
  let prompt := ((params.bind (·.get "prompt")).bind Json.asStr).getD ""
  let tokens := ["Inference: ", "Analyzing prompt '", prompt,
    "'. Execution dispatched via systemd-inferenced."]
  tokens.zipIdx.map fun (token, i) =>
    .streaming (.object [("chunk", .string token)]) (decide (i < tokens.length - 1))

inductive Method where
  | getStatus
  | listPlanes
  | getTopology
  | getPressure
  | acquireLease
  | releaseLease
  | yield
  | freeze
  | thaw
  | listLeases
  | listModels
  | registerModel
  | evictModel
  | pinModel
  | streamInference
  deriving DecidableEq, Repr

/-- The method behind a name without its interface (inferenced1.rs:22-48). -/
def Method.ofName : String → Option Method
  | "GetStatus" | "GetInfo" => some .getStatus
  | "ListPlanes" | "ListDevices" => some .listPlanes
  | "GetTopology" => some .getTopology
  | "GetPressure" => some .getPressure
  | "AcquireLease" => some .acquireLease
  | "ReleaseLease" => some .releaseLease
  | "Yield" => some .yield
  | "Freeze" | "FreezeLease" => some .freeze
  | "Thaw" | "ThawLease" => some .thaw
  | "ListLeases" => some .listLeases
  | "ListModels" => some .listModels
  | "RegisterModel" => some .registerModel
  | "EvictModel" => some .evictModel
  | "PinModel" => some .pinModel
  | "StreamInference" => some .streamInference
  | _ => none

/-- The method of a qualified name (inferenced1.rs:18-20). -/
def methodOf (method : String) : Option Method :=
  ((Text.stripPrefix method.toList "io.syntrop.Inference1.".toList).or
    (Text.stripPrefix method.toList "io.systemd.inferenced1.".toList)).bind
      fun sub => Method.ofName (String.ofList sub)

/-- The branches of `handle_method`. -/
def runMethod (parseUuid : String → Option LeaseId) (method : Method) (params : Option Json)
    (s : ArbiterState) (activeLeases : List LeaseId) (peerInfo : Option PeerInfo)
    (env : HandlerEnv) : Handled :=
  -- a reply that only reads the state, or changes the registry only
  let plain := fun (out : ArbiterState × VarlinkReply) =>
    ({ arbiter := out.1, activeLeases, reply := some out.2 } : Handled)
  match method with
  | .getStatus => plain (s, handleGetStatus s env.psi)
  | .listPlanes => plain (s, handleListPlanes s)
  | .getTopology => plain (s, handleGetTopology s)
  | .getPressure => plain (s, handleGetPressure env.psi)
  | .acquireLease => handleAcquireLease params s activeLeases peerInfo env
  | .releaseLease => handleReleaseLease parseUuid params s activeLeases
  | .yield => handleYield parseUuid params s activeLeases
  | .freeze => handleFreeze parseUuid params s activeLeases
  | .thaw => handleThaw parseUuid params s activeLeases
  | .listLeases => plain (s, handleListLeases s env.order)
  | .listModels => plain (s, handleListModels s env.modelOrder)
  | .registerModel => plain (handleRegisterModel params s env)
  | .evictModel => plain (handleEvictModel params s)
  | .pinModel => plain (handlePinModel params s)
  | .streamInference =>
    { arbiter := s, activeLeases, reply := none, streamed := handleStreamInference params }

/-- `handle_method` (inferenced1.rs:10-50). -/
def handleMethod (parseUuid : String → Option LeaseId) (method : String) (params : Option Json)
    (s : ArbiterState) (activeLeases : List LeaseId) (peerInfo : Option PeerInfo)
    (env : HandlerEnv) : Handled :=
  match methodOf method with
  | none => { arbiter := s, activeLeases, reply := none }
  | some m => runMethod parseUuid m params s activeLeases peerInfo env

end Inferenced.Varlink
