import Inferenced.Arbiter.Leases
import Inferenced.Varlink.Handlers

/-!
# Connections (varlink/mod.rs)

The daemon is a list of connection tasks around one arbiter. A task reads a
frame, has it handled under the arbiter's lock, writes the reply, and reads
again; a disconnect, a malformed frame or a failed write of a reply ends the
loop, and the task then releases the leases of its list one by one. Tasks
interleave between these steps. A connection also carries the list of the leases
that were ever granted on it, and the daemon the units that it has frozen; the
code keeps neither.
-/

namespace Inferenced.Varlink
open Lib Arbiter

inductive Phase where
  | serving
  | reclaiming
  | finished
  deriving DecidableEq, Repr

structure Conn where
  peer : Option PeerInfo
  /-- `active_leases` of the task; what is left of it while reclaiming. -/
  activeLeases : List LeaseId
  phase : Phase
  /-- What has been written to the client. -/
  sent : List VarlinkReply
  granted : List LeaseId

structure Daemon where
  arbiter : ArbiterState
  conns : List Conn
  frozen : List String

def start (topology : HardwareTopology) : Daemon :=
  { arbiter := Arbiter.new topology, conns := [], frozen := [] }

inductive DaemonOp where
  /-- A client connects. -/
  | accept (peer : Option PeerInfo)
  /-- Task `conn` reads a frame, `none` for one that does not parse, handles it
  and writes the reply. -/
  | frame (conn : ℕ) (request : Option VarlinkRequest) (env : HandlerEnv) (written : Bool)
  /-- Task `conn` reads the end of the stream or fails to read. -/
  | hangup (conn : ℕ)
  /-- One turn of the reclaim loop of task `conn`. -/
  | reclaim (conn : ℕ)

def DaemonOp.newIds : DaemonOp → List LeaseId
  | .frame _ _ env _ => [env.newId]
  | _ => []

variable (parseUuid : String → Option LeaseId)

/-- The dispatch on the method name (mod.rs:56-75). -/
def serve (req : VarlinkRequest) (s : ArbiterState) (activeLeases : List LeaseId)
    (peerInfo : Option PeerInfo) (env : HandlerEnv) : Handled :=
  if req.method = "org.varlink.service.GetInfo" then
    { arbiter := s, activeLeases, reply := some handleGetInfo }
  else if req.method = "org.varlink.service.GetInterfaceDescription" then
    { arbiter := s, activeLeases, reply := some (handleGetInterfaceDescription req.parameters) }
  else handleMethod parseUuid req.method req.parameters s activeLeases peerInfo env

/-- The lease operation that a method stands for. -/
def Method.leaseOp (method : Method) (params : Option Json) (peerInfo : Option PeerInfo)
    (env : HandlerEnv) : Option LeaseOp :=
  match method with
  | .acquireLease => params.map fun p => .acquire env.toCallEnv (acquireRequest p peerInfo)
  | .releaseLease => (parseLeaseId parseUuid params).map .release
  | .yield => (parseLeaseId parseUuid params).map .yield
  | .freeze => (parseLeaseId parseUuid params).map .freeze
  | .thaw => (parseLeaseId parseUuid params).map .thaw
  | _ => none

def VarlinkRequest.leaseOp (req : VarlinkRequest) (peerInfo : Option PeerInfo) (env : HandlerEnv) :
    Option LeaseOp :=
  if req.method = "org.varlink.service.GetInfo" ∨
      req.method = "org.varlink.service.GetInterfaceDescription" then none
  else (methodOf req.method).bind fun m => m.leaseOp parseUuid req.parameters peerInfo env

def grantedIds (s : ArbiterState) : Option LeaseOp → List LeaseId
  | some (.acquire env req) =>
    match (acquireLease s env req).result with
    | .ok lease => [lease.id]
    | .error _ => []
  | _ => []

def frozenUnits (effects : List KernelEffect) : List String :=
  effects.filterMap fun e => match e with
    | .freezeCgroup unit => some unit
    | .cooperativeYieldSignal _ => none

/-- What the task writes for a request (mod.rs:76-88): the frames of a stream and
the reply. A method that no handler answers is reported as not found, unless it
is the stream. -/
def Handled.frames (h : Handled) (method : String) : List VarlinkReply :=
  h.streamed ++ match h.reply with
    | some reply => [reply]
    | none =>
      if Text.contains method.toList "StreamInference".toList then [] else [makeMethodNotFound method]

/-- Task `conn` handles a request (mod.rs:46-90). -/
def Daemon.handle (d : Daemon) (conn : ℕ) (c : Conn) (req : VarlinkRequest) (env : HandlerEnv)
    (written : Bool) : Daemon :=
  let h := serve parseUuid req d.arbiter c.activeLeases c.peer env
  { arbiter := h.arbiter
    conns := d.conns.set conn
      { c with
        activeLeases := h.activeLeases
        -- only a failed write of a reply ends the loop
        phase := if h.reply.isSome && !written then .reclaiming else .serving
        sent := if written then c.sent ++ h.frames req.method else c.sent
        granted := c.granted ++ grantedIds d.arbiter (req.leaseOp parseUuid c.peer env) }
    frozen := d.frozen ++ frozenUnits h.effects }

/-- One turn of the reclaim loop (mod.rs:97-103). -/
def Daemon.reclaimNext (d : Daemon) (conn : ℕ) (c : Conn) : Daemon :=
  match c.activeLeases with
  | [] => { d with conns := d.conns.set conn { c with phase := .finished } }
  | id :: rest =>
    { d with
      arbiter := (releaseLease d.arbiter id).state
      conns := d.conns.set conn { c with activeLeases := rest } }

def step (d : Daemon) : DaemonOp → Daemon
  | .accept peer =>
    { d with conns := d.conns ++ [{ peer, activeLeases := [], phase := .serving, sent := [], granted := [] }] }
  | .frame conn request env written =>
    match d.conns[conn]? with
    | some c =>
      if c.phase = .serving then
        match request with
        | some req => d.handle parseUuid conn c req env written
        | none => { d with conns := d.conns.set conn { c with phase := .reclaiming } }
      else d
    | none => d
  | .hangup conn =>
    match d.conns[conn]? with
    | some c =>
      if c.phase = .serving then { d with conns := d.conns.set conn { c with phase := .reclaiming } }
      else d
    | none => d
  | .reclaim conn =>
    match d.conns[conn]? with
    | some c => if c.phase = .reclaiming then d.reclaimNext conn c else d
    | none => d

/-- The lease operation that a step performs. -/
def Daemon.leaseOp (d : Daemon) : DaemonOp → Option LeaseOp
  | .accept _ | .hangup _ => none
  | .frame conn request env _ =>
    match d.conns[conn]? with
    | some c =>
      if c.phase = .serving then request.bind fun req => req.leaseOp parseUuid c.peer env else none
    | none => none
  | .reclaim conn =>
    match d.conns[conn]? with
    | some c => if c.phase = .reclaiming then c.activeLeases.head?.map .release else none
    | none => none

/-! ### What a step does to the arbiter -/

def stepOption (s : ArbiterState) : Option LeaseOp → ArbiterState
  | none => s
  | some op => stepLease s op

/-- Kernel effects of an operation: only an acquisition has any. -/
def opEffects (s : ArbiterState) : Option LeaseOp → List KernelEffect
  | some (.acquire env req) => (acquireLease s env req).effects
  | _ => []

structure SameBooks (s s' : ArbiterState) : Prop where
  topology : s.topology = s'.topology
  leases : s.leases = s'.leases

theorem SameBooks.refl (s : ArbiterState) : SameBooks s s := ⟨rfl, rfl⟩

variable {parseUuid} {s : ArbiterState} {params : Option Json} {activeLeases : List LeaseId}
  {peerInfo : Option PeerInfo} {env : HandlerEnv} {d : Daemon}

/-- Lease list of a connection after an operation on it: a granted lease is
added, a lease that the client releases is taken out. -/
def listAfter (s : ArbiterState) (activeLeases : List LeaseId) : Option LeaseOp → List LeaseId
  | some (.release id) =>
    match (releaseLease s id).result with
    | .ok () => activeLeases.filter fun j => decide (j ≠ id)
    | .error _ => activeLeases
  | op => activeLeases ++ grantedIds s op

/-- A handler does to planes and leases what the lease operation of its method
does, with the same kernel effects, and keeps the list of the connection. -/
structure Performs (s : ArbiterState) (activeLeases : List LeaseId) (h : Handled)
    (op : Option LeaseOp) : Prop where
  books : SameBooks h.arbiter (stepOption s op)
  effects : h.effects = opEffects s op
  list : h.activeLeases = listAfter s activeLeases op

theorem performs_none {h : Handled} (hb : SameBooks h.arbiter s) (he : h.effects = [])
    (hl : h.activeLeases = activeLeases) : Performs s activeLeases h none :=
  ⟨hb, he, by rw [hl]; simp [listAfter, grantedIds]⟩

theorem performs_acquire (params : Option Json) (s : ArbiterState) (activeLeases : List LeaseId)
    (peerInfo : Option PeerInfo) (env : HandlerEnv) :
    Performs s activeLeases (handleAcquireLease params s activeLeases peerInfo env)
      (params.map fun p => .acquire env.toCallEnv (acquireRequest p peerInfo)) := by
  unfold handleAcquireLease
  cases params with
  | none => exact performs_none (SameBooks.refl s) rfl rfl
  | some p =>
    dsimp only [Option.map_some]
    cases hr : (acquireLease s env.toCallEnv (acquireRequest p peerInfo)).result with
    | ok lease => exact ⟨SameBooks.refl _, rfl, by simp [listAfter, grantedIds, hr]⟩
    | error e => exact ⟨SameBooks.refl _, rfl, by simp [listAfter, grantedIds, hr]⟩

theorem performs_release (params : Option Json) (s : ArbiterState) (activeLeases : List LeaseId) :
    Performs s activeLeases (handleReleaseLease parseUuid params s activeLeases)
      ((parseLeaseId parseUuid params).map .release) := by
  unfold handleReleaseLease
  cases parseLeaseId parseUuid params with
  | none => exact performs_none (SameBooks.refl s) rfl rfl
  | some id =>
    dsimp only [Option.map_some]
    cases hr : (releaseLease s id).result with
    | ok u => exact ⟨SameBooks.refl _, rfl, by simp [listAfter, hr]⟩
    | error e => exact ⟨SameBooks.refl _, rfl, by simp [listAfter, hr]⟩

theorem performs_leaseCall (call : ArbiterState → LeaseId → Outcome Unit) (errorName : String)
    (op : LeaseId → LeaseOp) (hstate : ∀ id, (call s id).state = stepLease s (op id))
    (heffects : ∀ id, (call s id).effects = opEffects s (some (op id)))
    (hlist : ∀ id, listAfter s activeLeases (some (op id)) = activeLeases) (params : Option Json) :
    Performs s activeLeases (handleLeaseCall parseUuid call errorName params s activeLeases)
      ((parseLeaseId parseUuid params).map op) := by
  unfold handleLeaseCall
  cases parseLeaseId parseUuid params with
  | none => exact performs_none (SameBooks.refl s) rfl rfl
  | some id => exact ⟨⟨congrArg _ (hstate id), congrArg _ (hstate id)⟩, heffects id, (hlist id).symm⟩

theorem markLease_effects (mark : LeaseState) (s : ArbiterState) (id : LeaseId) :
    (markLease mark s id).effects = [] := by
  rcases markLease_cases mark s id with ⟨r, h, -⟩ | ⟨l, -, -, h⟩ <;> rw [h]

theorem thawLease_effects (s : ArbiterState) (id : LeaseId) : (thawLease s id).effects = [] := by
  rcases thawLease_cases s id with ⟨e, h, -⟩ | ⟨l, -, -, -, h⟩ | ⟨l, -, -, h⟩ | ⟨l, -, -, h⟩ <;> rw [h]

theorem runMethod_performs (m : Method) (params : Option Json) (s : ArbiterState)
    (activeLeases : List LeaseId) (peerInfo : Option PeerInfo) (env : HandlerEnv) :
    Performs s activeLeases (runMethod parseUuid m params s activeLeases peerInfo env)
      (m.leaseOp parseUuid params peerInfo env) := by
  have hsame : ∀ id op, (op = LeaseOp.yield id ∨ op = .freeze id ∨ op = .thaw id) →
      listAfter s activeLeases (some op) = activeLeases := by
    rintro id op (rfl | rfl | rfl) <;> exact List.append_nil _
  cases m with
  | acquireLease => exact performs_acquire params s activeLeases peerInfo env
  | releaseLease => exact performs_release params s activeLeases
  | yield =>
    exact performs_leaseCall yieldLease _ .yield (fun _ => rfl) (markLease_effects .preempting s)
      (fun id => hsame id _ (Or.inl rfl)) params
  | freeze =>
    exact performs_leaseCall freezeLease _ .freeze (fun _ => rfl) (markLease_effects .frozen s)
      (fun id => hsame id _ (Or.inr (Or.inl rfl))) params
  | thaw =>
    exact performs_leaseCall thawLease _ .thaw (fun _ => rfl) (thawLease_effects s)
      (fun id => hsame id _ (Or.inr (Or.inr rfl))) params
  | registerModel =>
    refine performs_none ?_ rfl rfl
    cases params <;> exact ⟨rfl, rfl⟩
  | evictModel =>
    refine performs_none ?_ rfl rfl
    simp only [runMethod, handleEvictModel]
    cases params with
    | none => exact SameBooks.refl s
    | some p =>
      dsimp only
      split <;> exact ⟨rfl, rfl⟩
  | pinModel =>
    refine performs_none ?_ rfl rfl
    simp only [runMethod, handlePinModel]
    cases params with
    | none => exact SameBooks.refl s
    | some p =>
      dsimp only
      split <;> exact ⟨rfl, rfl⟩
  | _ => exact performs_none (SameBooks.refl s) rfl rfl

theorem serve_performs (req : VarlinkRequest) (s : ArbiterState) (activeLeases : List LeaseId)
    (peerInfo : Option PeerInfo) (env : HandlerEnv) :
    Performs s activeLeases (serve parseUuid req s activeLeases peerInfo env)
      (req.leaseOp parseUuid peerInfo env) := by
  unfold serve VarlinkRequest.leaseOp
  by_cases h₁ : req.method = "org.varlink.service.GetInfo"
  · rw [if_pos h₁, if_pos (Or.inl h₁)]
    exact performs_none (SameBooks.refl s) rfl rfl
  · by_cases h₂ : req.method = "org.varlink.service.GetInterfaceDescription"
    · rw [if_neg h₁, if_pos h₂, if_pos (Or.inr h₂)]
      exact performs_none (SameBooks.refl s) rfl rfl
    · rw [if_neg h₁, if_neg h₂, if_neg (by tauto)]
      unfold handleMethod
      cases methodOf req.method with
      | none => exact performs_none (SameBooks.refl s) rfl rfl
      | some m => exact runMethod_performs m req.parameters s activeLeases peerInfo env

end Inferenced.Varlink
