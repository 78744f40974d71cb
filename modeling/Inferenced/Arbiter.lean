import Inferenced.Error
import Inferenced.Lease
import Inferenced.Model
import Inferenced.Topology

/-!
# The arbiter (crates/inferenced-core/src/arbiter.rs)

Every method takes the state lock once and runs to its end under it, so a
method is a function of the state. What a call reads from outside the state is
an argument: the pressure reading, the iteration order of the lease map and
the fresh lease id. What it does to the kernel (signals, cgroup writes) is
returned as a list of effects.
-/

namespace Inferenced
open Lib

structure ArbiterState where
  topology : HardwareTopology
  leases : LeaseMap
  registry : ModelRegistry

inductive KernelEffect where
  | cooperativeYieldSignal (pid : UInt32)
  | freezeCgroup (unit : String)
  deriving DecidableEq

structure Outcome (α : Type) where
  result : Except Error α
  state : ArbiterState
  effects : List KernelEffect := []

/-- What `acquire_lease` reads from outside the arbiter state. -/
structure CallEnv where
  psi : PressureMetrics
  order : IterOrder ComputeLease
  newId : LeaseId

namespace Arbiter

def new (topology : HardwareTopology) : ArbiterState :=
  { topology, leases := KeyedMap.empty, registry := ModelRegistry.new }

/-- `restore_plane_memory` (arbiter.rs:236-246). -/
def restorePlaneMemory (t : HardwareTopology) (planeId : String) (bytes : UInt64) :
    HardwareTopology :=
  let isUma := t.isUma planeId
  let t := t.modifyPlane planeId (·.credit bytes)
  if isUma then t.modifyCpu (·.credit bytes) else t

/-- The debit of `thaw_lease` and `update_topology`: the plane of the lease
and, for a UMA plane, the CPU plane (arbiter.rs:35-40, 222-227). -/
def debitPlaneMemory (t : HardwareTopology) (planeId : String) (bytes : UInt64) :
    HardwareTopology :=
  let isUma := t.isUma planeId
  let t := t.modifyPlane planeId (·.debit bytes)
  if isUma then t.modifyCpu (·.debit bytes) else t

/-! ### `acquire_lease` -/

/-- Target plane of a request (arbiter.rs:79-93). -/
def targetPlaneIdx (t : HardwareTopology) (req : LeaseRequest) : Except Error ℕ :=
  match req.preferredPlane with
  | some pref =>
    match t.planes.findIdx? fun p => decide (p.id = pref) with
    | some idx => .ok idx
    | none => .error (.planeNotFound pref)
  | none =>
    if req.priority = .emergencyTriage then
      match (t.planes.findIdx? fun p => p.isTriageReserved).or
          ((t.planes.findIdx? fun p => decide (p.kind = .cpuMatrixExtension)).or
            ((maxByKey (fun ip => ip.1.totalMemoryBytes.toNat) t.planes.zipIdx).map Prod.snd)) with
      | some idx => .ok idx
      | none => .error (.planeNotFound "No suitable compute plane for emergency triage")
    else
      match (maxByKey (fun ip => ip.1.availableMemoryBytes.toNat)
          (t.planes.zipIdx.filter fun ip => !ip.1.isQuarantined &&
            (!ip.1.isTriageReserved || decide (req.priority = .emergencyTriage)))).map Prod.snd with
      | some idx => .ok idx
      | none => .error (.planeNotFound "No available compute plane found")

/-- Sort key `leases.get(id).map(|l| l.priority)`: `None` is below every
`Some`. -/
def priorityKey (leases : LeaseMap) (id : LeaseId) : ℕ :=
  match leases.get? id with
  | none => 0
  | some l => l.priority.weight + 1

/-- Ids of the leases a request may preempt, lowest priority first
(arbiter.rs:97-101). -/
def preemptable (leases : LeaseMap) (order : IterOrder ComputeLease) (targetPlaneId : String)
    (priority : LeasePriority) : List LeaseId :=
  sortByKey (priorityKey leases)
    (((order.order leases.entries).filter fun l =>
      decide (l.planeId = targetPlaneId) && l.isActive && decide (l.priority < priority)).map
        (·.id))

structure Preemption where
  topology : HardwareTopology
  leases : LeaseMap
  toFreeze : List ComputeLease

/-- Loop body for one victim; `to_freeze` keeps the victim, of which the
source stores pid and unit. -/
def Preemption.preempt (st : Preemption) (targetPlaneId : String) (lease : ComputeLease) :
    Preemption :=
  { topology := restorePlaneMemory st.topology targetPlaneId lease.allocatedMemoryBytes
    leases := st.leases.setState lease.id .preempted
    toFreeze := st.toFreeze ++ [lease] }

/-- The preemption loop (arbiter.rs:105-113). -/
def preemptLoop (idx : ℕ) (targetPlaneId : String) (requiredBytes : UInt64) :
    List LeaseId → Preemption → Preemption
  | [], st => st
  | pid :: rest, st =>
    if requiredBytes ≤ st.topology.availableAt idx then st
    else match st.leases.get? pid with
      | some lease =>
        preemptLoop idx targetPlaneId requiredBytes rest (st.preempt targetPlaneId lease)
      | none => preemptLoop idx targetPlaneId requiredBytes rest st

/-- Topology, leases and victims once room has been made on plane `idx`. -/
def makeRoom (s : ArbiterState) (env : CallEnv) (req : LeaseRequest) (idx : ℕ) : Preemption :=
  let start : Preemption := ⟨s.topology, s.leases, []⟩
  let targetPlaneId := s.topology.planeIdAt idx
  if s.topology.availableAt idx < req.requiredBytes then
    preemptLoop idx targetPlaneId req.requiredBytes
      (preemptable s.leases env.order targetPlaneId req.priority) start
  else start

/-- Signals and cgroup writes for the victims (arbiter.rs:125-128). -/
def freezeEffects (victims : List ComputeLease) : List KernelEffect :=
  victims.flatMap fun l =>
    (l.clientPid.map .cooperativeYieldSignal).toList ++ (l.clientUnit.map .freezeCgroup).toList

/-- Garbage collection of terminal leases (arbiter.rs:131-133). -/
def collectGarbage (leases : LeaseMap) : LeaseMap :=
  if 128 < leases.len then leases.retain (·.isLive) else leases

/-- Debit of the target plane and, for a UMA target, of the CPU plane
(arbiter.rs:135-142). -/
def debitTarget (t : HardwareTopology) (idx : ℕ) (bytes : UInt64) : HardwareTopology :=
  let isUma := (t.planes[idx]?).elim false fun p => decide (p.kind = .integratedUma)
  let t := { t with planes := t.planes.modify idx (·.debit bytes) }
  if isUma then t.modifyCpu (·.debit bytes) else t

/-- The grant at the end of `acquire_lease` (arbiter.rs:131-148). -/
def grant (s : ArbiterState) (room : Preemption) (env : CallEnv) (req : LeaseRequest) (idx : ℕ) :
    Outcome ComputeLease :=
  let lease := ComputeLease.new env.newId (s.topology.planeIdAt idx) req.requiredBytes req.priority
    req.clientUnit req.clientPid
  { result := .ok lease
    state :=
      { s with
        topology := debitTarget room.topology idx req.requiredBytes
        leases := (collectGarbage room.leases).insert lease }
    effects := freezeEffects room.toFreeze }

def busSaturationMessage (psi : PressureMetrics) : String :=
  "Memory bus saturated (PSI mem_some: " ++ psi.memorySomeAvg10.fixed2 ++ "%, mem_full: " ++
    psi.memoryFullAvg10.fixed2 ++ "%). Throttling."

/-- `acquire_lease` (arbiter.rs:66-148). -/
def acquireLease (s : ArbiterState) (env : CallEnv) (req : LeaseRequest) : Outcome ComputeLease :=
  if env.psi.level = .critical ∧ req.priority ≠ .emergencyTriage then
    { result := .error (.busSaturation (busSaturationMessage env.psi)), state := s }
  else match targetPlaneIdx s.topology req with
    | .error e => { result := .error e, state := s }
    | .ok idx =>
      let room := makeRoom s env req idx
      if room.topology.availableAt idx < req.requiredBytes ∧ req.priority ≠ .emergencyTriage then
        -- the early return of arbiter.rs:117-122: the victims stay preempted
        { result := .error (.resourceExhaustion (s.topology.planeIdAt idx) req.requiredBytes
            (room.topology.availableAt idx))
          state := { s with topology := room.topology, leases := room.leases } }
      else grant s room env req idx

/-! ### The other lease operations -/

/-- Common body of `release_lease` and `revoke_lease`: a live lease goes to
`final`, and an active one returns its memory. -/
def endLease (final : LeaseState) (s : ArbiterState) (leaseId : LeaseId) : Outcome Unit :=
  match s.leases.get? leaseId with
  | none => { result := .error (.leaseNotFound leaseId.toString), state := s }
  | some lease =>
    if !lease.isLive then { result := .ok (), state := s }
    else
      { result := .ok ()
        state :=
          { s with
            leases := s.leases.setState leaseId final
            topology :=
              if lease.isActive then
                restorePlaneMemory s.topology lease.planeId lease.allocatedMemoryBytes
              else s.topology } }

/-- `release_lease` (arbiter.rs:160-172). -/
def releaseLease : ArbiterState → LeaseId → Outcome Unit := endLease .expired

/-- `revoke_lease` (arbiter.rs:174-186). -/
def revokeLease : ArbiterState → LeaseId → Outcome Unit := endLease .revoked

/-- Common body of `yield_lease` and `freeze_lease`: an active lease is marked
`mark`. -/
def markLease (mark : LeaseState) (s : ArbiterState) (leaseId : LeaseId) : Outcome Unit :=
  match s.leases.get? leaseId with
  | none => { result := .error (.leaseNotFound leaseId.toString), state := s }
  | some lease =>
    if !lease.isActive then { result := .ok (), state := s }
    else { result := .ok (), state := { s with leases := s.leases.setState leaseId mark } }

/-- `yield_lease` (arbiter.rs:188-194). -/
def yieldLease : ArbiterState → LeaseId → Outcome Unit := markLease .preempting

/-- `freeze_lease` (arbiter.rs:196-202). -/
def freezeLease : ArbiterState → LeaseId → Outcome Unit := markLease .frozen

/-- The CPU plane that is short of `bytes` when a UMA lease is thawed
(arbiter.rs:215-221). -/
def cpuShortage (t : HardwareTopology) (isUma : Bool) (bytes : UInt64) : Option ComputePlane :=
  if isUma then t.cpu?.filter fun cpu => decide (cpu.availableMemoryBytes < bytes) else none

/-- `thaw_lease` (arbiter.rs:204-233). -/
def thawLease (s : ArbiterState) (leaseId : LeaseId) : Outcome Unit :=
  match s.leases.get? leaseId with
  | none => { result := .error (.leaseNotFound leaseId.toString), state := s }
  | some lease =>
    if lease.state = .preempted then
      let bytes := lease.allocatedMemoryBytes
      match s.topology.find? lease.planeId with
      | none => { result := .error (.planeNotFound lease.planeId), state := s }
      | some plane =>
        if plane.availableMemoryBytes < bytes then
          { result := .error (.resourceExhaustion lease.planeId bytes plane.availableMemoryBytes)
            state := s }
        else match cpuShortage s.topology (s.topology.isUma lease.planeId) bytes with
          | some cpu =>
            { result := .error (.resourceExhaustion cpu.id bytes cpu.availableMemoryBytes)
              state := s }
          | none =>
            { result := .ok ()
              state :=
                { s with
                  topology := debitPlaneMemory s.topology lease.planeId bytes
                  leases := s.leases.setState leaseId .active } }
    else if lease.state = .frozen ∨ lease.state = .preempting then
      { result := .ok (), state := { s with leases := s.leases.setState leaseId .active } }
    else { result := .ok (), state := s }

/-! ### `update_topology` -/

/-- Loop body of `update_topology` for one lease (arbiter.rs:31-47). -/
def rebookLease (acc : HardwareTopology × LeaseMap) (lease : ComputeLease) :
    HardwareTopology × LeaseMap :=
  let (t, leases) := acc
  if lease.isActive then
    match t.find? lease.planeId with
    | some _ => (debitPlaneMemory t lease.planeId lease.allocatedMemoryBytes, leases)
    | none => (t, leases.setState lease.id .revoked)
  else if lease.state = .preempted ∧ (t.find? lease.planeId).isNone then
    (t, leases.setState lease.id .revoked)
  else (t, leases)

/-- `update_topology` (arbiter.rs:29-50). -/
def updateTopology (s : ArbiterState) (order : IterOrder ComputeLease) (topology : HardwareTopology) :
    ArbiterState :=
  let (t, leases) := (order.order s.leases.entries).foldl rebookLease (topology, s.leases)
  { s with topology := t, leases }

/-! ### Runs -/

inductive LeaseOp where
  | acquire (env : CallEnv) (req : LeaseRequest)
  | release (id : LeaseId)
  | revoke (id : LeaseId)
  | yield (id : LeaseId)
  | freeze (id : LeaseId)
  | thaw (id : LeaseId)

def stepLease (s : ArbiterState) : LeaseOp → ArbiterState
  | .acquire env req => (acquireLease s env req).state
  | .release id => (releaseLease s id).state
  | .revoke id => (revokeLease s id).state
  | .yield id => (yieldLease s id).state
  | .freeze id => (freezeLease s id).state
  | .thaw id => (thawLease s id).state

inductive ArbiterOp where
  | lease (op : LeaseOp)
  | updateTopology (order : IterOrder ComputeLease) (topology : HardwareTopology)

def step (s : ArbiterState) : ArbiterOp → ArbiterState
  | .lease op => stepLease s op
  | .updateTopology order t => updateTopology s order t

def LeaseOp.newIds : LeaseOp → List LeaseId
  | .acquire env _ => [env.newId]
  | _ => []

def ArbiterOp.newIds : ArbiterOp → List LeaseId
  | .lease op => op.newIds
  | .updateTopology _ _ => []

/-! ### Sample values

Inputs for trying the statements on small runs. -/

def samplePlane (id : String) (kind : ComputePlaneKind) (total available : UInt64) : ComputePlane :=
  { id, name := id, kind, totalMemoryBytes := total, availableMemoryBytes := available
    isTriageReserved := false, isQuarantined := false }

def sampleTopology (planes : List ComputePlane) : HardwareTopology :=
  { planes, totalSystemRamBytes := 0, availableSystemRamBytes := 0, cpuCoresTotal := 1
    numaNodes := 1 }

def sampleId (n : ℕ) : LeaseId := ⟨BitVec.ofNat 128 n⟩

def sampleEnv (n : ℕ) : CallEnv :=
  { psi :=
      { memorySomeAvg10 := ⟨"0.00", "0.0"⟩, memoryFullAvg10 := ⟨"0.00", "0.0"⟩
        cpuSomeAvg10 := ⟨"0.00", "0.0"⟩, ioSomeAvg10 := ⟨"0.00", "0.0"⟩, level := .normal }
    order := IterOrder.stored
    newId := sampleId n }

def sampleRequest (priority : LeasePriority) (bytes : UInt64) (plane : String) : LeaseRequest :=
  { priority, requiredBytes := bytes, preferredPlane := some plane, clientUnit := none
    clientPid := none }

end Arbiter

end Inferenced
