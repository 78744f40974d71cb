import Inferenced.Arbiter
import Inferenced.Freezer
import Inferenced.Lib.Runs

/-!
# The preemption coordinator (crates/inferenced-core/src/preempt.rs)

`preempt_lease` holds no lock between its await points, so it is a task with a
program counter: each step is what the source does between two of them. The
arbiter and the record map are shared with other tasks. What the kernel answers
to a freeze or a signal, and whether the deadline has passed when the loop looks
at the clock, come from outside.
-/

namespace Inferenced.Preempt
open Lib

inductive PreemptTier where
  | tier1Cooperative
  | tier2ForcedFreeze
  | revoked
  deriving DecidableEq, Repr

structure PreemptRecord where
  leaseId : LeaseId
  planeId : String
  clientPid : Option UInt32
  clientUnit : Option String
  tier : PreemptTier
  completed : Bool
  deadlineMs : UInt64
  deriving DecidableEq

/-- `HashMap<LeaseId, PreemptRecord>`. -/
abbrev RecordMap := KeyedMap LeaseId PreemptRecord PreemptRecord.leaseId

/-- What a task does to the processes of the client: the signal it sends
without looking at the answer, and the stops that the kernel accepts. -/
inductive Effect where
  | yieldSignal (pid : UInt32)
  | freezeCgroup (unit : String)
  | freezeProcess (pid : UInt32)
  deriving DecidableEq

def Effect.isStop : Effect → Bool
  | .yieldSignal _ => false
  | .freezeCgroup _ | .freezeProcess _ => true

/-- The state that `preempt_lease` shares with other tasks. -/
structure Shared where
  arbiter : ArbiterState
  records : RecordMap

/-- The kernel's answers to `freeze_cgroup(unit)` and
`freeze_process_signal(pid)`: true for `Ok`. -/
structure Kernel where
  freezesCgroup : String → Bool
  stopsProcess : UInt32 → Bool

/-- Where `preempt_lease` stands; the lease is the copy read at its start. -/
inductive Pc where
  | getLease
  | yieldLease (lease : ComputeLease)
  | insertRecord (lease : ComputeLease)
  | waiting (lease : ComputeLease)
  | yielded
  | escalating (lease : ComputeLease)
  | freezeLease (frozen : Bool)
  | updateRecord (frozen : Bool)
  | returned (result : Except Error Unit)

/-- The record map after `recs.insert` with its garbage collection
(preempt.rs:84-101). -/
def insertRecord (records : RecordMap) (deadlineMs : UInt64) (lease : ComputeLease) : RecordMap :=
  let records := if 128 < records.len then records.retain (!·.completed) else records
  records.insert
    { leaseId := lease.id
      planeId := lease.planeId
      clientPid := lease.clientPid
      clientUnit := lease.clientUnit
      tier := .tier1Cooperative
      completed := false
      deadlineMs }

/-- `if let Some(rec) = recs.get_mut(&lease_id)` and an update. -/
def updateRecord (records : RecordMap) (id : LeaseId) (tier : PreemptTier → PreemptTier)
    (completed : Bool) : RecordMap :=
  records.modify id (fun r => { r with tier := tier r.tier, completed }) fun _ => rfl

/-- The poll takes the lease as given up (preempt.rs:112-124). -/
def hasYielded : Option ComputeLease → Bool
  | some curr => !curr.isActive || decide (curr.state = .preempted) ||
      decide (curr.state = .expired) || decide (curr.state = .revoked)
  | none => true

/-- The stops of tier 2 that the kernel accepts (preempt.rs:142-154). -/
def Kernel.stops (kernel : Kernel) (lease : ComputeLease) : List Effect :=
  ((lease.clientUnit.filter kernel.freezesCgroup).map Effect.freezeCgroup).toList ++
    ((lease.clientPid.filter kernel.stopsProcess).map Effect.freezeProcess).toList

/-- One step of `preempt_lease` (preempt.rs:62-166): shared state, program
counter and effects after it. At the head of the waiting loop `expired` says
that the deadline has passed. -/
def taskStep (kernel : Kernel) (deadlineMs : UInt64) (id : LeaseId) (expired : Bool) (sh : Shared) :
    Pc → Shared × Pc × List Effect
  | .getLease =>
    match sh.arbiter.leases.get? id with
    | none => (sh, .returned (.error (.leaseNotFound id.toString)), [])
    | some lease =>
      if !lease.isActive then (sh, .returned (.ok ()), []) else (sh, .yieldLease lease, [])
  | .yieldLease lease =>
    let out := Arbiter.yieldLease sh.arbiter id
    match out.result with
    | .error e => ({ sh with arbiter := out.state }, .returned (.error e), [])
    | .ok () => ({ sh with arbiter := out.state }, .insertRecord lease,
        (lease.clientPid.map Effect.yieldSignal).toList)
  | .insertRecord lease =>
    ({ sh with records := insertRecord sh.records deadlineMs lease }, .waiting lease, [])
  | .waiting lease =>
    if expired then (sh, .escalating lease, [])
    else if hasYielded (sh.arbiter.leases.get? id) then (sh, .yielded, [])
    else (sh, .waiting lease, [])
  | .yielded =>
    ({ sh with records := updateRecord sh.records id (fun t => t) true }, .returned (.ok ()), [])
  | .escalating lease =>
    let stops := kernel.stops lease
    (sh, .freezeLease (!stops.isEmpty), stops)
  | .freezeLease frozen =>
    let out := Arbiter.freezeLease sh.arbiter id
    match out.result with
    | .error e => ({ sh with arbiter := out.state }, .returned (.error e), [])
    | .ok () => ({ sh with arbiter := out.state }, .updateRecord frozen, [])
  | .updateRecord frozen =>
    ({ sh with records := updateRecord sh.records id (fun _ => .tier2ForcedFreeze) frozen },
      .returned (.ok ()), [])
  | .returned r => (sh, .returned r, [])

/-! ### One call and the other tasks -/

/-- A call of `preempt_lease` under way. -/
structure Call where
  shared : Shared
  pc : Pc := .getLease
  effects : List Effect := []

/-- A step of the call, or of another task: `release_lease` or `revoke_lease`
of the arbiter, or the record update with which the coordinator's own
`revoke_lease` goes on (preempt.rs:190-198). -/
inductive CallOp where
  | task (expired : Bool)
  | release
  | revoke
  | recordRevoked
  deriving DecidableEq

variable (kernel : Kernel) (deadlineMs : UInt64) (id : LeaseId)

def step (c : Call) : CallOp → Call
  | .task expired =>
    let (shared, pc, effects) := taskStep kernel deadlineMs id expired c.shared c.pc
    { shared, pc, effects := c.effects ++ effects }
  | .release => { c with shared.arbiter := (Arbiter.releaseLease c.shared.arbiter id).state }
  | .revoke => { c with shared.arbiter := (Arbiter.revokeLease c.shared.arbiter id).state }
  | .recordRevoked =>
    { c with shared.records := updateRecord c.shared.records id (fun _ => .revoked) true }

/-! ### Any number of calls -/

/-- Where `revoke_lease` of the coordinator stands. -/
inductive RevokePc where
  | revokeLease
  | recordRevoked
  | returned (result : Except Error Unit)

/-- One step of `revoke_lease` (preempt.rs:187-195). -/
def revokeStep (id : LeaseId) (sh : Shared) : RevokePc → Shared × RevokePc
  | .revokeLease =>
    let out := Arbiter.revokeLease sh.arbiter id
    match out.result with
    | .error e => ({ sh with arbiter := out.state }, .returned (.error e))
    | .ok () => ({ sh with arbiter := out.state }, .recordRevoked)
  | .recordRevoked =>
    ({ sh with records := updateRecord sh.records id (fun _ => .revoked) true }, .returned (.ok ()))
  | .returned r => (sh, .returned r)

inductive Task where
  | preempt (id : LeaseId) (pc : Pc)
  | revoke (id : LeaseId) (pc : RevokePc)

def Task.step (deadlineMs : UInt64) (kernel : Kernel) (expired : Bool) (sh : Shared) :
    Task → Shared × Task
  | .preempt id pc =>
    let (sh, pc, _) := taskStep kernel deadlineMs id expired sh pc
    (sh, .preempt id pc)
  | .revoke id pc =>
    let (sh, pc) := revokeStep id sh pc
    (sh, .revoke id pc)

/-- The coordinator with the calls made so far, under way or returned. -/
structure Coordinator where
  shared : Shared
  tasks : List Task := []

/-- A call of `preempt_lease` or `revoke_lease`, a step of one of the calls with
what the kernel and the clock say to it, or something that other tasks do to the
arbiter. -/
inductive CoordinatorOp where
  | preemptLease (id : LeaseId)
  | revokeLease (id : LeaseId)
  | task (i : ℕ) (kernel : Kernel) (expired : Bool)
  | arbiter (op : Arbiter.ArbiterOp)

def Coordinator.step (deadlineMs : UInt64) (c : Coordinator) : CoordinatorOp → Coordinator
  | .preemptLease id => { c with tasks := c.tasks ++ [.preempt id .getLease] }
  | .revokeLease id => { c with tasks := c.tasks ++ [.revoke id .revokeLease] }
  | .task i kernel expired =>
    match c.tasks[i]? with
    | some task =>
      let (shared, task) := task.step deadlineMs kernel expired c.shared
      { shared, tasks := c.tasks.set i task }
    | none => c
  | .arbiter op => { c with shared.arbiter := Arbiter.step c.shared.arbiter op }

def Coordinator.new (arbiter : ArbiterState) : Coordinator := { shared := ⟨arbiter, .empty⟩ }

/-! ### `thaw_lease` -/

/-- The kernel as a thaw finds it: the files that exist and those that take a
write, the processes that take a signal, the freeze files that read 1, and the
pids to which SIGCONT has been sent. -/
structure KernelState where
  fileExists : List Char → Bool
  writable : List Char → Bool
  signallable : UInt32 → Bool
  frozen : List Char → Bool
  continued : List UInt32

/-- `thaw_cgroup` (freezer.rs:23-25, 88-101). A cgroup takes no new files, so that
`File::create` is one more attempt to open the file. -/
def KernelState.thawCgroup (k : KernelState) (unit : String) : KernelState :=
  let file := Freezer.resolveFreezePath k.fileExists unit.toList
  if k.writable file then { k with frozen := fun f => if f = file then false else k.frozen f } else k

/-- `thaw_process_signal` (freezer.rs:37-45, 57-59); `Pid::from_raw` has no pid
for 0. -/
def KernelState.thawProcessSignal (k : KernelState) (pid : UInt32) : KernelState :=
  if pid ≠ 0 ∧ k.signallable pid = true then { k with continued := k.continued ++ [pid] } else k

/-- The thaw of the client of a lease, whatever the answers
(preempt.rs:176-181). -/
def KernelState.resume (k : KernelState) (lease : ComputeLease) : KernelState :=
  let k := lease.clientUnit.elim k k.thawCgroup
  lease.clientPid.elim k k.thawProcessSignal

structure ThawOutcome where
  result : Except Error Unit
  arbiter : ArbiterState
  kernel : KernelState

/-- `thaw_lease` of the coordinator (preempt.rs:169-184). It takes the lock of
the arbiter twice, for a copy of the lease and for the thaw; `others` is what
other tasks do to the arbiter in between. -/
def thawLease (k : KernelState) (s : ArbiterState) (others : List Arbiter.ArbiterOp) (id : LeaseId) :
    ThawOutcome :=
  match s.leases.get? id with
  | none => { result := .error (.leaseNotFound id.toString), arbiter := s, kernel := k }
  | some lease =>
    let out := Arbiter.thawLease (Runs.exec Arbiter.step s others) id
    { result := out.result, arbiter := out.state, kernel := k.resume lease }

end Inferenced.Preempt
