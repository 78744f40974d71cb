import Inferenced.Arbiter
import Inferenced.Varlink.Protocol

/-!
# The sentry socket (crates/inferenced-daemon/src/sentry/mod.rs)

Each connection is a task of its own. It reads, takes what one read returned
for a payload, acquires an emergency lease for it, writes the response and
releases the lease. A task runs from one await point to the next: the read, the
state lock in `acquire_lease`, the write, the state lock in `release_lease`.
-/

namespace Inferenced.Sentry
open Lib Arbiter Varlink

structure Triage where
  incidentId : Option String
  unitName : String
  deriving DecidableEq

/-- `SentryTriageResponse`. -/
structure TriageResponse where
  status : String
  incidentId : Option String
  allocatedPlane : String
  planeAssigned : String
  queueLatencyUs : UInt64
  preemptionTriggered : Bool
  analysis : String
  deriving DecidableEq

/-- Reading of a payload (mod.rs:59-70). One that is no JSON becomes an object
with the single field `raw`, which has neither of the two fields. -/
def triageOf (fromSlice : List UInt8 → Option Json) (payload : List UInt8) : Triage :=
  { incidentId := ((fromSlice payload).bind (·.get "incident_id")).bind Json.asStr
    unitName := (((fromSlice payload).bind (·.get "unit_name")).bind Json.asStr).getD
      "systemd-sentry.service" }

/-- One gigabyte on the protected plane (mod.rs:73-81). -/
def Triage.leaseRequest (t : Triage) : LeaseRequest :=
  { priority := .emergencyTriage, requiredBytes := 1024 * 1024 * 1024, preferredPlane := none
    clientUnit := some t.unitName, clientPid := none }

def Triage.response (t : Triage) (lease : ComputeLease) : TriageResponse :=
  { status := "accepted"
    incidentId := t.incidentId
    allocatedPlane := lease.planeId
    planeAssigned := lease.planeId
    queueLatencyUs := 0
    preemptionTriggered := true
    analysis := "Emergency compute isolated on plane " ++ lease.planeId ++
      ". AI hardware state preserved." }

inductive Phase where
  | reading
  | awaitAcquire (triage : Triage)
  | writing (response : TriageResponse) (lease : LeaseId)
  /-- Waiting to release the lease; `written` is the result of the write. -/
  | awaitRelease (lease : LeaseId) (written : Bool)
  | closed
  deriving DecidableEq

structure Conn where
  phase : Phase
  sent : List TriageResponse

def Conn.opened : Conn := { phase := .reading, sent := [] }

inductive SentryOp where
  | accept
  /-- The read of task `conn` returns: the bytes, none of them at the end of the
  stream, or `none` if it fails. -/
  | read (conn : ℕ) (bytes : Option (List UInt8))
  /-- The write of task `conn` returns. -/
  | write (conn : ℕ) (written : Bool)
  /-- The lock that task `conn` waits for is granted. -/
  | poll (conn : ℕ) (env : CallEnv)

def Conn.read (fromSlice : List UInt8 → Option Json) (bytes : Option (List UInt8)) (c : Conn) : Conn :=
  match c.phase with
  | .reading =>
    match bytes with
    | none | some [] => { c with phase := .closed }
    | some payload => { c with phase := .awaitAcquire (triageOf fromSlice payload) }
  | _ => c

def Conn.write (written : Bool) (c : Conn) : Conn :=
  match c.phase with
  | .writing response lease =>
    { phase := .awaitRelease lease written
      sent := if written then c.sent ++ [response] else c.sent }
  | _ => c

def Phase.leaseOp (env : CallEnv) : Phase → Option LeaseOp
  | .awaitAcquire triage => some (.acquire env triage.leaseRequest)
  | .awaitRelease lease _ => some (.release lease)
  | _ => none

def Conn.poll (s : ArbiterState) (env : CallEnv) (c : Conn) : ArbiterState × Conn × List KernelEffect :=
  match c.phase with
  | .awaitAcquire triage =>
    let out := acquireLease s env triage.leaseRequest
    match out.result with
    | .ok lease =>
      (out.state, { c with phase := .writing (triage.response lease) lease.id }, out.effects)
    -- the error ends the connection
    | .error _ => (out.state, { c with phase := .closed }, out.effects)
  | .awaitRelease lease written =>
    ((releaseLease s lease).state, { c with phase := if written then .reading else .closed }, [])
  | _ => (s, c, [])

end Inferenced.Sentry
