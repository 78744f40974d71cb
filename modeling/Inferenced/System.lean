import Inferenced.Gateway.LeaseLeak
import Inferenced.Sentry
import Inferenced.Varlink.Connections

/-!
# The daemon as a whole (crates/inferenced-daemon/src/main.rs)

`main` starts the Varlink listener, the HTTP gateway and the sentry listener on
one arbiter, and a watcher that renews the topology on hot-plug events. The
tasks of all of them interleave; the state lock of the arbiter orders their
calls. The state also carries the units that `acquire_lease` has frozen.
-/

namespace Inferenced
open Lib Arbiter

structure System where
  arbiter : ArbiterState
  conns : List Varlink.Conn
  apiToken : Option String
  handlers : List Gateway.Handler
  sentries : List Sentry.Conn
  frozen : List String

inductive SystemOp where
  | varlink (op : Varlink.DaemonOp)
  | httpRequest (authorization : Option String) (endpoint : Gateway.Endpoint)
  | httpPoll (i : ℕ) (env : Gateway.PollEnv)
  | httpTask (i : ℕ) (createdAt : String) (delivered : Bool)
  | httpDrop (i : ℕ)
  | sentry (op : Sentry.SentryOp)
  | refreshTopology (order : IterOrder ComputeLease) (topology : HardwareTopology)

namespace System

def start (topology : HardwareTopology) (apiToken : Option String) : System :=
  { arbiter := Arbiter.new topology, conns := [], apiToken, handlers := [], sentries := [], frozen := [] }

def varlink (s : System) : Varlink.Daemon :=
  { arbiter := s.arbiter, conns := s.conns, frozen := s.frozen }

def gateway (s : System) : Gateway.GatewayState :=
  { arbiter := s.arbiter, apiToken := s.apiToken, handlers := s.handlers }

def effectsOf (s : ArbiterState) : Option ArbiterOp → List KernelEffect
  | some (.lease op) => Varlink.opEffects s (some op)
  | _ => []

def stepGateway (s : System) (op : Gateway.GatewayOp) : System :=
  let g := Gateway.step s.gateway op
  { s with
    arbiter := g.arbiter
    handlers := g.handlers
    frozen := s.frozen ++ Varlink.frozenUnits (effectsOf s.arbiter (s.gateway.arbiterOp op)) }

section
variable (fromSlice : List UInt8 → Option Varlink.Json)

def stepSentry (s : System) : Sentry.SentryOp → System
  | .accept => { s with sentries := s.sentries ++ [Sentry.Conn.opened] }
  | .read i bytes => { s with sentries := s.sentries.modify i (·.read fromSlice bytes) }
  | .write i written => { s with sentries := s.sentries.modify i (·.write written) }
  | .poll i env =>
    match s.sentries[i]? with
    | some c =>
      let (arbiter, c', effects) := c.poll s.arbiter env
      { s with
        arbiter
        sentries := s.sentries.set i c'
        frozen := s.frozen ++ Varlink.frozenUnits effects }
    | none => s

variable (parseUuid : String → Option LeaseId)

def step (s : System) : SystemOp → System
  | .varlink op =>
    let d := Varlink.step parseUuid s.varlink op
    { s with arbiter := d.arbiter, conns := d.conns, frozen := d.frozen }
  | .httpRequest authorization endpoint => s.stepGateway (.request authorization endpoint)
  | .httpPoll i env => s.stepGateway (.poll i env)
  | .httpTask i createdAt delivered => s.stepGateway (.pollTask i createdAt delivered)
  | .httpDrop i => s.stepGateway (.cancel i)
  | .sentry op => s.stepSentry fromSlice op
  | .refreshTopology order topology => { s with arbiter := updateTopology s.arbiter order topology }

end

/-! ### What a step does to the arbiter -/

def sentryOp (s : System) : Sentry.SentryOp → Option LeaseOp
  | .poll i env => (s.sentries[i]?).bind (·.phase.leaseOp env)
  | _ => none

/-- The operation that a step performs on the arbiter. -/
def arbiterOp (parseUuid : String → Option LeaseId) (s : System) : SystemOp → Option ArbiterOp
  | .varlink op => (s.varlink.leaseOp parseUuid op).map .lease
  | .httpRequest _ _ | .httpDrop _ => none
  | .httpPoll i env => s.gateway.arbiterOp (.poll i env)
  | .httpTask i createdAt delivered => s.gateway.arbiterOp (.pollTask i createdAt delivered)
  | .sentry op => (s.sentryOp op).map .lease
  | .refreshTopology order topology => some (.updateTopology order topology)

variable {fromSlice : List UInt8 → Option Varlink.Json} {parseUuid : String → Option LeaseId}
  {s : System}

structure Performed (s s' : System) (op : Option ArbiterOp) : Prop where
  leases : s'.arbiter.leases = (Gateway.after s.arbiter op).leases
  frozen : s'.frozen = s.frozen ++ Varlink.frozenUnits (effectsOf s.arbiter op)

theorem Performed.idle {s' : System} (harbiter : s'.arbiter = s.arbiter) (hfrozen : s'.frozen = s.frozen) :
    Performed s s' none :=
  ⟨congrArg _ harbiter, hfrozen.trans (List.append_nil _).symm⟩

theorem performed_gateway (s : System) (op : Gateway.GatewayOp) :
    Performed s (s.stepGateway op) (s.gateway.arbiterOp op) :=
  ⟨Gateway.step_leases s.gateway op, rfl⟩

theorem performed_sentry (s : System) (op : Sentry.SentryOp) :
    Performed s (s.stepSentry fromSlice op) ((s.sentryOp op).map .lease) := by
  cases op with
  | accept => exact .idle rfl rfl
  | read i bytes => exact .idle rfl rfl
  | write i written => exact .idle rfl rfl
  | poll i env =>
    simp only [stepSentry, sentryOp]
    cases s.sentries[i]? with
    | none => exact .idle rfl rfl
    | some c =>
      simp only [Option.bind_some, Sentry.Conn.poll, Sentry.Phase.leaseOp]
      cases c.phase with
      | awaitAcquire triage =>
        dsimp only
        cases (acquireLease s.arbiter env triage.leaseRequest).result with
        | ok lease => exact ⟨rfl, rfl⟩
        | error e => exact ⟨rfl, rfl⟩
      | awaitRelease lease written => exact ⟨rfl, rfl⟩
      | reading => exact .idle rfl (List.append_nil _)
      | writing response lease => exact .idle rfl (List.append_nil _)
      | closed => exact .idle rfl (List.append_nil _)

theorem stepSentry_frame (s : System) (sop : Sentry.SentryOp) :
    (s.stepSentry fromSlice sop).conns = s.conns ∧ (s.stepSentry fromSlice sop).handlers = s.handlers := by
  cases sop with
  | poll i env =>
    simp only [stepSentry]
    cases s.sentries[i]? with
    | none => exact ⟨rfl, rfl⟩
    | some c => exact ⟨rfl, rfl⟩
  | _ => exact ⟨rfl, rfl⟩

/-- Seen from the arbiter a step performs one operation or none. -/
theorem step_performed (fromSlice : List UInt8 → Option Varlink.Json)
    (parseUuid : String → Option LeaseId) (s : System) (op : SystemOp) :
    Performed s (s.step fromSlice parseUuid op) (s.arbiterOp parseUuid op) := by
  cases op with
  | varlink op =>
    obtain ⟨hbooks, hfrozen⟩ := Varlink.step_books parseUuid s.varlink op
    simp only [arbiterOp]
    cases ho : s.varlink.leaseOp parseUuid op with
    | none =>
      rw [ho] at hbooks hfrozen
      exact ⟨hbooks.leases, hfrozen⟩
    | some o =>
      rw [ho] at hbooks hfrozen
      exact ⟨hbooks.leases, hfrozen⟩
  | httpRequest authorization endpoint => exact performed_gateway s (.request authorization endpoint)
  | httpPoll i env => exact performed_gateway s (.poll i env)
  | httpTask i createdAt delivered => exact performed_gateway s (.pollTask i createdAt delivered)
  | httpDrop i => exact performed_gateway s (.cancel i)
  | sentry op => exact performed_sentry s op
  | refreshTopology order topology => exact ⟨rfl, (List.append_nil _).symm⟩

end System

end Inferenced
