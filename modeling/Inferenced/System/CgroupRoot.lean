import Inferenced.Arbiter.LifeCycle
import Inferenced.Freezer
import Inferenced.System
import Inferenced.Varlink.FrozenUnits

/-!
# Freeze targets

The unit of a lease reaches `freeze_cgroup` when the lease is preempted. A
Varlink lease carries the slice of its peer and a gateway lease a fixed name,
and both are single path components. A sentry lease carries whatever the payload
says; it is an emergency lease, and no request has a higher priority.
-/

namespace Inferenced

/-- `SO_PEERCRED` has answered: the slice is read off some cgroup path. -/
def AttestedPeer (peer : Option PeerInfo) : Prop :=
  ∃ pid uid gid cgroupPath, peer = some (PeerInfo.ofCgroup pid uid gid cgroupPath)

def SystemOp.Attested : SystemOp → Prop
  | .varlink (.accept peer) => AttestedPeer peer
  | _ => True

namespace System
open Lib Lib.Runs Arbiter Freezer

variable {fromSlice : List UInt8 → Option Varlink.Json} {parseUuid : String → Option LeaseId}
  {s : System} {op : SystemOp} {a : ArbiterState} {env : CallEnv} {req : LeaseRequest}

/-- A lease of this priority and unit is no victim, or its unit is safe to
freeze. -/
def Freezable (priority : LeasePriority) (clientUnit : Option String) : Prop :=
  priority = .emergencyTriage ∨ ∀ unit, clientUnit = some unit → IsUnit unit.toList

/-! ### What the clients ask for -/

theorem freezable_acquireRequest {peer : Option PeerInfo} (h : AttestedPeer peer) (params : Varlink.Json) :
    Freezable (Varlink.acquireRequest params peer).priority
      (Varlink.acquireRequest params peer).clientUnit := by
  obtain ⟨pid, uid, gid, cgroupPath, rfl⟩ := h
  refine Or.inr fun unit hunit => ?_
  cases hunit
  exact isUnit_of_slice (parseSlice_slice cgroupPath).1 (parseSlice_slice cgroupPath).2

theorem isUnit_endpoint (endpoint : Gateway.Endpoint) : IsUnit endpoint.job.clientUnit.toList := by
  have hchat : IsUnit "gateway-client".toList := ⟨⟨by decide, by decide⟩, by decide⟩
  have hollama : IsUnit "ollama-client".toList := ⟨⟨by decide, by decide⟩, by decide⟩
  cases endpoint with
  | chatCompletions model => exact hchat
  | ollamaGenerate payload => exact hollama

/-! ### The arbiter -/

def LeasesFreezable (a : ArbiterState) : Prop :=
  ∀ id l, a.leases.get? id = some l → Freezable l.priority l.clientUnit

theorem LeasesFreezable.step (h : LeasesFreezable a) (op : ArbiterOp)
    (hreq : ∀ env req, op = .lease (.acquire env req) → Freezable req.priority req.clientUnit) :
    LeasesFreezable (Arbiter.step a op) := by
  intro id l hl
  cases op with
  | lease lop =>
    rcases stepLease_origin hl with ⟨l₀, hl₀, hsame, -⟩ | ⟨env, req, idx, hop, -, rfl⟩
    · rw [hsame]
      exact h id l₀ hl₀
    · exact hreq env req (congrArg _ hop)
  | updateTopology order t =>
    rcases updateTopology_lease a order t id with hsame | ⟨l₀, hl₀, -, -, hafter⟩
    · exact h id l (hsame ▸ hl)
    · have hl' := hl.symm.trans hafter
      cases hl'
      exact h id l₀ hl₀

/-- A victim has a priority below another one, so it is no emergency. -/
theorem LeasesFreezable.frozenUnits (h : LeasesFreezable a) {unit : String}
    (hunit : unit ∈ Varlink.frozenUnits (acquireLease a env req).effects) : IsUnit unit.toList := by
  obtain ⟨idx, v, -, hvictim, -, hclient⟩ := Varlink.frozen_victim hunit
  rcases h v.id v hvictim.stored with hemergency | hsafe
  · have hlower := hvictim.lower
    rw [hemergency] at hlower
    exact absurd hlower (LeasePriority.emergency_not_lt _)
  · exact hsafe unit hclient

theorem LeasesFreezable.effectsOf (h : LeasesFreezable a) (op : Option ArbiterOp) {unit : String}
    (hunit : unit ∈ Varlink.frozenUnits (effectsOf a op)) : IsUnit unit.toList := by
  cases op with
  | none => cases hunit
  | some op =>
    cases op with
    | updateTopology order t => cases hunit
    | lease lop =>
      cases lop with
      | acquire env req => exact h.frozenUnits hunit
      | _ => cases hunit

/-! ### One step -/

/-- The request that a handler has not finished. -/
def job? : Gateway.HandlerState → Option Gateway.Job
  | .awaitModel job | .awaitAcquire job _ _ | .awaitRelease job _ => some job
  | _ => none

/-- Invariant: leases, frozen units, peers and requests in flight are all safe
to freeze. -/
structure Confined (s : System) : Prop where
  leases : LeasesFreezable s.arbiter
  frozen : ∀ unit ∈ s.frozen, IsUnit unit.toList
  peers : ∀ (i : ℕ) c, s.conns[i]? = some c → AttestedPeer c.peer
  jobs : ∀ (i : ℕ) h job, s.handlers[i]? = some h → job? h.state = some job →
    IsUnit job.clientUnit.toList

theorem Confined.poll_request (h : Confined s) {i : ℕ} {penv : Gateway.PollEnv}
    (hop : s.gateway.arbiterOp (.poll i penv) = some (.lease (.acquire env req))) :
    Freezable req.priority req.clientUnit := by
  obtain ⟨b, hb, hb'⟩ := Option.bind_eq_some_iff.mp hop
  cases hs : b.state with
  | awaitAcquire job bytes psi =>
    rw [hs] at hb'
    cases hb'
    refine Or.inr fun unit hunit => ?_
    cases hunit
    exact h.jobs i b job hb (by rw [hs]; rfl)
  | _ => rw [hs] at hb'; cases hb'

theorem pollTask_not_acquire (g : Gateway.GatewayState) (i : ℕ) (createdAt : String) (delivered : Bool) :
    g.arbiterOp (.pollTask i createdAt delivered) ≠ some (.lease (.acquire env req)) := by
  intro hop
  obtain ⟨b, -, hb⟩ := Option.bind_eq_some_iff.mp hop
  cases hs : b.state with
  | streaming response task =>
    rw [hs, Gateway.HandlerState.taskOp] at hb
    split at hb <;> cases hb
  | _ => rw [hs] at hb; cases hb

theorem sentry_request {sop : Sentry.SentryOp} (hop : s.sentryOp sop = some (.acquire env req)) :
    req.priority = .emergencyTriage := by
  cases sop with
  | poll i cenv =>
    obtain ⟨c, -, hc⟩ := Option.bind_eq_some_iff.mp hop
    cases hs : c.phase with
    | awaitAcquire triage =>
      rw [hs] at hc
      cases hc
      rfl
    | _ => rw [hs] at hc; cases hc
  | _ => cases hop

theorem Confined.request (h : Confined s)
    (hop : s.arbiterOp parseUuid op = some (.lease (.acquire env req))) :
    Freezable req.priority req.clientUnit := by
  cases op with
  | varlink dop =>
    obtain ⟨lop, hlop, hacq⟩ := Option.map_eq_some_iff.mp hop
    cases hacq
    obtain ⟨i, c, params, hc, rfl, -⟩ := Varlink.leaseOp_acquire hlop
    exact freezable_acquireRequest (h.peers i c hc) params
  | httpRequest authorization endpoint => cases hop
  | httpPoll i penv => exact h.poll_request hop
  | httpTask i createdAt delivered => exact absurd hop (pollTask_not_acquire _ i createdAt delivered)
  | httpDrop i => cases hop
  | sentry sop =>
    obtain ⟨lop, hlop, hacq⟩ := Option.map_eq_some_iff.mp hop
    cases hacq
    exact Or.inl (sentry_request hlop)
  | refreshTopology order t => cases hop

theorem acquired_job {h : Gateway.Handler} {job job' : Gateway.Job} {r : Except Error ComputeLease}
    (hjob : job? (h.acquired job r).state = some job') : job' = job := by
  cases r with
  | error e => cases hjob
  | ok lease =>
    unfold Gateway.Handler.acquired at hjob
    cases hans : job.answer with
    | stream prompt => rw [hans] at hjob; cases hjob
    | chat => rw [hans] at hjob; cases hjob; rfl
    | whole prompt => rw [hans] at hjob; cases hjob; rfl

theorem poll_job {h : Gateway.Handler} {penv : Gateway.PollEnv} {job : Gateway.Job}
    (hjob : job? (h.poll a penv).2.state = some job) : job? h.state = some job := by
  unfold Gateway.Handler.poll at hjob
  cases hs : h.state with
  | awaitModel j =>
    rw [hs] at hjob
    dsimp only at hjob
    split at hjob
    · cases hjob
    · exact hjob
  | awaitAcquire j bytes psi =>
    rw [hs] at hjob
    exact congrArg some (acquired_job hjob).symm
  | awaitRelease j lease => rw [hs] at hjob; cases hjob
  | streaming response task =>
    simp only [hs] at hjob
    cases hjob
  | completed response =>
    simp only [hs] at hjob
    cases hjob
  | dropped =>
    simp only [hs] at hjob
    cases hjob

theorem pollTask_job {h : Gateway.Handler} {createdAt : String} {delivered : Bool} {job : Gateway.Job}
    (hjob : job? (h.pollTask a createdAt delivered).2.state = some job) : job? h.state = some job := by
  unfold Gateway.Handler.pollTask at hjob
  cases hs : h.state with
  | streaming response task =>
    rw [hs] at hjob
    dsimp only at hjob
    split at hjob <;> cases hjob
  | _ =>
    simp only [hs] at hjob
    exact hjob

theorem cancel_job {h : Gateway.Handler} {job : Gateway.Job} (hjob : job? h.cancel.state = some job) :
    job? h.state = some job := by
  unfold Gateway.Handler.cancel at hjob
  cases hs : h.state with
  | awaitModel j => rw [hs] at hjob; cases hjob
  | awaitAcquire j bytes psi => rw [hs] at hjob; cases hjob
  | awaitRelease j lease => rw [hs] at hjob; cases hjob
  | _ =>
    simp only [hs] at hjob
    exact hjob

theorem step_job {g : Gateway.GatewayState} {gop : Gateway.GatewayOp} {i : ℕ} {h : Gateway.Handler}
    {job : Gateway.Job} (hh : (Gateway.step g gop).handlers[i]? = some h) (hjob : job? h.state = some job) :
    (∃ h₀, g.handlers[i]? = some h₀ ∧ job? h₀.state = some job) ∨
      ∃ endpoint : Gateway.Endpoint, job = endpoint.job := by
  -- an update of one handler that keeps its request
  have hset : ∀ {j : ℕ} {b : Gateway.Handler} (out : ArbiterState × Gateway.Handler),
      g.handlers[j]? = some b → (job? out.2.state = some job → job? b.state = some job) →
      (g.update j out).handlers[i]? = some h →
      ∃ h₀, g.handlers[i]? = some h₀ ∧ job? h₀.state = some job := by
    intro j b out hb hkeep hh
    rcases getElem?_set_cases hh with ⟨rfl, rfl⟩ | hh
    · exact ⟨b, hb, hkeep hjob⟩
    · exact ⟨h, hh, hjob⟩
  cases gop with
  | request authorization endpoint =>
    simp only [Gateway.step] at hh
    rcases lt_or_ge i g.handlers.length with hi | hi
    · rw [List.getElem?_append_left hi] at hh
      exact Or.inl ⟨h, hh, hjob⟩
    · rw [List.getElem?_append_right hi, List.getElem?_singleton] at hh
      split at hh
      · cases hh
        unfold Gateway.GatewayState.arrive at hjob
        split at hjob
        · cases hjob
          exact Or.inr ⟨endpoint, rfl⟩
        · cases hjob
      · cases hh
  | poll j penv =>
    simp only [Gateway.step] at hh
    cases hb : g.handlers[j]? with
    | none => rw [hb] at hh; exact Or.inl ⟨h, hh, hjob⟩
    | some b => rw [hb] at hh; exact Or.inl (hset _ hb poll_job hh)
  | pollTask j createdAt delivered =>
    simp only [Gateway.step] at hh
    cases hb : g.handlers[j]? with
    | none => rw [hb] at hh; exact Or.inl ⟨h, hh, hjob⟩
    | some b => rw [hb] at hh; exact Or.inl (hset _ hb pollTask_job hh)
  | cancel j =>
    simp only [Gateway.step] at hh
    cases hb : g.handlers[j]? with
    | none => rw [hb] at hh; exact Or.inl ⟨h, hh, hjob⟩
    | some b => rw [hb] at hh; exact Or.inl (hset _ hb cancel_job hh)
  | other o => exact Or.inl ⟨h, hh, hjob⟩
  | setRegistry registry => exact Or.inl ⟨h, hh, hjob⟩

theorem Confined.jobs_gateway (h : Confined s) (gop : Gateway.GatewayOp) (i : ℕ) (b : Gateway.Handler)
    (job : Gateway.Job) (hb : (s.stepGateway gop).handlers[i]? = some b)
    (hjob : job? b.state = some job) : IsUnit job.clientUnit.toList := by
  rcases step_job hb hjob with ⟨b₀, hb₀, hjob₀⟩ | ⟨endpoint, rfl⟩
  · exact h.jobs i b₀ job hb₀ hjob₀
  · exact isUnit_endpoint endpoint

theorem Confined.step (h : Confined s) (op : SystemOp) (hop : op.Attested) :
    Confined (s.step fromSlice parseUuid op) := by
  have hperf := step_performed fromSlice parseUuid s op
  refine ⟨fun id l hl => ?_, fun unit hunit => ?_, fun i c' hc' => ?_, fun i b job hb hjob => ?_⟩
  · rw [hperf.leases] at hl
    cases ho : s.arbiterOp parseUuid op with
    | none =>
      rw [ho] at hl
      exact h.leases id l hl
    | some o =>
      rw [ho] at hl
      refine h.leases.step o (fun env req hacq => ?_) id l hl
      exact h.request (ho.trans (congrArg some hacq))
  · rw [hperf.frozen] at hunit
    rcases List.mem_append.mp hunit with hunit | hunit
    · exact h.frozen unit hunit
    · exact h.leases.effectsOf _ hunit
  · cases op with
    | varlink dop =>
      rcases Varlink.step_peer hc' with ⟨c, hc, hpeer⟩ | hacc
      · rw [hpeer]
        exact h.peers i c hc
      · rw [hacc] at hop
        exact hop
    | sentry sop =>
      rw [show (s.step fromSlice parseUuid (.sentry sop)).conns = s.conns from
        (stepSentry_frame s sop).1] at hc'
      exact h.peers i c' hc'
    | _ => exact h.peers i c' hc'
  · cases op with
    | httpRequest authorization endpoint => exact h.jobs_gateway _ i b job hb hjob
    | httpPoll j env => exact h.jobs_gateway _ i b job hb hjob
    | httpTask j createdAt delivered => exact h.jobs_gateway _ i b job hb hjob
    | httpDrop j => exact h.jobs_gateway _ i b job hb hjob
    | sentry sop =>
      rw [show (s.step fromSlice parseUuid (.sentry sop)).handlers = s.handlers from
        (stepSentry_frame s sop).2] at hb
      exact h.jobs i b job hb hjob
    | _ => exact h.jobs i b job hb hjob

/-! ### Runs -/

/-- Freeze targets stay inside the cgroup root: in every run of Varlink peers
with arbitrary cgroup paths, gateway requests, sentry payloads and hot-plug
events, every unit that `acquire_lease` freezes resolves to a path below
`/sys/fs/cgroup` without `..`, whatever files exist. -/
theorem freeze_targets_below_root (fromSlice : List UInt8 → Option Varlink.Json)
    (parseUuid : String → Option LeaseId) (T : HardwareTopology) (apiToken : Option String)
    (ops : List SystemOp) (hpeers : ∀ op ∈ ops, op.Attested)
    (fileExists : List Char → Bool) :
    ∀ unit ∈ (exec (step fromSlice parseUuid) (start T apiToken) ops).frozen,
      BelowRoot (resolveFreezePath fileExists unit.toList) := by
  have hstart : Confined (start T apiToken) := by
    refine ⟨fun id l hl => ?_, fun unit h => ?_, fun i c h => ?_, fun i b job h => ?_⟩
    · rw [start, new, KeyedMap.get?_empty] at hl
      cases hl
    · cases h
    · cases h
    · cases h
  have hrun : Confined (exec (step fromSlice parseUuid) (start T apiToken) ops) :=
    exec_inv_along (C := fun _ op => op.Attested) Confined (fun _ op hop h => h.step op hop)
      _ ops hstart (along_of_forall ops (fun op hmem _ => hpeers op hmem) _)
  exact fun unit hunit => belowRoot_resolveFreezePath fileExists (hrun.frozen unit hunit)

/-- A sentry payload that names a unit outside the hierarchy, and its reading. -/
def escapingPayload : List UInt8 :=
  "\x7b\"unit_name\":\"/etc/../root\"\x7d".toList.map Char.toUInt8

def sampleFromSlice (bytes : List UInt8) : Option Varlink.Json :=
  if bytes = escapingPayload then some (.object [("unit_name", .string "/etc/../root")]) else none

/-- A job whose cgroup path leads up is preempted by the sentry, and a second
payload finds the emergency lease of the first. -/
def escapingRun : List SystemOp :=
  [.varlink (.accept (some (PeerInfo.ofCgroup 42 1000 1000 "/../../ai-batch.slice/../job"))),
   .varlink (Varlink.sampleFrame 0 0 "AcquireLease" [("memory_bytes", .posInt 6)] true),
   .sentry .accept, .sentry (.read 0 (some escapingPayload)), .sentry (.poll 0 (sampleEnv 1)),
   .sentry .accept, .sentry (.read 1 (some escapingPayload)), .sentry (.poll 1 (sampleEnv 2))]

theorem freeze_targets_below_root_escapingRun :
    (exec (step sampleFromSlice Varlink.sampleUuid) (start gpuTopology none) escapingRun).frozen =
      ["ai-batch.slice"] ∧
    BelowRoot (resolveFreezePath (fun _ => false) "ai-batch.slice".toList) := by
  have hpeers : ∀ op ∈ escapingRun, op.Attested := by
    simp only [escapingRun, List.forall_mem_cons]
    exact ⟨⟨42, 1000, 1000, _, rfl⟩, trivial, trivial, trivial, trivial, trivial, trivial, trivial,
      List.forall_mem_nil _⟩
  have hfrozen : (exec (step sampleFromSlice Varlink.sampleUuid) (start gpuTopology none)
      escapingRun).frozen = ["ai-batch.slice"] := by decide
  refine ⟨hfrozen, freeze_targets_below_root sampleFromSlice Varlink.sampleUuid gpuTopology
    none escapingRun hpeers (fun _ => false) _ ?_⟩
  rw [hfrozen]
  exact List.mem_singleton_self _

end System

end Inferenced
