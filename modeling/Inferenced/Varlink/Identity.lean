import Inferenced.Arbiter.Leases
import Inferenced.Varlink.Handlers

/-!
# What a peer says about itself

`handle_acquire_lease` (varlink/leases.rs:10-79) replaces unit and pid of the
parameters by what the socket says, and the priority of a batch peer by `Batch`.
Two requests that differ in these fields only are then the same request to the
arbiter, and the two runs differ in the lease id they draw.
-/

namespace Inferenced.Varlink
open Lib Arbiter HardwareTopology

variable {s : ArbiterState} {env : CallEnv} {req : LeaseRequest} {peer : PeerInfo}

/-- The parameters that a verified peer has no say in. -/
def claimedFields (peer : PeerInfo) : List String :=
  if peer.isBatch then ["unit", "pid", "priority"] else ["unit", "pid"]

theorem acquireRequest_congr (hpid : 0 < peer.pid) {p p' : Json}
    (hsame : ∀ key, key ∉ claimedFields peer → p.get key = p'.get key) :
    acquireRequest p (some peer) = acquireRequest p' (some peer) := by
  have hmemory : p.get "memory_bytes" = p'.get "memory_bytes" := by
    refine hsame _ ?_
    unfold claimedFields
    split <;> decide
  have hplane : p.get "plane" = p'.get "plane" := by
    refine hsame _ ?_
    unfold claimedFields
    split <;> decide
  simp only [acquireRequest, hmemory, hplane, if_pos hpid]
  cases hbatch : peer.isBatch with
  | true => rfl
  | false =>
    have hpriority : p.get "priority" = p'.get "priority" := by
      refine hsame _ ?_
      simp only [claimedFields, hbatch]
      decide
    simp only [hpriority]

/-! ### Up to the fresh id -/

def acquireReply (lease : ComputeLease) : VarlinkReply :=
  .ok (.object
    [("lease_id", .string lease.id.toString),
     ("plane_id", .string lease.planeId),
     ("allocated_memory", .posInt lease.allocatedMemoryBytes)])

/-- Two outcomes of an acquisition are the same up to the ids `n` and `n'` that
were drawn: nothing was granted and they are equal, or the same lease was
granted under the two ids. -/
inductive SameUpToId (n n' : LeaseId) (active : List LeaseId) : Handled → Handled → Prop where
  | refused (h : Handled) (hactive : h.activeLeases = active) : SameUpToId n n' active h h
  | granted (after : ArbiterState) (lease : ComputeLease) (effects : List KernelEffect)
      (hid : lease.id = n) (hn : after.leases.get? n = none) (hn' : after.leases.get? n' = none) :
      SameUpToId n n' active
        { arbiter := { after with leases := after.leases.insert lease }
          activeLeases := active ++ [n]
          reply := some (acquireReply lease)
          effects }
        { arbiter := { after with leases := after.leases.insert { lease with id := n' } }
          activeLeases := active ++ [n']
          reply := some (acquireReply { lease with id := n' })
          effects }

theorem handleAcquireLease_refused (active : List LeaseId) (env : HandlerEnv) {params : Json}
    {peerInfo : Option PeerInfo} {e : Error} {after : ArbiterState}
    (h : acquireLease s env.toCallEnv (acquireRequest params peerInfo) =
      { result := .error e, state := after }) :
    handleAcquireLease (some params) s active peerInfo env =
      { arbiter := after
        activeLeases := active
        reply := some (.fail "io.systemd.inferenced1.ResourceExhaustion"
          (.object [("error", .string e.toString)])) } := by
  simp only [handleAcquireLease, h]

theorem handleAcquireLease_granted (active : List LeaseId) (env : HandlerEnv) {params : Json}
    {peerInfo : Option PeerInfo} {room : Preemption} {idx : ℕ}
    (h : acquireLease s env.toCallEnv (acquireRequest params peerInfo) =
      grant s room env.toCallEnv (acquireRequest params peerInfo) idx) :
    handleAcquireLease (some params) s active peerInfo env =
      { arbiter := (grant s room env.toCallEnv (acquireRequest params peerInfo) idx).state
        activeLeases := active ++ [env.newId]
        reply := some (acquireReply (grantedLease s env.toCallEnv (acquireRequest params peerInfo) idx))
        effects := freezeEffects room.toFreeze } := by
  simp only [handleAcquireLease, h]
  rfl

theorem acquireLease_newId (n' : LeaseId) (h : ∀ idx, ¬ Admitted s env req idx) :
    acquireLease s { env with newId := n' } req = acquireLease s env req := by
  unfold acquireLease
  by_cases hg : env.psi.level = .critical ∧ req.priority ≠ .emergencyTriage
  · rw [if_pos hg, if_pos hg]
  · rw [if_neg hg, if_neg hg]
    cases ht : targetPlaneIdx s.topology req with
    | error e => rfl
    | ok idx =>
      by_cases hx : Exhausted s env req idx ∧ req.priority ≠ .emergencyTriage
      · exact (if_pos hx).trans (if_pos hx).symm
      · refine absurd ⟨fun hc => ?_, ht, fun hex => ?_⟩ (h idx)
        · by_contra hne
          exact hg ⟨hc, hne⟩
        · by_contra hne
          exact hx ⟨hex, hne⟩

theorem handleAcquireLease_newId (params : Json) (peerInfo : Option PeerInfo)
    (active : List LeaseId) (env : HandlerEnv) (n' : LeaseId)
    (hn : s.leases.get? env.newId = none) (hn' : s.leases.get? n' = none) :
    SameUpToId env.newId n' active (handleAcquireLease (some params) s active peerInfo env)
      (handleAcquireLease (some params) s active peerInfo { env with newId := n' }) := by
  have hrefused : ∀ e after, (∀ idx, ¬ Admitted s env.toCallEnv (acquireRequest params peerInfo) idx) →
      acquireLease s env.toCallEnv (acquireRequest params peerInfo) =
        { result := .error e, state := after } →
      SameUpToId env.newId n' active (handleAcquireLease (some params) s active peerInfo env)
        (handleAcquireLease (some params) s active peerInfo { env with newId := n' }) := by
    intro e after hno h
    have h' := (acquireLease_newId n' hno).trans h
    rw [handleAcquireLease_refused active env h,
      handleAcquireLease_refused active { env with newId := n' } h']
    exact .refused _ rfl
  rcases acquireLease_cases s env.toCallEnv (acquireRequest params peerInfo) with
    ⟨hbar, e, h⟩ | ⟨⟨-, hno⟩, idx, e, -, -, h⟩ | ⟨idx, hadm, h⟩
  · exact hrefused e _ hbar.not_admitted h
  · exact hrefused e _ hno h
  · have hadm' : Admitted s { env.toCallEnv with newId := n' } (acquireRequest params peerInfo) idx :=
      ⟨hadm.gate, hadm.target, hadm.room⟩
    rw [handleAcquireLease_granted active env h, handleAcquireLease_granted active
      { env with newId := n' } (acquireLease_of_admitted hadm')]
    have hnone : ∀ n, s.leases.get? n = none → (collectGarbage (makeRoom s env.toCallEnv
        (acquireRequest params peerInfo) idx).leases).get? n = none :=
      fun n h => get?_collectGarbage_none (get?_makeRoom_none h)
    exact .granted
      { s with
        topology := debitTarget (makeRoom s env.toCallEnv (acquireRequest params peerInfo) idx).topology
          idx (acquireRequest params peerInfo).requiredBytes
        leases := collectGarbage (makeRoom s env.toCallEnv (acquireRequest params peerInfo) idx).leases }
      (grantedLease s env.toCallEnv (acquireRequest params peerInfo) idx) _ rfl
      (hnone _ hn) (hnone _ hn')

/-! ### Batch peers -/

theorem acquireRequest_batch (hbatch : peer.isBatch = true) (p : Json) :
    (acquireRequest p (some peer)).priority = .batch := by
  simp [acquireRequest, hbatch]

theorem acquireLease_batch (hprio : req.priority = .batch) (hn : s.leases.get? env.newId = none)
    {id : LeaseId} {l : ComputeLease} (hl : s.leases.get? id = some l) (hlive : l.isLive = true) :
    (acquireLease s env req).state.leases.get? id = some l := by
  have hroom : ∀ idx, makeRoom s env req idx = ⟨s.topology, s.leases, []⟩ := by
    intro idx
    refine makeRoom_of_no_victim fun v hv => ?_
    have hlt := hv.lower
    rw [hprio, LeasePriority.lt_def] at hlt
    exact absurd hlt (Nat.not_lt_zero _)
  rcases acquireLease_cases s env req with ⟨-, e, h⟩ | ⟨-, idx, e, -, -, h⟩ | ⟨idx, -, h⟩ <;> rw [h]
  · exact hl
  · rw [hroom idx]
    exact hl
  · have hne : id ≠ env.newId := by
      rintro rfl
      rw [hl] at hn
      cases hn
    rw [get?_grant, if_neg hne, hroom idx]
    rcases get?_collectGarbage s.leases id with hgc | ⟨m, hm, hdead, -⟩
    · exact hgc.trans hl
    · rw [hl] at hm
      cases hm
      rw [hlive] at hdead
      cases hdead

theorem handleAcquireLease_arbiter (params : Json) (active : List LeaseId)
    (peerInfo : Option PeerInfo) (env : HandlerEnv) :
    (handleAcquireLease (some params) s active peerInfo env).arbiter =
      (acquireLease s env.toCallEnv (acquireRequest params peerInfo)).state := by
  simp only [handleAcquireLease]
  split <;> rfl

theorem granted_priority {lease : ComputeLease} (hn : s.leases.get? env.newId = none)
    (h : (acquireLease s env req).state.leases.get? env.newId = some lease) :
    lease.priority = req.priority := by
  have hchange : LeaseChange s (.acquire env req) env.newId (acquireLease s env req).state :=
    acquireLease_lease hn env.newId
  cases hchange with
  | same hs => rw [hs, hn] at h; cases h
  | granted env' req' idx hop _ _ _ hget =>
    cases hop
    rw [hget] at h
    cases h
    rfl
  | dropped env' req' l _ hb => rw [hn] at hb; cases hb
  | moved l st hb => rw [hn] at hb; cases hb

/-- Claimed identity has no influence: for every state, verified pid and iteration
order, two requests whose parameters differ in unit and pid only, and for a batch
peer also in priority, end the same up to the lease id they draw. The lease of a
batch peer has priority `Batch`, and its request leaves every live lease as it
is. -/
theorem claimed_identity_ignored (s : ArbiterState) (active : List LeaseId) (peer : PeerInfo)
    (hpid : 0 < peer.pid) (env : HandlerEnv) (n' : LeaseId) (p p' : Json)
    (hsame : ∀ key, key ∉ claimedFields peer → p.get key = p'.get key)
    (hn : s.leases.get? env.newId = none) (hn' : s.leases.get? n' = none) :
    SameUpToId env.newId n' active (handleAcquireLease (some p) s active (some peer) env)
      (handleAcquireLease (some p') s active (some peer) { env with newId := n' }) ∧
    (peer.isBatch = true →
      (∀ lease, (handleAcquireLease (some p) s active (some peer) env).arbiter.leases.get?
        env.newId = some lease → lease.priority = .batch) ∧
      (∀ id l, s.leases.get? id = some l → l.isLive = true →
        (handleAcquireLease (some p) s active (some peer) env).arbiter.leases.get? id = some l)) := by
  constructor
  · have hreq := acquireRequest_congr hpid hsame
    have hcongr : handleAcquireLease (some p') s active (some peer) { env with newId := n' } =
        handleAcquireLease (some p) s active (some peer) { env with newId := n' } := by
      simp only [handleAcquireLease, hreq]
    rw [hcongr]
    exact handleAcquireLease_newId p (some peer) active env n' hn hn'
  · intro hbatch
    have hprio := acquireRequest_batch hbatch p
    rw [handleAcquireLease_arbiter]
    exact ⟨fun lease h => (granted_priority hn h).trans hprio,
      fun id l hl hlive => acquireLease_batch hprio hn hl hlive⟩

/-- A batch job that claims to be an emergency of another unit, and the same
request without the claims. -/
def claimingParams : Json :=
  .object [("priority", .string "EmergencyTriage"), ("memory_bytes", .posInt 4),
    ("unit", .string "/etc"), ("pid", .posInt 1)]

def plainParams : Json := .object [("memory_bytes", .posInt 4)]

def jobPeer : PeerInfo := .ofCgroup 42 0 0 "/ai-batch.slice/job.service"

theorem claimingParams_get (key : String) (h : key ∉ claimedFields jobPeer) :
    claimingParams.get key = plainParams.get key := by
  have hfields : claimedFields jobPeer = ["unit", "pid", "priority"] := by decide
  rw [hfields] at h
  simp only [List.mem_cons, List.not_mem_nil, or_false, not_or] at h
  have hne : ("priority" ≠ key ∧ "unit" ≠ key) ∧ "pid" ≠ key :=
    ⟨⟨Ne.symm h.2.2, Ne.symm h.1⟩, Ne.symm h.2.1⟩
  simp only [claimingParams, plainParams, Json.get, List.find?_cons, List.find?_nil, hne.1.1, hne.1.2,
    hne.2, decide_false]

theorem claimed_identity_ignored_jobPeer :
    SameUpToId (sampleId 0) (sampleId 1) []
      (handleAcquireLease (some claimingParams) (new (sampleTopology
        [samplePlane "gpu0" .discreteGpu 10 10])) [] (some jobPeer)
        { toCallEnv := sampleEnv 0, modelOrder := IterOrder.stored, now := 0 })
      (handleAcquireLease (some plainParams) (new (sampleTopology
        [samplePlane "gpu0" .discreteGpu 10 10])) [] (some jobPeer)
        { toCallEnv := sampleEnv 1, modelOrder := IterOrder.stored, now := 0 }) :=
  (claimed_identity_ignored _ [] jobPeer (by decide)
    { toCallEnv := sampleEnv 0, modelOrder := IterOrder.stored, now := 0 } (sampleId 1)
    claimingParams plainParams claimingParams_get rfl rfl).1

end Inferenced.Varlink
