import Inferenced.Arbiter.Conservation

/-!
# Refused acquisitions

The preemption loop of `acquire_lease` writes lease states and plane counters
before the final check, and the refusal after that check
(arbiter.rs:115-122) is an early return that undoes nothing: the victims stay
`Preempted` and are neither signalled nor frozen.
-/

namespace Inferenced.Arbiter
open Lib Lib.Runs HardwareTopology

variable {s : ArbiterState} {env : CallEnv} {req : LeaseRequest}

/-- The request does not come as far as a victim: the pressure gate or the
choice of a plane stops it, or no active lease of lower priority is on the
chosen plane. -/
def SparesLeases (s : ArbiterState) (env : CallEnv) (req : LeaseRequest) : Prop :=
  Barred s env req ∨ ∀ idx, targetPlaneIdx s.topology req = .ok idx →
    ∀ l, ¬ Victim s.leases (s.topology.planeIdAt idx) req.priority l

theorem makeRoom_unchanged_iff {idx : ℕ} (hx : Exhausted s env req idx) :
    ({ s with
        topology := (makeRoom s env req idx).topology
        leases := (makeRoom s env req idx).leases } : ArbiterState) = s ↔
      ∀ l, ¬ Victim s.leases (s.topology.planeIdAt idx) req.priority l := by
  constructor
  · intro h l hv
    have hleases : (makeRoom s env req idx).leases = s.leases := congrArg ArbiterState.leases h
    have hpre := hx.preempted hv
    rw [hleases, hv.stored] at hpre
    -- the victim is active before and preempted after
    have hst : l.state = .preempted := congrArg ComputeLease.state (Option.some.inj hpre)
    have ha := hv.active
    rw [ComputeLease.isActive, hst] at ha
    cases ha
  · intro h
    rw [makeRoom_of_no_victim h]

/-- Atomicity of a refused acquisition: the arbiter state is the one before the
call if and only if the request did not come as far as a victim. -/
theorem refused_acquire_unchanged_iff (s : ArbiterState) (env : CallEnv) (req : LeaseRequest)
    (e : Error) (herr : (acquireLease s env req).result = .error e) :
    (acquireLease s env req).state = s ↔ SparesLeases s env req := by
  rcases acquireLease_cases s env req with
    ⟨hbar, e', he⟩ | ⟨⟨hbar, -⟩, idx, e', ht, hx, he⟩ | ⟨idx, -, he⟩
  · rw [he]
    exact iff_of_true rfl (Or.inl hbar)
  · have hspares : SparesLeases s env req ↔
        ∀ l, ¬ Victim s.leases (s.topology.planeIdAt idx) req.priority l := by
      constructor
      · rintro (h | h)
        · exact absurd h hbar
        · exact h idx ht
      · intro h
        refine Or.inr fun j hj => ?_
        rw [ht] at hj
        cases hj
        exact h
    rw [he, hspares]
    exact makeRoom_unchanged_iff hx
  · rw [he] at herr
    cases herr

def busyGpu : ArbiterState :=
  stepLease (new gpuTopology) (.acquire (sampleEnv 0) (sampleRequest .batch 6 "gpu0"))

/-- A batch request has no victims. -/
theorem busyGpu_spares : SparesLeases busyGpu (sampleEnv 1) (sampleRequest .batch 100 "gpu0") := by
  refine Or.inr fun idx _ l hv => ?_
  have hlower : l.priority.weight < LeasePriority.batch.weight := hv.lower
  cases hpriority : l.priority <;> exact absurd (hpriority ▸ hlower) (by decide)

theorem refused_acquire_unchanged_iff_busyGpu :
    SparesLeases busyGpu (sampleEnv 1) (sampleRequest .batch 100 "gpu0") ∧
      (acquireLease busyGpu (sampleEnv 1) (sampleRequest .batch 100 "gpu0")).state = busyGpu :=
  ⟨busyGpu_spares, (refused_acquire_unchanged_iff _ _ _ (.resourceExhaustion "gpu0" 100 4)
    (by rfl)).mpr busyGpu_spares⟩

/-- An interactive request for 100 bytes is refused, and leaves the batch lease
preempted, its memory credited and its process neither signalled nor frozen. -/
theorem refused_acquire_preempts :
    (acquireLease busyGpu (sampleEnv 1) (sampleRequest .interactive 100 "gpu0")).result =
        .error (.resourceExhaustion "gpu0" 100 10) ∧
      (acquireLease busyGpu (sampleEnv 1) (sampleRequest .interactive 100 "gpu0")).state ≠ busyGpu ∧
      ((acquireLease busyGpu (sampleEnv 1) (sampleRequest .interactive 100 "gpu0")).state.leases.get?
        (sampleId 0)).map (·.state) = some .preempted ∧
      (acquireLease busyGpu (sampleEnv 1) (sampleRequest .interactive 100 "gpu0")).effects = [] := by
  refine ⟨by rfl, fun h => ?_, by decide, by rfl⟩
  have hstate : ((acquireLease busyGpu (sampleEnv 1)
      (sampleRequest .interactive 100 "gpu0")).state.leases.get? (sampleId 0)).map (·.state) =
      (busyGpu.leases.get? (sampleId 0)).map (·.state) := by rw [h]
  exact absurd hstate (by decide)

end Inferenced.Arbiter
