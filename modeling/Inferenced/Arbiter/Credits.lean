import Inferenced.Arbiter.LifeCycle

/-!
# The credits of an operation

`restore_plane_memory` (arbiter.rs:236-246) is called for every victim of the
preemption loop and at the end of an active lease. An operation is charged here
with the list of its credits, in the order they are made: a credit is a step
on the topology, so what holds at every credit of an operation is a statement
`Along` that list.
-/

namespace Inferenced.Arbiter
open Lib Lib.Runs HardwareTopology

variable {s : ArbiterState} {env : CallEnv} {req : LeaseRequest} {idx : ℕ}

structure Credit where
  planeId : String
  bytes : UInt64
  deriving DecidableEq

def creditStep (t : HardwareTopology) (c : Credit) : HardwareTopology :=
  restorePlaneMemory t c.planeId c.bytes

def roomCredits (s : ArbiterState) (env : CallEnv) (req : LeaseRequest) (idx : ℕ) : List Credit :=
  (makeRoom s env req idx).toFreeze.map fun l => ⟨s.topology.planeIdAt idx, l.allocatedMemoryBytes⟩

def endCredits (s : ArbiterState) (id : LeaseId) : List Credit :=
  match s.leases.get? id with
  | some l => if l.isActive then [⟨l.planeId, l.allocatedMemoryBytes⟩] else []
  | none => []

def credits (s : ArbiterState) : LeaseOp → List Credit
  | .acquire env req =>
    if env.psi.level = .critical ∧ req.priority ≠ .emergencyTriage then []
    else match targetPlaneIdx s.topology req with
      | .ok idx => roomCredits s env req idx
      | .error _ => []
  | .release id | .revoke id => endCredits s id
  | _ => []

/-! ### The list is what the operations do -/

theorem makeRoom_topology (s : ArbiterState) (env : CallEnv) (req : LeaseRequest) (idx : ℕ) :
    (makeRoom s env req idx).topology = exec creditStep s.topology (roomCredits s env req idx) := by
  unfold roomCredits
  refine makeRoom_rule (fun r => r.topology = exec creditStep s.topology (r.toFreeze.map fun l =>
    ⟨s.topology.planeIdAt idx, l.allocatedMemoryBytes⟩)) rfl ?_
  intro r l hr _ _ _
  simp only [Preemption.preempt, List.map_append, List.map_cons, List.map_nil, exec_append]
  rw [← hr]
  rfl

theorem endLease_topology (final : LeaseState) (s : ArbiterState) (id : LeaseId) :
    (endLease final s id).state.topology = exec creditStep s.topology (endCredits s id) := by
  unfold endCredits
  rcases endLease_cases final s id with ⟨r, he, hdead⟩ | ⟨l, hl, ha, he⟩ | ⟨l, hl, hp, he⟩ <;> rw [he]
  · cases hl : s.leases.get? id with
    | none => rfl
    | some l =>
      simp only [isActive_of_not_live (hdead l hl), Bool.false_eq_true, if_false]
      rfl
  · simp only [hl, ha, if_true]
    rfl
  · simp only [hl, preempted_inactive hp, Bool.false_eq_true, if_false]
    rfl

/-- What is left of an operation beyond its credits: a debit, for a grant and
for the thaw of a preempted lease. -/
theorem stepLease_topology (s : ArbiterState) (op : LeaseOp) :
    (stepLease s op).topology = exec creditStep s.topology (credits s op) ∨
    (∃ idx bytes, (stepLease s op).topology =
      debitTarget (exec creditStep s.topology (credits s op)) idx bytes) ∨
    ∃ planeId bytes, (stepLease s op).topology =
      debitPlaneMemory (exec creditStep s.topology (credits s op)) planeId bytes := by
  cases op with
  | acquire env req =>
    simp only [stepLease, credits, acquireLease]
    by_cases hg : env.psi.level = .critical ∧ req.priority ≠ .emergencyTriage
    · simp only [if_pos hg]
      exact Or.inl rfl
    · simp only [if_neg hg]
      cases ht : targetPlaneIdx s.topology req with
      | error e => exact Or.inl rfl
      | ok idx =>
        dsimp only
        rw [← makeRoom_topology]
        split
        · exact Or.inl rfl
        · exact Or.inr (Or.inl ⟨idx, req.requiredBytes, rfl⟩)
  | release id => exact Or.inl (endLease_topology .expired s id)
  | revoke id => exact Or.inl (endLease_topology .revoked s id)
  | yield id =>
    refine Or.inl ?_
    show (markLease .preempting s id).state.topology = _
    rcases markLease_cases .preempting s id with ⟨r, he, -⟩ | ⟨l, -, -, he⟩ <;> rw [he] <;> rfl
  | freeze id =>
    refine Or.inl ?_
    show (markLease .frozen s id).state.topology = _
    rcases markLease_cases .frozen s id with ⟨r, he, -⟩ | ⟨l, -, -, he⟩ <;> rw [he] <;> rfl
  | thaw id =>
    simp only [stepLease, credits]
    rcases thawLease_cases s id with
      ⟨e, he, -⟩ | ⟨l, -, -, -, he⟩ | ⟨l, -, -, he⟩ | ⟨l, -, -, he⟩ <;> rw [he]
    · exact Or.inl rfl
    · exact Or.inr (Or.inr ⟨l.planeId, l.allocatedMemoryBytes, rfl⟩)
    · exact Or.inl rfl
    · exact Or.inl rfl

/-! ### Where credits come from -/

theorem mem_credits {op : LeaseOp} {c : Credit} (h : c ∈ credits s op) :
    ∃ l, s.leases.get? l.id = some l ∧ l.isActive = true ∧
      c = ⟨l.planeId, l.allocatedMemoryBytes⟩ ∧
      ((op = .release l.id ∨ op = .revoke l.id) ∨
        ∃ env req, op = .acquire env req ∧ l.priority < req.priority) := by
  have hend : ∀ id, c ∈ endCredits s id → ∃ l, l.id = id ∧ s.leases.get? l.id = some l ∧
      l.isActive = true ∧ c = ⟨l.planeId, l.allocatedMemoryBytes⟩ := by
    intro id hc
    unfold endCredits at hc
    split at hc
    · rename_i l hl
      split at hc
      · rename_i ha
        have hid := KeyedMap.get?_key hl
        exact ⟨l, hid, hid ▸ hl, ha, List.mem_singleton.mp hc⟩
      · cases hc
    · cases hc
  cases op with
  | acquire env req =>
    simp only [credits] at h
    split at h
    · cases h
    · split at h
      · rename_i idx _
        obtain ⟨l, hl, rfl⟩ := List.mem_map.mp h
        obtain ⟨hv, -⟩ := makeRoom_toFreeze s env req idx l hl
        refine ⟨l, hv.stored, hv.active, ?_, Or.inr ⟨env, req, rfl, hv.lower⟩⟩
        rw [hv.onTarget]
      · cases h
  | release id =>
    obtain ⟨l, rfl, hl, ha, hc⟩ := hend id h
    exact ⟨l, hl, ha, hc, Or.inl (Or.inl rfl)⟩
  | revoke id =>
    obtain ⟨l, rfl, hl, ha, hc⟩ := hend id h
    exact ⟨l, hl, ha, hc, Or.inl (Or.inr rfl)⟩
  | _ => cases h

end Inferenced.Arbiter
