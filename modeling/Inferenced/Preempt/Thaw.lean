import Inferenced.Arbiter.Thaw
import Inferenced.Preempt

/-!
# The client of a refused thaw

The coordinator's `thaw_lease` resumes the client first and asks the arbiter
then (preempt.rs:176-183). When the arbiter refuses, the error is returned and
nothing stops the client again: a preempted client then runs while the memory of
its lease is with others. `acquire_lease` has the other order: its victims are
signalled and frozen once every check has passed (arbiter.rs:115-128).
-/

namespace Inferenced.Preempt
open Lib Lib.Runs Arbiter

variable {k : KernelState} {s : ArbiterState} {id : LeaseId} {lease : ComputeLease}

/-- A thaw of the client changes something: its cgroup is frozen and can be
thawed, or its process can be sent a signal. -/
def Resumable (k : KernelState) (lease : ComputeLease) : Prop :=
  (∃ unit, lease.clientUnit = some unit ∧
    k.writable (Freezer.resolveFreezePath k.fileExists unit.toList) = true ∧
    k.frozen (Freezer.resolveFreezePath k.fileExists unit.toList) = true) ∨
  ∃ pid, lease.clientPid = some pid ∧ pid ≠ 0 ∧ k.signallable pid = true

/-- The arbiter knows the lease and, if it is preempted, has its memory. -/
def Thawable (s : ArbiterState) (id : LeaseId) : Prop :=
  ∃ l, s.leases.get? id = some l ∧ (l.state = .preempted → ThawFits s.topology l)

theorem thawLease_error_iff (s : ArbiterState) (id : LeaseId) :
    (∃ e, (Arbiter.thawLease s id).result = .error e) ↔ ¬ Thawable s id := by
  cases hl : s.leases.get? id with
  | none =>
    refine iff_of_true ⟨.leaseNotFound id.toString, by rw [Arbiter.thawLease, hl]⟩ ?_
    rintro ⟨l, hget, -⟩
    cases hl.symm.trans hget
  | some l =>
    have hthawable : Thawable s id ↔ (l.state = .preempted → ThawFits s.topology l) := by
      simp [Thawable, hl]
    rw [hthawable]
    by_cases hp : l.state = .preempted
    · rcases thawLease_of_preempted hl hp with ⟨e, he, hno⟩ | ⟨hfit, he⟩
      · exact iff_of_true ⟨e, by rw [he]⟩ fun h => hno (h hp)
      · rw [he]
        exact iff_of_false (by rintro ⟨e, ⟨⟩⟩) (not_not_intro fun _ => hfit)
    · obtain ⟨leases, he, -, -⟩ := thawLease_of_not_preempted hl hp
      rw [he]
      exact iff_of_false (by rintro ⟨e, ⟨⟩⟩) (not_not_intro fun h => absurd h hp)

theorem thawCgroup_eq_iff (k : KernelState) (unit : String) :
    k.thawCgroup unit = k ↔
      ¬ (k.writable (Freezer.resolveFreezePath k.fileExists unit.toList) = true ∧
        k.frozen (Freezer.resolveFreezePath k.fileExists unit.toList) = true) := by
  unfold KernelState.thawCgroup
  dsimp only
  generalize Freezer.resolveFreezePath k.fileExists unit.toList = file
  by_cases hw : k.writable file = true
  · rw [if_pos hw]
    constructor
    · rintro h ⟨-, hfrozen⟩
      have hfile := congrFun (congrArg KernelState.frozen h) file
      rw [hfrozen] at hfile
      simp at hfile
    · intro h
      have hfrozen : k.frozen file = false := by
        cases hf : k.frozen file with
        | false => rfl
        | true => exact absurd ⟨hw, hf⟩ h
      have hsame : (fun f => if f = file then false else k.frozen f) = k.frozen := by
        funext f
        split
        · rename_i hf
          rw [hf, hfrozen]
        · rfl
      rw [hsame]
  · rw [if_neg hw]
    exact iff_of_true rfl fun h => hw h.1

theorem thawProcessSignal_eq_iff (k : KernelState) (pid : UInt32) :
    k.thawProcessSignal pid = k ↔ ¬ (pid ≠ 0 ∧ k.signallable pid = true) := by
  unfold KernelState.thawProcessSignal
  split
  · rename_i hsent
    refine iff_of_false (fun h => ?_) (not_not_intro hsent)
    have hlen := congrArg (fun k => k.continued.length) h
    simp at hlen
  · rename_i hnot
    exact iff_of_true rfl hnot

theorem thawCgroup_signals (k : KernelState) (unit : String) :
    (k.thawCgroup unit).signallable = k.signallable ∧ (k.thawCgroup unit).continued = k.continued := by
  unfold KernelState.thawCgroup
  dsimp only
  split <;> exact ⟨rfl, rfl⟩

theorem resume_eq_iff (k : KernelState) (lease : ComputeLease) :
    k.resume lease = k ↔ ¬ Resumable k lease := by
  have hunit : lease.clientUnit.elim k k.thawCgroup = k ↔ ¬ ∃ unit, lease.clientUnit = some unit ∧
      k.writable (Freezer.resolveFreezePath k.fileExists unit.toList) = true ∧
      k.frozen (Freezer.resolveFreezePath k.fileExists unit.toList) = true := by
    cases lease.clientUnit with
    | none => simp
    | some unit => simpa using thawCgroup_eq_iff k unit
  have hsignals : (lease.clientUnit.elim k k.thawCgroup).signallable = k.signallable ∧
      (lease.clientUnit.elim k k.thawCgroup).continued = k.continued := by
    cases lease.clientUnit with
    | none => exact ⟨rfl, rfl⟩
    | some unit => exact thawCgroup_signals k unit
  unfold KernelState.resume Resumable
  dsimp only
  rw [not_or, ← hunit]
  generalize lease.clientUnit.elim k k.thawCgroup = k₁ at hsignals
  cases lease.clientPid with
  | none => simp
  | some pid =>
    have hsent : k₁.thawProcessSignal pid = k₁ ↔ ¬ (pid ≠ 0 ∧ k.signallable pid = true) := by
      rw [thawProcessSignal_eq_iff, hsignals.1]
    have hpid : (¬ ∃ p, some pid = some p ∧ p ≠ 0 ∧ k.signallable p = true) ↔
        k₁.thawProcessSignal pid = k₁ := by
      rw [hsent]
      simp
    rw [hpid]
    show k₁.thawProcessSignal pid = k ↔ _
    constructor
    · intro h
      -- a signal is never unsent, so the kernel is the one before it
      have hsame : k₁.thawProcessSignal pid = k₁ := by
        rw [thawProcessSignal_eq_iff]
        intro hcan
        have hlen := congrArg (fun k => k.continued.length) h
        simp [KernelState.thawProcessSignal, hcan, hsignals.2] at hlen
      exact ⟨hsame.symm.trans h, hsame⟩
    · rintro ⟨h₁, h⟩
      exact h.trans h₁

/-- A refused thaw leaves the client as it was if and only if the lease is not
there to begin with, or nothing of its client can be resumed, or the arbiter,
when it is asked, does not refuse. -/
theorem refused_thaw_spares_client_iff (k : KernelState) (s : ArbiterState) (others : List ArbiterOp)
    (id : LeaseId) :
    (∀ e, (thawLease k s others id).result = .error e → (thawLease k s others id).kernel = k) ↔
      ∀ lease, s.leases.get? id = some lease → Resumable k lease →
        Thawable (exec Arbiter.step s others) id := by
  unfold thawLease
  cases hl : s.leases.get? id with
  | none => exact iff_of_true (fun _ _ => rfl) fun lease h => by cases h
  | some lease =>
    dsimp only
    rw [resume_eq_iff]
    constructor
    · intro h m hm hres
      obtain rfl : lease = m := Option.some.inj hm
      by_contra hno
      obtain ⟨e, he⟩ := (thawLease_error_iff _ id).mpr hno
      exact h e he hres
    · intro h e he hres
      exact (thawLease_error_iff _ id).mp ⟨e, he⟩ (h lease rfl hres)

/-- A batch lease of 6 bytes, whose client is known by unit and pid, preempted
by an interactive one of 6 bytes. -/
def preemptedClient : ArbiterState :=
  exec stepLease (new gpuTopology)
    [.acquire (sampleEnv 0)
      { sampleRequest .batch 6 "gpu0" with
        clientUnit := some "ai-batch.slice", clientPid := some 4242 },
     .acquire (sampleEnv 1) (sampleRequest .interactive 6 "gpu0")]

def stoppedKernel : KernelState :=
  { fileExists := fun _ => true, writable := fun _ => true, signallable := fun _ => true
    frozen := fun _ => true, continued := [] }

/-- The arbiter refuses the thaw, and the client has been thawed and continued. -/
theorem refused_thaw_resumes_client :
    (thawLease stoppedKernel preemptedClient [] (sampleId 0)).result =
        .error (.resourceExhaustion "gpu0" 6 4) ∧
      (thawLease stoppedKernel preemptedClient [] (sampleId 0)).kernel.frozen
        (Freezer.resolveFreezePath stoppedKernel.fileExists "ai-batch.slice".toList) = false ∧
      (thawLease stoppedKernel preemptedClient [] (sampleId 0)).kernel.continued = [4242] ∧
      ¬ (∀ e, (thawLease stoppedKernel preemptedClient [] (sampleId 0)).result = .error e →
        (thawLease stoppedKernel preemptedClient [] (sampleId 0)).kernel = stoppedKernel) := by
  have herr : (thawLease stoppedKernel preemptedClient [] (sampleId 0)).result =
      .error (.resourceExhaustion "gpu0" 6 4) := by rfl
  have hcont : (thawLease stoppedKernel preemptedClient [] (sampleId 0)).kernel.continued = [4242] := by
    rfl
  refine ⟨herr, by rfl, hcont, fun h => ?_⟩
  rw [h _ herr] at hcont
  cases hcont

end Inferenced.Preempt
