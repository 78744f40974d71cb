import Inferenced.Arbiter.Leases
import Inferenced.Preempt

/-!
# The number of preemption records (preempt.rs:84-195)

A record is inserted by every call of `preempt_lease`, and only records of
completed preemptions are ever removed. A preemption whose client could not be
stopped is never completed, so that its record stays until the lease is revoked
or preempted again.
-/

namespace Inferenced.Preempt
open Lib Lib.Runs

variable {deadlineMs : UInt64} {records : RecordMap} {lease : ComputeLease} {c : Coordinator}

def Coordinator.len (c : Coordinator) : ℕ := c.shared.records.len

/-- No `preempt_lease` is in flight. -/
def Coordinator.Idle (c : Coordinator) : Prop :=
  ∀ id pc, .preempt id pc ∈ c.tasks → ∃ result, pc = .returned result

def pendingOthers (records : RecordMap) (id : LeaseId) : List PreemptRecord :=
  records.entries.filter fun r => !r.completed && decide (r.leaseId ≠ id)

/-- When a record is inserted, at most 128 of the other leases have one that is
not completed. -/
def RoomForRecord (c : Coordinator) : CoordinatorOp → Prop
  | .task i _ _ => ∀ id lease, c.tasks[i]? = some (.preempt id (.insertRecord lease)) →
      (pendingOthers c.shared.records lease.id).length ≤ 128
  | _ => True

/-! ### One step -/

theorem len_updateRecord (records : RecordMap) (id : LeaseId) (tier : PreemptTier → PreemptTier)
    (completed : Bool) : (updateRecord records id tier completed).len = records.len :=
  KeyedMap.len_modify ..

theorem pendingOthers_le (records : RecordMap) (id : LeaseId) :
    (pendingOthers records id).length ≤ records.len := List.length_filter_le ..

/-- The insertion keeps the bound if and only if the other pending records leave
room. -/
theorem len_insertRecord_le_iff (deadlineMs : UInt64) (lease : ComputeLease) (hlen : records.len ≤ 129) :
    (insertRecord records deadlineMs lease).len ≤ 129 ↔
      (pendingOthers records lease.id).length ≤ 128 := by
  unfold insertRecord
  by_cases hfull : 128 < records.len
  · simp only [if_pos hfull]
    have hcount : ∀ r : PreemptRecord, r.leaseId = lease.id →
        ((records.retain (!·.completed)).insert r).len = (pendingOthers records lease.id).length + 1 := by
      intro r hr
      simp only [KeyedMap.len, KeyedMap.insert, KeyedMap.retain, List.length_cons, List.filter_filter,
        hr, pendingOthers, Bool.and_comm]
    rw [hcount _ rfl]
    omega
  · simp only [if_neg hfull]
    have hinsert := KeyedMap.len_insert_le records
    have hpending := pendingOthers_le records lease.id
    exact ⟨fun _ => by omega, fun _ => (hinsert _).trans (by omega)⟩

theorem len_taskStep (kernel : Kernel) (id : LeaseId) (expired : Bool) (sh : Shared) {pc : Pc}
    (hpc : ∀ lease, pc ≠ .insertRecord lease) :
    (taskStep kernel deadlineMs id expired sh pc).1.records.len = sh.records.len := by
  cases pc with
  | insertRecord lease => exact absurd rfl (hpc lease)
  | getLease =>
    simp only [taskStep]
    split
    · rfl
    · split <;> rfl
  | yieldLease lease =>
    simp only [taskStep]
    split <;> rfl
  | waiting lease =>
    simp only [taskStep]
    split
    · rfl
    · split <;> rfl
  | yielded => exact len_updateRecord ..
  | escalating lease => rfl
  | freezeLease frozen =>
    simp only [taskStep]
    split <;> rfl
  | updateRecord frozen => exact len_updateRecord ..
  | returned r => rfl

theorem len_revokeStep (id : LeaseId) (sh : Shared) (pc : RevokePc) :
    (revokeStep id sh pc).1.records.len = sh.records.len := by
  cases pc with
  | revokeLease =>
    simp only [revokeStep]
    split <;> rfl
  | recordRevoked => exact len_updateRecord ..
  | returned r => rfl

theorem len_step_le_iff (deadlineMs : UInt64) (c : Coordinator) (op : CoordinatorOp) (hlen : c.len ≤ 129) :
    (c.step deadlineMs op).len ≤ 129 ↔ RoomForRecord c op := by
  cases op with
  | preemptLease id => exact ⟨fun _ => trivial, fun _ => hlen⟩
  | revokeLease id => exact ⟨fun _ => trivial, fun _ => hlen⟩
  | arbiter op => exact ⟨fun _ => trivial, fun _ => hlen⟩
  | task i kernel expired =>
    have hsame (hstep : (c.step deadlineMs (.task i kernel expired)).len = c.len)
        (hpc : ∀ id lease, c.tasks[i]? ≠ some (.preempt id (.insertRecord lease))) :
        (c.step deadlineMs (.task i kernel expired)).len ≤ 129 ↔
          RoomForRecord c (.task i kernel expired) :=
      ⟨fun _ id lease hi => absurd hi (hpc id lease), fun _ => hstep.trans_le hlen⟩
    cases hi : c.tasks[i]? with
    | none => exact hsame (by simp only [Coordinator.step, hi]) (by simp [hi])
    | some task =>
      cases task with
      | revoke id pc =>
        refine hsame ?_ (by simp [hi])
        simp only [Coordinator.step, hi]
        exact len_revokeStep id c.shared pc
      | preempt id pc =>
        by_cases hpc : ∃ lease, pc = .insertRecord lease
        · obtain ⟨lease, rfl⟩ := hpc
          have hstep : (c.step deadlineMs (.task i kernel expired)).len =
              (insertRecord c.shared.records deadlineMs lease).len := by
            simp only [Coordinator.step, hi]
            rfl
          rw [hstep, len_insertRecord_le_iff deadlineMs lease hlen]
          constructor
          · intro hroom id' lease' hi'
            obtain ⟨rfl, hpc⟩ : id = id' ∧ Pc.insertRecord lease = .insertRecord lease' := by
              simpa using Option.some.inj (hi.symm.trans hi')
            rwa [← Pc.insertRecord.inj hpc]
          · exact fun hroom => hroom id lease hi
        · refine hsame ?_ ?_
          · simp only [Coordinator.step, hi]
            exact len_taskStep kernel id expired c.shared fun lease h => hpc ⟨lease, h⟩
          · rintro id' lease' hi'
            rw [hi, Option.some.injEq, Task.preempt.injEq] at hi'
            exact hpc ⟨lease', hi'.2⟩

/-! ### Runs -/

/-- Bounded records: if at every insertion at most 128 of the other leases have
a record that is not completed, there are at most 129 records whenever no
`preempt_lease` is in flight. The condition is met by exactly the runs in which
there are never more than 129. -/
theorem records_bounded (deadlineMs : UInt64) (arbiter : ArbiterState) (ops : List CoordinatorOp) :
    (Along (Coordinator.step deadlineMs) RoomForRecord (.new arbiter) ops →
      ∀ before, before <+: ops → (exec (Coordinator.step deadlineMs) (.new arbiter) before).Idle →
        (exec (Coordinator.step deadlineMs) (.new arbiter) before).len ≤ 129) ∧
    ((∀ before, before <+: ops →
        (exec (Coordinator.step deadlineMs) (.new arbiter) before).len ≤ 129) ↔
      Along (Coordinator.step deadlineMs) RoomForRecord (.new arbiter) ops) := by
  have hiff : (∀ before, before <+: ops →
        (exec (Coordinator.step deadlineMs) (.new arbiter) before).len ≤ 129) ↔
      Along (Coordinator.step deadlineMs) RoomForRecord (.new arbiter) ops :=
    inv_iff_along (D := fun _ _ => True) (fun _ _ => True) (fun c => c.len ≤ 129)
      (fun _ _ _ _ _ _ _ => trivial) (fun _ c op _ _ _ hlen => len_step_le_iff deadlineMs c op hlen)
      ([] : List LeaseId) (.new arbiter) ops trivial (Nat.zero_le _) (fresh_of_nameless [] ops)
      (along_of_forall ops (fun _ _ _ => trivial) _)
  exact ⟨fun h before hbefore _ => hiff.mpr h before hbefore, hiff⟩

/-! ### Clients that cannot be stopped -/

def deafKernel : Kernel := ⟨fun _ => false, fun _ => false⟩

def cpuTopology : HardwareTopology := Arbiter.sampleTopology [Arbiter.samplePlane "cpu0" .cpuMatrixExtension 0 0]

def anonymousRequest : LeaseRequest := Arbiter.sampleRequest .emergencyTriage 0 "cpu0"

/-- A client without pid and unit acquires a lease and is preempted by the call
with number `i`, which waits for the deadline. -/
def unstoppedRound (i : ℕ) (id : LeaseId) : List CoordinatorOp :=
  [.arbiter (.lease (.acquire { Arbiter.sampleEnv 0 with newId := id } anonymousRequest)),
    .preemptLease id] ++ List.replicate 7 (.task i deafKernel true)

def unstoppedRounds (ids : List LeaseId) : List CoordinatorOp :=
  ids.zipIdx.flatMap fun p => unstoppedRound p.2 p.1

/-- Each of the leases has left a record that is not completed. -/
structure Unstopped (ids : List LeaseId) (c : Coordinator) : Prop where
  topology : c.shared.arbiter.topology = cpuTopology
  pending : ∀ r ∈ c.shared.records.entries, r.completed = false ∧ r.leaseId ∈ ids
  len : c.len = ids.length
  tasks : c.tasks.length = ids.length
  idle : c.Idle

theorem acquire_anonymous {s : ArbiterState} (hs : s.topology = cpuTopology) (id : LeaseId) :
    ∃ lease, lease.id = id ∧ lease.isActive = true ∧ lease.clientPid = none ∧ lease.clientUnit = none ∧
      (Arbiter.acquireLease s { Arbiter.sampleEnv 0 with newId := id } anonymousRequest).state.leases.get? id =
        some lease ∧
      (Arbiter.acquireLease s { Arbiter.sampleEnv 0 with newId := id } anonymousRequest).state.topology =
        cpuTopology := by
  obtain ⟨t, leases, registry⟩ := s
  obtain rfl : t = cpuTopology := hs
  refine ⟨ComputeLease.new id "cpu0" 0 .emergencyTriage none none, rfl, rfl, rfl, rfl, ?_, ?_⟩
  · have hgrant : (Arbiter.acquireLease ⟨cpuTopology, leases, registry⟩
        { Arbiter.sampleEnv 0 with newId := id } anonymousRequest).state.leases =
        (Arbiter.collectGarbage leases).insert (ComputeLease.new id "cpu0" 0 .emergencyTriage none none) := rfl
    rw [hgrant, KeyedMap.get?_insert]
    exact if_pos rfl
  · rfl

theorem mark_of_some (mark : LeaseState) {s : ArbiterState} {id : LeaseId}
    (h : (s.leases.get? id).isSome = true) :
    (Arbiter.markLease mark s id).result = .ok () ∧
      (Arbiter.markLease mark s id).state.topology = s.topology ∧
      ((Arbiter.markLease mark s id).state.leases.get? id).isSome = true := by
  obtain ⟨lease, hlease⟩ := Option.isSome_iff_exists.mp h
  unfold Arbiter.markLease
  simp only [hlease]
  cases lease.isActive with
  | false => exact ⟨rfl, rfl, h⟩
  | true =>
    refine ⟨rfl, rfl, ?_⟩
    simp [Arbiter.get?_setState, hlease]

theorem step_last (sh : Shared) (tasks : List Task) (id : LeaseId) (pc : Pc) (kernel : Kernel)
    (expired : Bool) :
    Coordinator.step deadlineMs ⟨sh, tasks ++ [.preempt id pc]⟩ (.task tasks.length kernel expired) =
      ⟨(taskStep kernel deadlineMs id expired sh pc).1,
        tasks ++ [.preempt id (taskStep kernel deadlineMs id expired sh pc).2.1]⟩ := by
  simp [Coordinator.step, Task.step]

def leaveRecord (records : RecordMap) (deadlineMs : UInt64) (lease : ComputeLease) : RecordMap :=
  updateRecord (insertRecord records deadlineMs lease) lease.id (fun _ => .tier2ForcedFreeze) false

theorem preempt_unstopped (deadlineMs : UInt64) (sh : Shared) (tasks : List Task) {lease : ComputeLease}
    (hlease : sh.arbiter.leases.get? lease.id = some lease) (hactive : lease.isActive = true)
    (hpid : lease.clientPid = none) (hunit : lease.clientUnit = none) :
    ∃ arbiter, arbiter.topology = sh.arbiter.topology ∧
      exec (Coordinator.step deadlineMs) ⟨sh, tasks ++ [.preempt lease.id .getLease]⟩
          (List.replicate 7 (.task tasks.length deafKernel true)) =
        ⟨⟨arbiter, leaveRecord sh.records deadlineMs lease⟩,
          tasks ++ [.preempt lease.id (.returned (.ok ()))]⟩ := by
  obtain ⟨arbiter, records⟩ := sh
  have hsome : (arbiter.leases.get? lease.id).isSome = true := by rw [hlease]; rfl
  obtain ⟨hyield, hyieldTopology, hstill⟩ := mark_of_some .preempting hsome
  obtain ⟨hfreeze, hfreezeTopology, -⟩ := mark_of_some .frozen hstill
  let yielded := (Arbiter.yieldLease arbiter lease.id).state
  let frozen := (Arbiter.freezeLease yielded lease.id).state
  let inserted := insertRecord records deadlineMs lease
  refine ⟨frozen, hfreezeTopology.trans hyieldTopology, ?_⟩
  have hget : taskStep deafKernel deadlineMs lease.id true ⟨arbiter, records⟩ .getLease =
      (⟨arbiter, records⟩, .yieldLease lease, []) := by
    simp [taskStep, hlease, hactive]
  have hmark : taskStep deafKernel deadlineMs lease.id true ⟨arbiter, records⟩ (.yieldLease lease) =
      (⟨yielded, records⟩, .insertRecord lease, []) := by
    have hyield' : (Arbiter.yieldLease arbiter lease.id).result = .ok () := hyield
    simp [taskStep, hyield', hpid, yielded]
  have hinsert : taskStep deafKernel deadlineMs lease.id true ⟨yielded, records⟩ (.insertRecord lease) =
      (⟨yielded, inserted⟩, .waiting lease, []) := rfl
  have hwait : taskStep deafKernel deadlineMs lease.id true ⟨yielded, inserted⟩ (.waiting lease) =
      (⟨yielded, inserted⟩, .escalating lease, []) := rfl
  have hstop : taskStep deafKernel deadlineMs lease.id true ⟨yielded, inserted⟩ (.escalating lease) =
      (⟨yielded, inserted⟩, .freezeLease false, []) := by
    simp [taskStep, Kernel.stops, hpid, hunit]
  have hfrozen : taskStep deafKernel deadlineMs lease.id true ⟨yielded, inserted⟩ (.freezeLease false) =
      (⟨frozen, inserted⟩, .updateRecord false, []) := by
    have hfreeze' : (Arbiter.freezeLease yielded lease.id).result = .ok () := hfreeze
    simp [taskStep, hfreeze', frozen]
  have hupdate : taskStep deafKernel deadlineMs lease.id true ⟨frozen, inserted⟩ (.updateRecord false) =
      (⟨frozen, leaveRecord records deadlineMs lease⟩, .returned (.ok ()), []) := rfl
  simp only [List.replicate, exec, List.foldl_cons, List.foldl_nil, step_last, hget, hmark, hinsert,
    hwait, hstop, hfrozen, hupdate]

theorem leaveRecord_pending {ids : List LeaseId} (deadlineMs : UInt64)
    (hpending : ∀ r ∈ records.entries, r.completed = false ∧ r.leaseId ∈ ids)
    (hfresh : lease.id ∉ ids) :
    (∀ r ∈ (leaveRecord records deadlineMs lease).entries,
      r.completed = false ∧ r.leaseId ∈ ids ++ [lease.id]) ∧
      (leaveRecord records deadlineMs lease).len = records.len + 1 := by
  have hretain : records.retain (!·.completed) = records :=
    KeyedMap.ext (List.filter_eq_self.mpr fun r hr => by simp [(hpending r hr).1])
  have hothers : ∀ r ∈ records.entries, r.leaseId ≠ lease.id := fun r hr heq =>
    hfresh (heq ▸ (hpending r hr).2)
  obtain ⟨new, hid, hcompleted, hinsert⟩ : ∃ new : PreemptRecord, new.leaseId = lease.id ∧
      new.completed = false ∧ (insertRecord records deadlineMs lease).entries = new :: records.entries := by
    refine ⟨⟨lease.id, lease.planeId, lease.clientPid, lease.clientUnit, .tier1Cooperative, false,
      deadlineMs⟩, rfl, rfl, ?_⟩
    simp only [insertRecord, hretain, ite_self, KeyedMap.insert]
    rw [List.filter_eq_self.mpr fun r hr => decide_eq_true (hothers r hr)]
  constructor
  · intro r hr
    simp only [leaveRecord, updateRecord, KeyedMap.modify, hinsert, List.map_cons, List.mem_cons,
      List.mem_map, hid, if_true] at hr
    rcases hr with rfl | ⟨r', hr', rfl⟩
    · exact ⟨rfl, by simp⟩
    · rw [if_neg (hothers r' hr')]
      exact ⟨(hpending r' hr').1, List.mem_append_left _ (hpending r' hr').2⟩
  · rw [leaveRecord, len_updateRecord, KeyedMap.len, hinsert]
    rfl

theorem unstopped_round {ids : List LeaseId} {id : LeaseId} (h : Unstopped ids c) (hfresh : id ∉ ids) :
    Unstopped (ids ++ [id]) (exec (Coordinator.step deadlineMs) c (unstoppedRound ids.length id)) := by
  obtain ⟨⟨arbiter, records⟩, tasks⟩ := c
  obtain ⟨htopology, hpending, hlen, htasks, hidle⟩ := h
  obtain ⟨lease, rfl, hactive, hpid, hunit, hlease, htopology'⟩ := acquire_anonymous htopology id
  obtain ⟨after, hafter, hexec⟩ := preempt_unstopped deadlineMs ⟨_, records⟩ tasks hlease hactive hpid hunit
  have hround : exec (Coordinator.step deadlineMs) ⟨⟨arbiter, records⟩, tasks⟩
      (unstoppedRound ids.length lease.id) =
        ⟨⟨after, leaveRecord records deadlineMs lease⟩,
          tasks ++ [.preempt lease.id (.returned (.ok ()))]⟩ := by
    rw [unstoppedRound, exec_append, ← htasks, ← hexec]
    rfl
  obtain ⟨hpending', hlen'⟩ := leaveRecord_pending deadlineMs hpending hfresh
  rw [hround]
  refine ⟨hafter.trans htopology', hpending', ?_, ?_, ?_⟩
  · rw [List.length_append, ← hlen]
    exact hlen'
  · rw [List.length_append, List.length_append, ← htasks]
    rfl
  · intro id pc hmem
    rcases List.mem_append.mp hmem with hmem | hmem
    · exact hidle id pc hmem
    · obtain ⟨-, rfl⟩ := Task.preempt.inj (List.mem_singleton.mp hmem)
      exact ⟨_, rfl⟩

/-- However many clients cannot be stopped, each of them leaves its record. -/
theorem unstopped_rounds (deadlineMs : UInt64) (ids : List LeaseId) (hn : ids.Nodup) :
    Unstopped ids (exec (Coordinator.step deadlineMs) (.new (Arbiter.new cpuTopology))
      (unstoppedRounds ids)) := by
  induction ids using List.reverseRecOn with
  | nil => exact ⟨rfl, by simp [Coordinator.new, unstoppedRounds, exec, KeyedMap.empty], rfl, rfl,
      by simp [Coordinator.Idle, Coordinator.new, unstoppedRounds, exec]⟩
  | append_singleton ids id ih =>
    obtain ⟨hn, -, hdisjoint⟩ := List.nodup_append.mp hn
    have hrounds : unstoppedRounds (ids ++ [id]) = unstoppedRounds ids ++ unstoppedRound ids.length id := by
      simp [unstoppedRounds, List.zipIdx_append]
    rw [hrounds, exec_append]
    exact unstopped_round (ih hn) fun hmem => hdisjoint id hmem id (by simp) rfl

theorem records_unbounded :
    (exec (Coordinator.step 250) (.new (Arbiter.new cpuTopology))
      (unstoppedRounds ((List.range 130).map Arbiter.sampleId))).Idle ∧
    (exec (Coordinator.step 250) (.new (Arbiter.new cpuTopology))
      (unstoppedRounds ((List.range 130).map Arbiter.sampleId))).len = 130 := by
  have hn : ((List.range 130).map Arbiter.sampleId).Nodup := by
    refine List.nodup_range.map_on fun n hn m hm heq => ?_
    rw [List.mem_range] at hn hm
    have huuid := congrArg (fun id => id.uuid.toNat) heq
    simp only [Arbiter.sampleId, BitVec.toNat_ofNat] at huuid
    omega
  have h := unstopped_rounds 250 _ hn
  exact ⟨h.idle, h.len⟩

end Inferenced.Preempt
