import Inferenced.Arbiter.Conservation
import Inferenced.Arbiter.Credits
import Inferenced.Arbiter.Triage
import Inferenced.Topology.Inventory

/-!
# The triage quota of the CPU plane

Without a usable NPU, `assign_triage_enclave` (topology/triage.rs:8-31) takes a
quota off the availability and off the total of the CPU plane. No other code
knows of it: `acquire_lease` (arbiter.rs:82-142) serves an emergency from what
the plane reports, which is what all other leases are served from too. An
emergency within the quota is therefore served without preemption exactly when
the general workload has left that much.
-/

namespace Inferenced.Arbiter
open Lib Lib.Runs HardwareTopology

variable {T : HardwareTopology} {s : ArbiterState} {env : CallEnv} {req : LeaseRequest} {idx : ℕ}
  {p : ComputePlane}

/-- The quota that `assign_triage_enclave` sets aside on the CPU plane. -/
def triageQuota (cpu : ComputePlane) : UInt64 :=
  min cpuTriageReservedBytes (cpu.availableMemoryBytes / 4)

/-- The request is granted, no lease becomes preempted by it, and the grant is
not forced. -/
structure ServedAside (s : ArbiterState) (env : CallEnv) (req : LeaseRequest) : Prop where
  granted : ∃ lease, (acquireLease s env req).result = .ok lease
  spared : ∀ id l, (acquireLease s env req).state.leases.get? id = some l →
    l.state = .preempted → s.leases.get? id = some l
  unforced : ¬ ForcedGrant s env req

/-- The plane that triage goes to has the requested bytes left. -/
def TriageRoom (s : ArbiterState) (req : LeaseRequest) : Prop :=
  ∀ p, TriagePlane s.topology p → req.requiredBytes ≤ p.availableMemoryBytes

theorem TriagePlane.unique {t : HardwareTopology} {q : ComputePlane} (h : TriagePlane t p)
    (hq : TriagePlane t q) (hcpu : t.cpu? ≠ none) : p = q := by
  cases hr : t.planes.find? (·.isTriageReserved) with
  | some x => exact (h.reserved x hr).trans (hq.reserved x hr).symm
  | none =>
    obtain ⟨c, hc⟩ := Option.ne_none_iff_exists'.mp hcpu
    exact (h.cpu hr c hc).trans (hq.cpu hr c hc).symm

theorem makeRoom_topology_of_spared (h : (makeRoom s env req idx).toFreeze = []) :
    (makeRoom s env req idx).topology = s.topology := by
  rw [makeRoom_topology, roomCredits, h]
  rfl

theorem Admitted.keeps_preempted (hadm : Admitted s env req idx)
    (hfresh : s.leases.get? env.newId = none) {v : ComputeLease}
    (hv : v ∈ (makeRoom s env req idx).toFreeze) :
    (acquireLease s env req).state.leases.get? v.id = some (v.withState .preempted) := by
  obtain ⟨hvictim, hget⟩ := makeRoom_toFreeze s env req idx v hv
  have hne : v.id ≠ env.newId := by
    intro h
    have := hvictim.stored
    rw [h, hfresh] at this
    cases this
  rw [acquireLease_of_admitted hadm, get?_grant, if_neg hne]
  rcases get?_collectGarbage (makeRoom s env req idx).leases v.id with hgc | ⟨l, hl, hdead, -⟩
  · exact hgc.trans hget
  · rw [hget] at hl
    cases hl
    cases hdead

theorem servedAside_iff (hadm : Admitted s env req idx) (hfresh : s.leases.get? env.newId = none) :
    ServedAside s env req ↔ req.requiredBytes ≤ s.topology.availableAt idx := by
  constructor
  · intro h
    by_contra hshort
    have hnone : (makeRoom s env req idx).toFreeze = [] := by
      refine List.eq_nil_iff_forall_not_mem.mpr fun v hv => ?_
      have hvictim := (makeRoom_toFreeze s env req idx v hv).1
      have hstored := h.spared v.id _ (hadm.keeps_preempted hfresh hv) rfl
      rw [hvictim.stored] at hstored
      have hactive := hvictim.active
      rw [Option.some.inj hstored, ComputeLease.withState_isActive] at hactive
      cases hactive
    refine h.unforced ⟨idx, hadm, ?_⟩
    unfold Exhausted
    rw [makeRoom_topology_of_spared hnone]
    exact UInt64.not_le.mp hshort
  · intro hroom
    have hmake := makeRoom_of_room env hroom
    have hgrant := acquireLease_of_admitted hadm
    refine ⟨⟨_, by rw [hgrant]; rfl⟩, fun id l hl hst => ?_, ?_⟩
    · rw [hgrant, get?_grant] at hl
      split at hl
      · cases hl
        cases hst
      · rw [hmake] at hl
        rcases get?_collectGarbage s.leases id with hgc | ⟨m, -, -, hgc⟩
        · exact hgc.symm.trans hl
        · rw [hgc] at hl
          cases hl
    · rintro ⟨j, hj, hx⟩
      have hjidx : j = idx := by
        have := hj.target.symm.trans hadm.target
        cases this
        rfl
      subst hjidx
      unfold Exhausted at hx
      rw [hmake] at hx
      exact UInt64.not_lt.mpr hroom hx

/-! ### The topology after the assignment -/

section
variable {planes : List ComputePlane} {cpu : ComputePlane} {t : HardwareTopology}

theorem assignTriageEnclave_cpu (hnpu : ∀ p ∈ planes, usableNpu p = false)
    (hcpu : planes.find? usableCpu = some cpu) :
    (assignTriageEnclave planes).2 = modifyFirst usableCpu setAsideQuota planes := by
  have hnone : planes.find? usableNpu = none :=
    List.find?_eq_none.mpr fun p hp => by simp [hnpu p hp]
  simp only [assignTriageEnclave, hnone, hcpu]

theorem cpuId?_assigned (hT : T.planes = (assignTriageEnclave planes).2) :
    T.cpuId? = (planes.find? fun p => decide (p.kind = .cpuMatrixExtension)).map (·.id) := by
  have hview : ∀ l : List ComputePlane,
      (l.find? fun p => decide (p.kind = .cpuMatrixExtension)).map (·.id) =
        (((l.map fun p => (p.kind, p.id))).find? fun x =>
          decide (x.1 = .cpuMatrixExtension)).map Prod.snd := by
    intro l
    simp only [List.find?_map, Option.map_map, Function.comp_def]
  have hsame : T.planes.map (fun p => (p.kind, p.id)) = planes.map fun p => (p.kind, p.id) := by
    rw [← List.zip_map', ← List.zip_map', hT, kinds_assignTriageEnclave, ids_assignTriageEnclave]
  rw [cpuId?, HardwareTopology.cpu?, hview, hview, hsame]

theorem cpu?_ne_none (hT : T.planes = (assignTriageEnclave planes).2)
    (hcpu : planes.find? usableCpu = some cpu) (hlay : t.layout = T.layout) : t.cpu? ≠ none := by
  intro hnone
  have hid : T.cpuId? = none := by
    rw [← cpuId?_congr hlay, cpuId?, hnone]
    rfl
  rw [cpuId?_assigned hT, Option.map_eq_none_iff] at hid
  have husable := List.find?_some hcpu
  simp only [usableCpu, Bool.and_eq_true, decide_eq_true_eq] at husable
  exact absurd (List.find?_eq_none.mp hid cpu (List.mem_of_find?_eq_some hcpu)) (by simp [husable.1])

theorem triageQuota_le (cpu : ComputePlane) :
    (triageQuota cpu).toNat ≤ cpu.availableMemoryBytes.toNat := by
  have hdiv : (cpu.availableMemoryBytes / 4).toNat ≤ cpu.availableMemoryBytes.toNat := by
    rw [UInt64.toNat_div]
    exact Nat.div_le_self _ _
  show (if _ ≤ cpu.availableMemoryBytes / 4 then cpuTriageReservedBytes
    else cpu.availableMemoryBytes / 4).toNat ≤ _
  split
  · rename_i hle
    exact (UInt64.le_iff_toNat_le.mp hle).trans hdiv
  · exact hdiv

theorem available_assigned (hd : (planes.map (·.id)).Nodup) (hnpu : ∀ p ∈ planes, usableNpu p = false)
    (hcpu : planes.find? usableCpu = some cpu) (hT : T.planes = (assignTriageEnclave planes).2) :
    T.available cpu.id + (triageQuota cpu).toNat = cpu.availableMemoryBytes.toNat := by
  have hfind : planes.find? (fun p => decide (p.id = cpu.id)) = some cpu :=
    find?_of_mem (t := { T with planes }) hd (List.mem_of_find?_eq_some hcpu)
  have hset : T.find? cpu.id = some (setAsideQuota cpu) := by
    rw [HardwareTopology.find?, hT, assignTriageEnclave_cpu hnpu hcpu]
    rw [Lib.find?_modifyFirst ComputePlane.id usableCpu setAsideQuota (fun _ => rfl) planes hd,
      hcpu, hfind]
    simp
  have hle := triageQuota_le cpu
  have havail : (setAsideQuota cpu).availableMemoryBytes =
      saturatingSub cpu.availableMemoryBytes (triageQuota cpu) := rfl
  simp only [available, hset, Option.map_some, Option.getD_some, havail, toNat_saturatingSub]
  omega

theorem triagePlane_id (hnpu : ∀ p ∈ planes, usableNpu p = false)
    (hfree : ∀ p ∈ planes, p.isTriageReserved = false)
    (hfirst : planes.find? (fun p => decide (p.kind = .cpuMatrixExtension)) = some cpu)
    (hT : T.planes = (assignTriageEnclave planes).2) (hlay : t.layout = T.layout)
    (hp : TriagePlane t p) : p.id = cpu.id := by
  have hnone : t.planes.find? (·.isTriageReserved) = none := by
    have := find?_congr hlay (·.isTriageReserved) fun _ => rfl
    have hT' : T.planes.find? (·.isTriageReserved) = none := by
      refine List.find?_eq_none.mpr fun q hq hr => ?_
      obtain ⟨x, hx, -, -, hres⟩ := mem_assignTriageEnclave (hT ▸ hq)
      rcases hres hr with h | h
      · rw [hfree x hx] at h
        cases h
      · rw [hnpu x hx] at h
        cases h
    rw [hT', Option.map_none, Option.map_eq_none_iff] at this
    exact this
  have hid : t.cpuId? = some cpu.id := by
    rw [cpuId?_congr hlay, cpuId?_assigned hT, hfirst]
    rfl
  obtain ⟨c, hc, hcid⟩ := Option.map_eq_some_iff.mp hid
  rw [hp.cpu hnone c hc]
  exact hcid

end

/-- The triage quota: take planes with no usable NPU, and the first usable CPU
plane. After every run of lease operations without emergencies on what
`assign_triage_enclave` makes of them, an emergency request of any size is
granted without preemption and without force if and only if the plane that
triage goes to has the requested bytes left. Where that is the CPU plane and no
UMA plane shares it, this says that its active leases, the request and the
quota fit together into what the plane had before the assignment. -/
theorem triage_quota_served_iff (planes : List ComputePlane) (cpu : ComputePlane)
    (hnpu : ∀ p ∈ planes, usableNpu p = false) (hcpu : planes.find? usableCpu = some cpu)
    (hT : T.planes = (assignTriageEnclave planes).2) (ops : List LeaseOp) (env : CallEnv)
    (req : LeaseRequest) (hops : ∀ op ∈ ops, op.NonEmergency)
    (hfresh : Fresh LeaseOp.newIds [] (ops ++ [.acquire env req]))
    (hprio : req.priority = .emergencyTriage) (hpref : req.preferredPlane = none) :
    (ServedAside (exec stepLease (new T) ops) env req ↔
      TriageRoom (exec stepLease (new T) ops) req) ∧
    ((planes.map (·.id)).Nodup → (∀ p ∈ planes, Covered p) →
      (∀ p ∈ planes, p.kind ≠ .integratedUma) → (∀ p ∈ planes, p.isTriageReserved = false) →
      planes.find? (fun p => decide (p.kind = .cpuMatrixExtension)) = some cpu →
      (TriageRoom (exec stepLease (new T) ops) req ↔
        activeBytes (exec stepLease (new T) ops) cpu.id + req.requiredBytes.toNat +
          (triageQuota cpu).toNat ≤ cpu.availableMemoryBytes.toNat)) := by
  have hst := started_run (T := T) ops hfresh.of_append_left
  have hsome := cpu?_ne_none hT hcpu hst.layout
  have hplanes : (exec stepLease (new T) ops).topology.planes ≠ [] := by
    intro h
    simp [HardwareTopology.cpu?, h] at hsome
  obtain ⟨idx, p, htarget, hp, htriage⟩ := targetPlaneIdx_emergency hplanes hprio hpref
  have hnew : (exec stepLease (new T) ops).leases.get? env.newId = none :=
    hst.tracked.fresh hfresh.of_append_right.head env.newId (List.mem_cons_self ..)
  have hroom : TriageRoom (exec stepLease (new T) ops) req ↔
      req.requiredBytes ≤ p.availableMemoryBytes :=
    ⟨fun h => h p htriage, fun h q hq => (hq.unique htriage hsome) ▸ h⟩
  constructor
  · rw [servedAside_iff ⟨fun _ => hprio, htarget, fun _ => hprio⟩ hnew, availableAt, hp, hroom]
    rfl
  · intro hd hcov huma hfree hfirst
    have hw : T.WellFormed := by
      refine ⟨?_, fun q hq => covered_assignTriageEnclave hcov q (hT ▸ hq)⟩
      rw [Distinct, hT, ids_assignTriageEnclave]
      exact hd
    have huma' : ∀ q ∈ T.planes, q.kind ≠ .integratedUma := by
      intro q hq
      obtain ⟨x, hx, hkind, -⟩ := mem_assignTriageEnclave (hT ▸ hq)
      rw [hkind]
      exact huma x hx
    have hsole := sole_of_no_uma huma' cpu.id
    have hbal := balanced_run hw ops hfresh.of_append_left
      (along_of_forall ops (fun op hop => (hops op hop).unforced) _)
    have hexact : (exec stepLease (new T) ops).topology.available cpu.id +
        (accountOf (exec stepLease (new T) ops) cpu.id).held = T.available cpu.id :=
      hbal.exact cpu.id hsole
    rw [held_eq_activeBytes (hsole.congr hst.layout)] at hexact
    have hid := triagePlane_id hnpu hfree hfirst hT hst.layout htriage
    have havail := available_of_mem (hw.distinct.congr hst.layout) htriage.mem
    rw [hid] at havail
    have hset := available_assigned hd hnpu hcpu hT
    rw [hroom, UInt64.le_iff_toNat_le]
    omega

def cpuPlanes : List ComputePlane := [samplePlane "cpu-host" .cpuMatrixExtension 100 100]

def cpuEnclave : HardwareTopology := sampleTopology (assignTriageEnclave cpuPlanes).2

def triageRequest (bytes : UInt64) : LeaseRequest :=
  { sampleRequest .emergencyTriage bytes "" with preferredPlane := none }

theorem triage_quota_served_iff_cpuEnclave :
    ServedAside (exec stepLease (new cpuEnclave)
      [.acquire (sampleEnv 0) (sampleRequest .batch 60 "cpu-host")]) (sampleEnv 1)
        (triageRequest 15) := by
  have h := triage_quota_served_iff (T := cpuEnclave) cpuPlanes
    (samplePlane "cpu-host" .cpuMatrixExtension 100 100) (by decide) (by decide) rfl
    [.acquire (sampleEnv 0) (sampleRequest .batch 60 "cpu-host")] (sampleEnv 1)
    (triageRequest 15) (by decide) ⟨by decide, by decide⟩ rfl rfl
  have hcov : ∀ p ∈ cpuPlanes, Covered p := by
    intro p hp
    rw [List.mem_singleton.mp hp]
    exact UInt64.le_refl _
  exact h.1.mpr ((h.2 (by decide) hcov (by decide) (by decide) (by decide)).mpr (by decide))

/-- A batch lease takes all that the quota has left. The emergency asks for ten
of the twenty-five bytes of its quota and preempts the lease. -/
theorem triage_within_quota_preempts :
    (∀ p ∈ cpuPlanes, usableNpu p = false) ∧
      (10 : UInt64) ≤ triageQuota (samplePlane "cpu-host" .cpuMatrixExtension 100 100) ∧
      ¬ ServedAside (exec stepLease (new cpuEnclave)
        [.acquire (sampleEnv 0) (sampleRequest .batch 75 "cpu-host")]) (sampleEnv 1)
          (triageRequest 10) := by
  refine ⟨by decide, by decide, fun h => ?_⟩
  have hpreempted := h.spared (sampleId 0)
    { id := sampleId 0, clientPid := none, clientUnit := none, planeId := "cpu-host"
      allocatedMemoryBytes := 75, priority := .batch, state := .preempted } (by decide) rfl
  exact absurd hpreempted (by decide)

end Inferenced.Arbiter
