import Inferenced.Arbiter.Admission

/-!
# Where a request without a preferred plane goes

Automatic placement takes a plane with the most memory available among those
that are neither quarantined nor reserved for triage (arbiter.rs:86-93), and
looks at no other. A request that fits there is granted without a victim.
-/

namespace Inferenced

/-- A plane that automatic placement may choose for a request that is no
emergency. -/
def ComputePlane.Eligible (p : ComputePlane) : Prop :=
  p.isQuarantined = false ∧ p.isTriageReserved = false

instance (p : ComputePlane) : Decidable p.Eligible := inferInstanceAs (Decidable (_ ∧ _))

namespace Arbiter
open Lib HardwareTopology

variable {s : ArbiterState} {t : HardwareTopology} {env : CallEnv} {req : LeaseRequest} {idx : ℕ}

/-- The planes in the order of their list, with their index, that automatic
placement looks at. -/
def eligiblePlanes (t : HardwareTopology) : List (ComputePlane × ℕ) :=
  t.planes.zipIdx.filter fun ip => decide ip.1.Eligible

theorem targetPlaneIdx_auto_eq (hpref : req.preferredPlane = none)
    (hprio : req.priority ≠ .emergencyTriage) :
    targetPlaneIdx t req =
      ((maxByKey (fun ip => ip.1.availableMemoryBytes.toNat) (eligiblePlanes t)).map Prod.snd).elim
        (.error (.planeNotFound "No available compute plane found")) .ok := by
  have hfilter : eligiblePlanes t = t.planes.zipIdx.filter fun ip => !ip.1.isQuarantined &&
      (!ip.1.isTriageReserved || decide (req.priority = .emergencyTriage)) := by
    refine List.filter_congr fun ip _ => ?_
    rw [Bool.eq_iff_iff, decide_eq_true_iff]
    simp [ComputePlane.Eligible, hprio]
  unfold targetPlaneIdx
  rw [hpref, hfilter]
  dsimp only
  rw [if_neg hprio]
  generalize Option.map _ _ = target
  cases target <;> rfl

theorem mem_eligiblePlanes {p : ComputePlane} {i : ℕ} :
    (p, i) ∈ eligiblePlanes t ↔ t.planes[i]? = some p ∧ p.Eligible := by
  simp only [eligiblePlanes, List.mem_filter, List.mem_zipIdx_iff_getElem?, decide_eq_true_eq]

/-- The plane at `idx` is the last of the eligible planes with the most memory
available. -/
structure MostAvailable (t : HardwareTopology) (idx : ℕ) (p : ComputePlane) : Prop where
  plane : t.planes[idx]? = some p
  eligible : p.Eligible
  largest : ∀ q ∈ t.planes, q.Eligible → q.availableMemoryBytes ≤ p.availableMemoryBytes
  last : ∀ j q, t.planes[j]? = some q → q.Eligible → idx < j →
    q.availableMemoryBytes < p.availableMemoryBytes

theorem sorted_eligiblePlanes (t : HardwareTopology) :
    (eligiblePlanes t).Pairwise fun a b => a.2 < b.2 := by
  refine List.Pairwise.sublist List.filter_sublist (List.pairwise_map.mp ?_)
  rw [List.zipIdx_map_snd]
  exact List.pairwise_lt_range'

theorem targetPlaneIdx_auto (hpref : req.preferredPlane = none)
    (hprio : req.priority ≠ .emergencyTriage) (h : targetPlaneIdx t req = .ok idx) :
    ∃ p, MostAvailable t idx p := by
  rw [targetPlaneIdx_auto_eq hpref hprio] at h
  cases hmax : maxByKey (fun ip => ip.1.availableMemoryBytes.toNat) (eligiblePlanes t) with
  | none =>
    rw [hmax] at h
    cases h
  | some ip =>
    rw [hmax] at h
    obtain ⟨p, i⟩ := ip
    cases h
    obtain ⟨hp, helig⟩ := mem_eligiblePlanes.mp (maxByKey_mem hmax)
    refine ⟨p, hp, helig, fun q hq hqe => ?_, fun j q hq hqe hlt => ?_⟩
    · obtain ⟨j, hj⟩ := List.getElem?_of_mem hq
      exact UInt64.le_iff_toNat_le.mpr (le_maxByKey hmax (q, j) (mem_eligiblePlanes.mpr ⟨hj, hqe⟩))
    · -- what stands behind the maximum has less
      obtain ⟨before, after, hsplit, -, hafter⟩ := maxByKey_split hmax
      have hsorted := sorted_eligiblePlanes t
      have hmem : (q, j) ∈ eligiblePlanes t := mem_eligiblePlanes.mpr ⟨hq, hqe⟩
      rw [hsplit] at hsorted hmem
      rcases List.mem_append.mp hmem with hbefore | hrest
      · have hpos := (List.pairwise_append.mp hsorted).2.2 _ hbefore _ (List.mem_cons_self ..)
        exact absurd hpos (Nat.not_lt_of_gt hlt)
      · rcases List.mem_cons.mp hrest with heq | hrest
        · cases heq
          exact absurd hlt (Nat.lt_irrefl _)
        · exact UInt64.lt_iff_toNat_lt.mpr (hafter _ hrest)

theorem exists_target_auto (hpref : req.preferredPlane = none)
    (hprio : req.priority ≠ .emergencyTriage) {q : ComputePlane} (hq : q ∈ t.planes)
    (hqe : q.Eligible) : ∃ idx, targetPlaneIdx t req = .ok idx := by
  rw [targetPlaneIdx_auto_eq hpref hprio]
  cases hmax : maxByKey (fun ip => ip.1.availableMemoryBytes.toNat) (eligiblePlanes t) with
  | none =>
    obtain ⟨j, hj⟩ := List.getElem?_of_mem hq
    have hmem := mem_eligiblePlanes.mpr ⟨hj, hqe⟩
    rw [(maxByKey_eq_none _ _).mp hmax] at hmem
    cases hmem
  | some ip => exact ⟨ip.2, rfl⟩

theorem MostAvailable.unique {i j : ℕ} {p q : ComputePlane} (hp : MostAvailable t i p)
    (hq : MostAvailable t j q) : i = j ∧ p = q := by
  have hle := UInt64.le_iff_toNat_le.mp (hp.largest q (List.mem_of_getElem? hq.plane) hq.eligible)
  have hge := UInt64.le_iff_toNat_le.mp (hq.largest p (List.mem_of_getElem? hp.plane) hp.eligible)
  have hij : i = j := by
    by_contra hne
    rcases Nat.lt_or_gt_of_ne hne with hlt | hlt
    · have := UInt64.lt_iff_toNat_lt.mp (hp.last j q hq.plane hq.eligible hlt)
      omega
    · have := UInt64.lt_iff_toNat_lt.mp (hq.last i p hp.plane hp.eligible hlt)
      omega
  subst hij
  exact ⟨rfl, Option.some.inj (hp.plane.symm.trans hq.plane)⟩

theorem MostAvailable.target {p : ComputePlane} (h : MostAvailable t idx p)
    (hpref : req.preferredPlane = none) (hprio : req.priority ≠ .emergencyTriage) :
    targetPlaneIdx t req = .ok idx := by
  obtain ⟨j, hj⟩ := exists_target_auto hpref hprio (List.mem_of_getElem? h.plane) h.eligible
  obtain ⟨q, hq⟩ := targetPlaneIdx_auto hpref hprio hj
  rw [(h.unique hq).1, hj]

/-! ### A request that fits -/

/-- The call has placed `lease` on the plane `p` at `idx`. -/
structure Placed (s : ArbiterState) (env : CallEnv) (req : LeaseRequest) (lease : ComputeLease)
    (idx : ℕ) (p : ComputePlane) : Prop where
  plane : s.topology.planes[idx]? = some p
  id : lease.planeId = p.id
  debited : (acquireLease s env req).state.topology =
    debitTarget (makeRoom s env req idx).topology idx req.requiredBytes

theorem placed_of_granted {lease : ComputeLease} (hpref : req.preferredPlane = none)
    (hprio : req.priority ≠ .emergencyTriage) (hok : (acquireLease s env req).result = .ok lease) :
    ∃ idx p, MostAvailable s.topology idx p ∧ Admitted s env req idx ∧ Placed s env req lease idx p := by
  rcases acquireLease_cases s env req with ⟨-, e, he⟩ | ⟨-, i, e, -, -, he⟩ | ⟨i, hadm, he⟩
  · rw [he] at hok
    cases hok
  · rw [he] at hok
    cases hok
  · obtain ⟨p, hp⟩ := targetPlaneIdx_auto hpref hprio hadm.target
    rw [he] at hok
    obtain rfl : grantedLease s env req i = lease := Except.ok.inj hok
    refine ⟨i, p, hp, hadm, hp.plane, ?_, by rw [he]; rfl⟩
    show s.topology.planeIdAt i = p.id
    rw [planeIdAt, hp.plane]
    rfl

theorem get?_grant_of_no_victims {id : LeaseId} {l : ComputeLease}
    (hne : id ≠ env.newId) (hl : s.leases.get? id = some l) :
    (grant s ⟨s.topology, s.leases, []⟩ env req idx).state.leases.get? id = some l ∨
      (l.state = .expired ∨ l.state = .revoked) ∧
        (grant s ⟨s.topology, s.leases, []⟩ env req idx).state.leases.get? id = none := by
  rw [get?_grant, if_neg hne]
  rcases get?_collectGarbage s.leases id with h | ⟨m, hm, hdead, h⟩
  · exact Or.inl (h.trans hl)
  · rw [hl] at hm
    cases hm
    refine Or.inr ⟨?_, h⟩
    cases hst : l.state <;> simp [ComputeLease.isLive, LeaseState.isLive, LeaseState.isActive, hst]
      at hdead ⊢

/-- Automatic placement is eligible, and takes nothing from anybody where some
eligible plane has room. -/
theorem auto_placement (s : ArbiterState) (env : CallEnv) (req : LeaseRequest)
    (hpsi : env.psi.level ≠ .critical) (hprio : req.priority ≠ .emergencyTriage)
    (hpref : req.preferredPlane = none) :
    (∀ lease, (acquireLease s env req).result = .ok lease →
      ∃ idx p, Placed s env req lease idx p ∧ p.Eligible ∧
        (s.topology.Distinct → ∀ q ∈ s.topology.planes, q.id = lease.planeId → q.Eligible)) ∧
    ((∃ q ∈ s.topology.planes, q.Eligible ∧ req.requiredBytes ≤ q.availableMemoryBytes) →
      ∃ lease idx p, (acquireLease s env req).result = .ok lease ∧ Placed s env req lease idx p ∧
        (∀ q ∈ s.topology.planes, q.Eligible → q.availableMemoryBytes ≤ p.availableMemoryBytes) ∧
        (acquireLease s env req).effects = [] ∧
        ∀ id l, id ≠ lease.id → s.leases.get? id = some l →
          (acquireLease s env req).state.leases.get? id = some l ∨
          (l.state = .expired ∨ l.state = .revoked) ∧
            (acquireLease s env req).state.leases.get? id = none) := by
  refine ⟨fun lease hok => ?_, fun ⟨q, hq, hqe, hroom⟩ => ?_⟩
  · obtain ⟨idx, p, hp, -, hplaced⟩ := placed_of_granted hpref hprio hok
    refine ⟨idx, p, hplaced, hp.eligible, fun hd q hq hid => ?_⟩
    have hsame := List.inj_on_of_nodup_map hd hq (List.mem_of_getElem? hp.plane)
      (hid.trans hplaced.id)
    exact hsame ▸ hp.eligible
  · obtain ⟨idx, htarget⟩ := exists_target_auto hpref hprio hq hqe
    obtain ⟨p, hp⟩ := targetPlaneIdx_auto hpref hprio htarget
    have havail : s.topology.availableAt idx = p.availableMemoryBytes := by
      rw [availableAt, hp.plane]
      rfl
    have hfits : req.requiredBytes ≤ s.topology.availableAt idx :=
      havail ▸ UInt64.le_trans hroom (hp.largest q hq hqe)
    have hempty := makeRoom_of_room env hfits
    have hadm : Admitted s env req idx := by
      refine admitted_of_room hpsi htarget ?_
      rw [Exhausted, hempty]
      exact UInt64.not_lt.mpr hfits
    have hgrant := acquireLease_of_admitted hadm
    have hok : (acquireLease s env req).result = .ok (grantedLease s env req idx) := by
      rw [hgrant]
      rfl
    obtain ⟨i, p', hp', hadm', hplaced⟩ := placed_of_granted hpref hprio hok
    obtain ⟨rfl, rfl⟩ := hp.unique hp'
    refine ⟨grantedLease s env req idx, idx, p, hok, hplaced, hp.largest, ?_, fun id l hne hl => ?_⟩
    · rw [hgrant, hempty]
      rfl
    · rw [hgrant, hempty]
      exact get?_grant_of_no_victims hne hl

def twoGpus (first second : LeasePriority) : ArbiterState :=
  [LeaseOp.acquire (sampleEnv 0) (sampleRequest first 6 "gpu0"),
   .acquire (sampleEnv 1) (sampleRequest second 5 "gpu1")].foldl stepLease
    (new (sampleTopology [samplePlane "gpu0" .discreteGpu 10 10, samplePlane "gpu1" .discreteGpu 10 10]))

def autoRequest (bytes : UInt64) : LeaseRequest :=
  { sampleRequest .interactive bytes "" with preferredPlane := none }

theorem auto_placement_twoGpus :
    ∃ lease, (acquireLease (twoGpus .batch .batch) (sampleEnv 2) (autoRequest 5)).result = .ok lease := by
  obtain ⟨lease, -, -, hok, -⟩ :=
    (auto_placement (twoGpus .batch .batch) (sampleEnv 2) (autoRequest 5) (by decide) (by decide) rfl).2
      ⟨samplePlane "gpu1" .discreteGpu 10 5, by decide, by decide, by decide⟩
  exact ⟨lease, hok⟩

/-! ### A request that needs victims -/

/-- Only the plane with the most memory available counts: a request without a
preferred plane is granted if and only if that plane can serve it. -/
theorem auto_placement_serves_iff
    (hfits : ∀ p ∈ s.topology.planes,
      p.availableMemoryBytes.toNat + activeBytes s p.id ≤ p.totalMemoryBytes.toNat)
    (hpsi : env.psi.level ≠ .critical) (hprio : req.priority ≠ .emergencyTriage)
    (hpref : req.preferredPlane = none) {p : ComputePlane} (hmost : MostAvailable s.topology idx p) :
    ((∃ lease, (acquireLease s env req).result = .ok lease) ↔
        req.requiredBytes.toNat ≤ reach s req.priority idx) ∧
      (reach s req.priority idx < req.requiredBytes.toNat → ∃ available,
        (acquireLease s env req).result =
          .error (.resourceExhaustion p.id req.requiredBytes available)) ∧
      (s.topology.Distinct → reach s req.priority idx =
        p.availableMemoryBytes.toNat + lowerBytes s p.id req.priority) := by
  have hid : s.topology.planeIdAt idx = p.id := by simp [planeIdAt, hmost.plane]
  have havail : s.topology.availableAt idx = p.availableMemoryBytes := by
    simp [availableAt, hmost.plane]
  have htot : totalAt s.topology idx = p.totalMemoryBytes.toNat := by simp [totalAt, hmost.plane]
  have hmem := List.mem_of_getElem? hmost.plane
  obtain ⟨hiff, herr⟩ := acquireLease_iff_reach env req hpsi hprio (hmost.target hpref hprio)
    (fun _ => by rw [Fits, havail, hid, htot]; exact hfits p hmem)
  rw [hid] at herr
  refine ⟨hiff, herr, fun hd => ?_⟩
  have hcredit : creditReaches s.topology idx = true := by
    simp [creditReaches, chargesAt, hid, idx?_of_getElem? hd hmost.plane]
  simp [reach, hcredit, hid, havail]

theorem mostAvailable_twoGpus :
    MostAvailable (twoGpus .interactive .batch).topology 1 (samplePlane "gpu1" .discreteGpu 10 5) := by
  refine ⟨by decide, by decide, by decide, fun j q hq _ hlt => ?_⟩
  have hlen := (List.getElem?_eq_some_iff.mp hq).1
  exact absurd hlen (Nat.not_lt_of_ge hlt)

theorem auto_placement_serves_iff_twoGpus :
    ∃ lease, (acquireLease (twoGpus .interactive .batch) (sampleEnv 2) (autoRequest 8)).result =
      .ok lease :=
  (@auto_placement_serves_iff (twoGpus .interactive .batch) (sampleEnv 2) (autoRequest 8) 1 (by decide)
    (by decide) (by decide) rfl _ mostAvailable_twoGpus).1.mpr (by decide)

/-- The first plane could serve 8 bytes if its batch lease were preempted; the
second has a byte more available and is the only one that is looked at. -/
theorem auto_placement_overlooks_plane :
    (∀ p ∈ (twoGpus .batch .interactive).topology.planes, p.availableMemoryBytes.toNat +
        activeBytes (twoGpus .batch .interactive) p.id ≤ p.totalMemoryBytes.toNat) ∧
      (∃ q ∈ (twoGpus .batch .interactive).topology.planes, q.Eligible ∧
        (autoRequest 8).requiredBytes.toNat ≤ q.availableMemoryBytes.toNat +
          lowerBytes (twoGpus .batch .interactive) q.id (autoRequest 8).priority) ∧
      (acquireLease (twoGpus .batch .interactive) (sampleEnv 2) (autoRequest 8)).result =
        .error (.resourceExhaustion "gpu1" 8 5) := by
  refine ⟨by decide, ⟨samplePlane "gpu0" .discreteGpu 10 4, by decide, by decide, by decide⟩, ?_⟩
  decide

end Arbiter

end Inferenced
