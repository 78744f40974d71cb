import Inferenced.Arbiter.Conservation

/-!
# UMA planes and the CPU plane

A UMA plane and the CPU plane hand out the same host memory, and every UMA
lease is charged to both. `thaw_lease` checks both planes before it takes
memory; `acquire_lease` checks only its target (arbiter.rs:95-123) and then
debits the CPU plane with saturation. The CPU account therefore stays exact
along a run if and only if every UMA grant of the run would also have passed
the check that `thaw_lease` makes.
-/

namespace Inferenced.Arbiter
open Lib Lib.Runs HardwareTopology

variable {t T : HardwareTopology} {s : ArbiterState} {env : CallEnv} {req : LeaseRequest} {idx : ℕ}
  {p : String}

def umaBytes (s : ArbiterState) : ℕ :=
  s.leases.weight fun l =>
    if l.isActive && s.topology.isUma l.planeId then l.allocatedMemoryBytes.toNat else 0

theorem held_cpu (hd : s.topology.Distinct) (hcpu : s.topology.cpuId? = some p) :
    (accountOf s p).held = activeBytes s p + umaBytes s := by
  unfold activeBytes umaBytes
  rw [← KeyedMap.weight_add]
  refine KeyedMap.weight_congr _ fun l _ => ?_
  by_cases hu : s.topology.isUma l.planeId = true
  · have hne : l.planeId ≠ p := fun h => cpuId?_ne_uma hd hu (h ▸ hcpu)
    simp [charge, charges, hu, hcpu, hne]
  · simp [charge, charges, hu]

/-! ### Memory that a request reclaims -/

/-- Bytes given back by the victims of sizes `bs`, taken in order until
`available` has grown to `required`. -/
def reclaimed (required : ℕ) : ℕ → List ℕ → ℕ
  | _, [] => 0
  | available, b :: bs =>
    if required ≤ available then 0 else b + reclaimed required (available + b) bs

def leaseBytes (leases : LeaseMap) (id : LeaseId) : ℕ :=
  (leases.get? id).elim 0 (·.allocatedMemoryBytes.toNat)

def reclaimable (s : ArbiterState) (env : CallEnv) (req : LeaseRequest) (idx : ℕ) : ℕ :=
  reclaimed req.requiredBytes.toNat (s.topology.available (s.topology.planeIdAt idx))
    ((preemptable s.leases env.order (s.topology.planeIdAt idx) req.priority).map (leaseBytes s.leases))

theorem available_preempt {st : Preemption} {l : ComputeLease} {target : String}
    {priority : LeasePriority} {c : ℕ} (hd : st.topology.Distinct)
    (hv : Victim st.leases target priority l) (hc : c ≤ st.topology.total p)
    (hch : st.topology.charges target p = true)
    (hex : (account st.topology st.leases p).Exact c) :
    (st.preempt target l).topology.available p =
        st.topology.available p + l.allocatedMemoryBytes.toNat ∧
      (account (st.preempt target l).topology (st.preempt target l).leases p).Exact c := by
  have hacc := account_credit .preempted p hd hv.stored hv.active rfl
  rw [hv.onTarget, if_pos hch] at hacc
  have hle : l.allocatedMemoryBytes.toNat ≤ (account st.topology st.leases p).held :=
    charge_le_held hv.stored hv.active (hv.onTarget.symm ▸ hch)
  have hex' := hex.give hle hc (hc.trans_lt (total_lt _ _))
  rw [← hacc] at hex'
  refine ⟨?_, hex'⟩
  have hheld : (account (st.preempt target l).topology (st.preempt target l).leases p).held =
      (account st.topology st.leases p).held - l.allocatedMemoryBytes.toNat :=
    congrArg Account.held hacc
  have h₁ : (st.preempt target l).topology.available p +
      (account (st.preempt target l).topology (st.preempt target l).leases p).held = c := hex'
  have h₂ : st.topology.available p + (account st.topology st.leases p).held = c := hex
  omega

/-- The loop on exact accounts: every plane charged for the target gets back
the bytes that the target needs. -/
theorem available_preemptLoop {target : String} {priority : LeasePriority} {required : UInt64}
    {start : LeaseMap} {a c : ℕ} (hd : t.Distinct)
    (hi : idx < t.planes.length)
    (htarget : t.planeIdAt idx = target) (ha : a ≤ t.total target) (hc : c ≤ t.total p)
    (hch : t.charges target p = true) (ids : List LeaseId) (st : Preemption) (hn : ids.Nodup)
    (hlay : st.topology.layout = t.layout)
    (hv : ∀ id ∈ ids, ∃ l, l.id = id ∧ Victim start target priority l ∧
      Victim st.leases target priority l)
    (hta : (account st.topology st.leases target).Exact a)
    (hpc : (account st.topology st.leases p).Exact c) :
    (preemptLoop idx target required ids st).topology.available p =
      st.topology.available p +
        reclaimed required.toNat (st.topology.available target) (ids.map (leaseBytes start)) := by
  induction ids generalizing st with
  | nil => rfl
  | cons id rest ih =>
    have hd' := hd.congr hlay
    have hi' : idx < st.topology.planes.length := by rwa [length_congr hlay]
    have hat : (st.topology.availableAt idx).toNat = st.topology.available target := by
      rw [available_at hd' hi', planeIdAt_congr hlay, htarget]
    obtain ⟨l, rfl, hl₀, hl⟩ := hv _ (List.mem_cons_self ..)
    have hsize : leaseBytes start l.id = l.allocatedMemoryBytes.toNat := by simp [leaseBytes, hl₀.stored]
    have hcond : required ≤ st.topology.availableAt idx ↔
        required.toNat ≤ st.topology.available target := by rw [UInt64.le_iff_toNat_le, hat]
    rw [preemptLoop, List.map_cons, reclaimed, hsize]
    by_cases henough : required.toNat ≤ st.topology.available target
    · rw [if_pos (hcond.mpr henough), if_pos henough]
      rfl
    · rw [if_neg fun h => henough (hcond.mp h), if_neg henough]
      rw [List.nodup_cons] at hn
      rw [hl.stored]
      dsimp only
      obtain ⟨hat', hta'⟩ := available_preempt hd' hl (by rwa [total_congr hlay])
        (charges_self _ _) hta
      obtain ⟨hap', hpc'⟩ := available_preempt hd' hl (by rwa [total_congr hlay])
        (by rwa [charges_congr hlay]) hpc
      rw [ih _ hn.2 _ _ hta' hpc', hat', hap']
      · omega
      · simp only [Preemption.preempt, layout_restorePlaneMemory, hlay]
      · intro j hj
        obtain ⟨m, rfl, hm₀, hm⟩ := hv j (List.mem_cons_of_mem _ hj)
        exact ⟨m, rfl, hm₀, hm.preempt fun h => hn.1 (h ▸ hj)⟩

theorem reclaimed_of_le {required available : ℕ} (h : required ≤ available) (bs : List ℕ) :
    reclaimed required available bs = 0 := by
  cases bs with
  | nil => rfl
  | cons b bs => rw [reclaimed, if_pos h]

theorem available_makeRoom {a c : ℕ} (hd : s.topology.Distinct)
    (hi : idx < s.topology.planes.length)
    (ha : a ≤ s.topology.total (s.topology.planeIdAt idx)) (hc : c ≤ s.topology.total p)
    (hch : s.topology.charges (s.topology.planeIdAt idx) p = true)
    (hta : (accountOf s (s.topology.planeIdAt idx)).Exact a) (hpc : (accountOf s p).Exact c) :
    (makeRoom s env req idx).topology.available p =
      s.topology.available p + reclaimable s env req idx := by
  unfold makeRoom reclaimable
  dsimp only
  split
  · have hv : ∀ id ∈ preemptable s.leases env.order (s.topology.planeIdAt idx) req.priority,
        ∃ l, l.id = id ∧ Victim s.leases (s.topology.planeIdAt idx) req.priority l ∧
          Victim s.leases (s.topology.planeIdAt idx) req.priority l := by
      intro id hid
      obtain ⟨l, hl, hv⟩ := mem_preemptable.mp hid
      exact ⟨l, hl, hv, hv⟩
    exact available_preemptLoop hd hi rfl ha hc hch _ _ (nodup_preemptable _ _) rfl hv hta hpc
  · rename_i hroom
    rw [UInt64.lt_iff_toNat_lt, available_at hd hi, not_lt] at hroom
    rw [reclaimed_of_le hroom]
    rfl

/-! ### The CPU account along a run -/

/-- A UMA grant finds its bytes on the CPU plane too, once its victims have
given theirs back. -/
def CpuCovers (cpu : String) (s : ArbiterState) : LeaseOp → Prop
  | .acquire env req => ∀ idx, Admitted s env req idx →
      s.topology.isUma (s.topology.planeIdAt idx) = true →
      req.requiredBytes.toNat ≤ s.topology.available cpu + reclaimable s env req idx
  | _ => True

theorem backed_cpu_iff (hw : T.WellFormed) {used : List LeaseId} (h : Balanced T used s)
    (hcpu : T.cpuId? = some p) (hex : (accountOf s p).Exact (T.available p)) {op : LeaseOp}
    (hop : op.NonEmergency) : Backed p s op ↔ CpuCovers p s op := by
  have hd := hw.distinct.congr h.layout
  have htot : ∀ q, T.available q ≤ s.topology.total q := fun q => by
    rw [total_congr h.layout]
    exact hw.available_le_total q
  cases op with
  | acquire env req =>
    refine forall_congr' fun idx => forall_congr' fun hadm => ?_
    have hi := targetPlaneIdx_lt hadm.target
    by_cases hu : s.topology.isUma (s.topology.planeIdAt idx) = true
    · have hch : s.topology.charges (s.topology.planeIdAt idx) p = true := by
        simp [charges, hu, cpuId?_congr h.layout, hcpu]
      have hsole : Sole T (s.topology.planeIdAt idx) := by
        refine sole_of_not_cpu fun hc => cpuId?_ne_uma hd hu ?_
        rw [cpuId?_congr h.layout, hc]
      rw [available_makeRoom hd hi (htot _) (htot _) hch (h.exact _ hsole) hex]
      simp only [hch, hu]
    · refine iff_of_true (fun hch => ?_) fun hu' => absurd hu' hu
      -- the target is the CPU plane itself, which the call has checked
      have htarget : s.topology.planeIdAt idx = p := by simpa [charges, hu] using hch
      have hroom : ¬ Exhausted s env req idx := fun hx => hop (hadm.room hx)
      have hlay : (makeRoom s env req idx).topology.layout = s.topology.layout := layout_makeRoom
      rw [Exhausted, UInt64.lt_iff_toNat_lt, available_at (hd.congr hlay)
        (by rwa [length_congr hlay]), planeIdAt_congr hlay, htarget] at hroom
      omega
  | _ => exact Iff.rfl

/-- Dual accounting: along a run of operations without emergencies, the
availability of the CPU plane, the bytes of its active leases and the bytes of
all active UMA leases add up to the initial availability of the CPU plane in
every state the run passes through, if and only if the CPU plane covers every
UMA grant of the run. -/
theorem cpu_memory_conserved_iff (hw : T.WellFormed) (cpu : ComputePlane)
    (hcpu : T.cpu? = some cpu) (ops : List LeaseOp) (hfresh : Fresh LeaseOp.newIds [] ops)
    (hops : ∀ op ∈ ops, op.NonEmergency) :
    (∀ bs, bs <+: ops →
      (exec stepLease (new T) bs).topology.available cpu.id +
          activeBytes (exec stepLease (new T) bs) cpu.id + umaBytes (exec stepLease (new T) bs) =
        cpu.availableMemoryBytes.toNat) ↔
      Along stepLease (CpuCovers cpu.id) (new T) ops := by
  have hid : T.cpuId? = some cpu.id := by rw [cpuId?, hcpu]; rfl
  have hinit : T.available cpu.id = cpu.availableMemoryBytes.toNat :=
    available_of_mem hw.distinct (List.mem_of_find?_eq_some hcpu)
  -- in every state of the run, the sum of the three amounts is the exact CPU account
  have hstate : ∀ bs, bs <+: ops →
      ((accountOf (exec stepLease (new T) bs) cpu.id).Exact (T.available cpu.id) ↔
        (exec stepLease (new T) bs).topology.available cpu.id +
          activeBytes (exec stepLease (new T) bs) cpu.id + umaBytes (exec stepLease (new T) bs) =
        cpu.availableMemoryBytes.toNat) := by
    rintro bs ⟨cs, rfl⟩
    have hst : Started T _ (exec stepLease (new T) bs) :=
      started_run bs hfresh.of_append_left
    rw [Account.Exact, held_cpu (hw.distinct.congr hst.layout)
      ((cpuId?_congr hst.layout).trans hid), hinit, ← Nat.add_assoc]
    rfl
  rw [← forall₂_congr hstate]
  refine inv_iff_along (D := fun _ op => op.NonEmergency) (Balanced T)
    (fun s => (accountOf s cpu.id).Exact (T.available cpu.id)) ?_ ?_ [] _ ops (balanced_new T)
    (by simp [accountOf_new, Account.Exact]) hfresh (along_of_forall ops (fun op hop _ => hops op hop) _)
  · intro used s op h hn hop _
    exact h.stepLease hw op hn (hop.unforced s)
  · intro used s op h hn hop hex
    rw [← backed_cpu_iff hw h hid hex hop]
    refine exact_stepLease_iff (hw.distinct.congr h.layout) ?_ hex op (h.tracked.fresh hn)
    rw [total_congr h.layout]
    exact hw.available_le_total cpu.id

/-- What discovery reports for a host of 16 bytes of which 8 are available, with
an NPU for triage: the UMA plane has half of the total, the CPU plane three
quarters of the available memory. -/
def umaTopology : HardwareTopology :=
  sampleTopology [samplePlane "drm-renderD128" .integratedUma 8 8,
    samplePlane "cpu-host" .cpuMatrixExtension 8 6]

theorem umaTopology_wellFormed : umaTopology.WellFormed := ⟨by decide, by decide⟩

def umaRun (bytes : UInt64) : List LeaseOp :=
  [.acquire (sampleEnv 0) (sampleRequest .interactive bytes "drm-renderD128"), .release (sampleId 0)]

theorem umaRun_covers : Along stepLease (CpuCovers "cpu-host") (new umaTopology) (umaRun 6) :=
  ⟨fun _ _ _ => Nat.le_add_right_of_le (by decide), trivial, trivial⟩

theorem cpu_memory_conserved_iff_umaRun :
    Along stepLease (CpuCovers "cpu-host") (new umaTopology) (umaRun 6) ∧
      ∀ bs, bs <+: umaRun 6 →
        (exec stepLease (new umaTopology) bs).topology.available "cpu-host" +
            activeBytes (exec stepLease (new umaTopology) bs) "cpu-host" +
            umaBytes (exec stepLease (new umaTopology) bs) = 6 :=
  ⟨umaRun_covers, (cpu_memory_conserved_iff umaTopology_wellFormed
    (samplePlane "cpu-host" .cpuMatrixExtension 8 6) rfl (umaRun 6) ⟨by decide, by decide⟩
    (by decide)).mpr umaRun_covers⟩

/-- A UMA grant of 7 bytes while the CPU plane has 6: the debit of the CPU plane
saturates, and the release leaves it with more than it had. -/
theorem uma_grant_overdraws_cpu :
    umaTopology.WellFormed ∧ (∀ op ∈ umaRun 7, op.NonEmergency) ∧
      Fresh LeaseOp.newIds [] (umaRun 7) ∧
      umaTopology.cpu? = some (samplePlane "cpu-host" .cpuMatrixExtension 8 6) ∧
      ¬ (∀ bs, bs <+: umaRun 7 →
        (exec stepLease (new umaTopology) bs).topology.available "cpu-host" +
            activeBytes (exec stepLease (new umaTopology) bs) "cpu-host" +
            umaBytes (exec stepLease (new umaTopology) bs) = 6) ∧
      (exec stepLease (new umaTopology) (umaRun 7)).topology.available "cpu-host" = 7 := by
  refine ⟨umaTopology_wellFormed, by decide, ⟨by decide, by decide⟩, rfl, fun h => ?_, by decide⟩
  exact absurd (h ((umaRun 7).take 1) (List.take_prefix _ _)) (by decide)

end Inferenced.Arbiter
