import Inferenced.Arbiter.Leases
import Inferenced.Lib.Runs

/-!
# Memory conservation along runs of lease operations

An exact account stays exact under every lease operation except a grant of
memory that is not there (`exact_stepLease_iff`). Two consequences. The planes
that no other plane is charged to are conserved along every run without forced
grants. The CPU plane, to which the UMA planes are charged as well, is conserved
exactly along the runs in which every UMA grant is also covered by the CPU
plane: `acquire_lease` checks the target plane only.
-/

namespace Inferenced.Arbiter
open Lib Lib.Runs HardwareTopology

variable {t T : HardwareTopology} {s : ArbiterState} {env : CallEnv} {req : LeaseRequest} {idx : ℕ}
  {l : ComputeLease} {id : LeaseId} {p : String} {c : ℕ}

/-- Bytes of the active leases on plane `p`. -/
def activeBytes (s : ArbiterState) (p : String) : ℕ :=
  s.leases.weight fun l =>
    if l.isActive && decide (l.planeId = p) then l.allocatedMemoryBytes.toNat else 0

theorem held_eq_activeBytes (h : ∀ q, s.topology.charges q p = decide (q = p)) :
    (accountOf s p).held = activeBytes s p := by
  refine KeyedMap.weight_congr _ fun l _ => ?_
  simp only [charge, h]

/-- What `op` takes from plane `p` is there when it is taken. -/
def Backed (p : String) (s : ArbiterState) : LeaseOp → Prop
  | .acquire env req => ∀ idx, Admitted s env req idx →
      s.topology.charges (s.topology.planeIdAt idx) p = true →
      req.requiredBytes.toNat ≤ (makeRoom s env req idx).topology.available p
  | _ => True

/-! ### One operation -/

theorem total_lt (t : HardwareTopology) (p : String) : t.total p < 2 ^ 64 := by
  unfold total
  cases t.find? p with
  | none => simp
  | some q =>
    have := q.totalMemoryBytes.toNat_lt
    simpa using this

theorem exact_endLease (final : LeaseState) (hfinal : final.isActive = false)
    (hd : s.topology.Distinct) (hc : c ≤ s.topology.total p) (h : (accountOf s p).Exact c) :
    (accountOf (endLease final s id).state p).Exact c := by
  rcases accountOf_endLease final hfinal hd id p with ⟨he, -⟩ | ⟨l, hl, ha, hch, he⟩ <;> rw [he]
  · exact h
  · exact h.give (charge_le_held hl ha hch) hc (hc.trans_lt (total_lt _ _))

theorem exact_thawLease (hd : s.topology.Distinct) (h : (accountOf s p).Exact c) :
    (accountOf (thawLease s id).state p).Exact c := by
  rcases accountOf_thawLease hd id p with he | ⟨l, -, -, -, hle, he⟩ <;> rw [he]
  · exact h
  · exact h.take_iff.mpr hle

theorem exact_makeRoom (hd : s.topology.Distinct) (hc : c ≤ s.topology.total p)
    (h : (accountOf s p).Exact c) :
    (account (makeRoom s env req idx).topology (makeRoom s env req idx).leases p).Exact c :=
  account_makeRoom (Account.Exact c) hd
    (fun _ _ ha _ hle _ => ha.give hle hc (hc.trans_lt (total_lt _ _))) h

/-- The account of a plane stays exact under an operation if and only if what
the operation takes from the plane is there. -/
theorem exact_stepLease_iff (hd : s.topology.Distinct) (hc : c ≤ s.topology.total p)
    (h : (accountOf s p).Exact c) (op : LeaseOp)
    (hfresh : ∀ n ∈ op.newIds, s.leases.get? n = none) :
    (accountOf (stepLease s op) p).Exact c ↔ Backed p s op := by
  cases op with
  | acquire env req =>
    show (accountOf (acquireLease s env req).state p).Exact c ↔ _
    rcases acquireLease_cases s env req with
      ⟨hbar, e, he⟩ | ⟨⟨-, hno⟩, idx, e, -, -, he⟩ | ⟨idx, hadm, he⟩ <;> rw [he]
    · exact ⟨fun _ idx hadm => absurd hadm (hbar.not_admitted idx), fun _ => h⟩
    · exact ⟨fun _ idx hadm => absurd hadm (hno idx), fun _ => exact_makeRoom hd hc h⟩
    · have hi := targetPlaneIdx_lt hadm.target
      have hroom : (account (makeRoom s env req idx).topology (makeRoom s env req idx).leases
        p).Exact c := exact_makeRoom hd hc h
      rw [account_grant hd hi (hfresh _ (List.mem_cons_self ..))]
      -- the call is admitted on no other index
      have huniq : ∀ j, Admitted s env req j → j = idx := by
        intro j hj
        have := hj.target.symm.trans hadm.target
        cases this
        rfl
      split
      · rename_i hch
        rw [hroom.take_iff]
        refine ⟨fun hle j hj _ => huniq j hj ▸ hle, fun hb => hb idx hadm hch⟩
      · rename_i hch
        refine ⟨fun _ j hj hch' => absurd (huniq j hj ▸ hch') hch, fun _ => hroom⟩
  | release id => exact iff_of_true (exact_endLease .expired rfl hd hc h) trivial
  | revoke id => exact iff_of_true (exact_endLease .revoked rfl hd hc h) trivial
  | yield id => exact iff_of_true ((accountOf_markLease .preempting rfl).symm ▸ h) trivial
  | freeze id => exact iff_of_true ((accountOf_markLease .frozen rfl).symm ▸ h) trivial
  | thaw id => exact iff_of_true (exact_thawLease hd h) trivial

/-! ### Runs -/

structure Started (T : HardwareTopology) (used : List LeaseId) (s : ArbiterState) : Prop where
  tracked : Tracked used s
  layout : s.topology.layout = T.layout

theorem started_new (T : HardwareTopology) : Started T [] (new T) := ⟨tracked_new T, rfl⟩

theorem Started.stepLease {used : List LeaseId} (h : Started T used s) (op : LeaseOp)
    (hn : ∀ n ∈ op.newIds, n ∉ used) : Started T (op.newIds ++ used) (stepLease s op) :=
  ⟨h.tracked.stepLease op hn, (layout_stepLease s op).trans h.layout⟩

theorem started_run (ops : List LeaseOp) (hfresh : Fresh LeaseOp.newIds [] ops) :
    Started T (usedAfter LeaseOp.newIds [] ops) (exec stepLease (new T) ops) :=
  exec_inv_fresh_all (Started T) (fun _ _ op h hn => h.stepLease op hn) [] _ ops (started_new T) hfresh

theorem accountOf_new (T : HardwareTopology) (p : String) :
    accountOf (new T) p = ⟨T.available p, 0⟩ := rfl

/-! ### Planes to which nothing else is charged -/

/-- The grant of `op`, if any, is not forced. -/
def Unforced (s : ArbiterState) : LeaseOp → Prop
  | .acquire env req => ¬ ForcedGrant s env req
  | _ => True

def LeaseOp.NonEmergency : LeaseOp → Prop
  | .acquire _ req => req.priority ≠ .emergencyTriage
  | _ => True

instance (op : LeaseOp) : Decidable op.NonEmergency :=
  match op with
  | .acquire _ req => inferInstanceAs (Decidable (req.priority ≠ .emergencyTriage))
  | .release _ | .revoke _ | .yield _ | .freeze _ | .thaw _ => .isTrue trivial

theorem LeaseOp.NonEmergency.unforced {op : LeaseOp} (h : op.NonEmergency) (s : ArbiterState) :
    Unforced s op := by
  cases op with
  | acquire env req =>
    rintro ⟨idx, hadm, hx⟩
    exact h (hadm.room hx)
  | _ => trivial

/-- Only the leases on plane `p` itself are charged to it. -/
def Sole (t : HardwareTopology) (p : String) : Prop := ∀ q, t.charges q p = decide (q = p)

theorem Sole.congr {t' : HardwareTopology} (h : t'.layout = t.layout) (hs : Sole t p) : Sole t' p :=
  fun q => (charges_congr h q p).trans (hs q)

theorem sole_of_not_cpu (h : t.cpuId? ≠ some p) : Sole t p := by
  intro q
  simp [charges, h]

theorem sole_of_no_uma (h : ∀ q ∈ t.planes, q.kind ≠ .integratedUma) (p : String) : Sole t p := by
  intro q
  have huma : t.isUma q = false := by
    unfold isUma
    cases hf : t.find? q with
    | none => rfl
    | some x => simpa using h x (List.mem_of_find?_eq_some hf)
  simp [charges, huma]

/-- An operation that is not forced takes from such a plane only what is
there: `acquire_lease` checks the target plane. -/
theorem Unforced.backed (hd : s.topology.Distinct) (hp : Sole s.topology p) {op : LeaseOp}
    (h : Unforced s op) : Backed p s op := by
  cases op with
  | acquire env req =>
    intro idx hadm hch
    rw [hp, decide_eq_true_eq] at hch
    have hlay : (makeRoom s env req idx).topology.layout = s.topology.layout := layout_makeRoom
    have hi : idx < (makeRoom s env req idx).topology.planes.length := by
      rw [length_congr hlay]
      exact targetPlaneIdx_lt hadm.target
    have hroom : ¬ Exhausted s env req idx := fun hx => h ⟨idx, hadm, hx⟩
    unfold Exhausted at hroom
    rw [UInt64.lt_iff_toNat_lt, available_at (hd.congr hlay) hi, planeIdAt_congr hlay, hch] at hroom
    omega
  | _ => trivial

structure Balanced (T : HardwareTopology) (used : List LeaseId) (s : ArbiterState) : Prop
    extends Started T used s where
  exact : ∀ p, Sole T p → (accountOf s p).Exact (T.available p)

theorem balanced_new (T : HardwareTopology) : Balanced T [] (new T) :=
  ⟨started_new T, fun p _ => by simp [accountOf_new, Account.Exact]⟩

theorem Balanced.stepLease (hw : T.WellFormed) {used : List LeaseId} (h : Balanced T used s)
    (op : LeaseOp) (hn : ∀ n ∈ op.newIds, n ∉ used) (hunf : Unforced s op) :
    Balanced T (op.newIds ++ used) (stepLease s op) := by
  have hd := hw.distinct.congr h.layout
  refine ⟨h.toStarted.stepLease op hn, fun p hp => ?_⟩
  refine (exact_stepLease_iff hd ?_ (h.exact p hp) op (h.tracked.fresh hn)).mpr
    (hunf.backed hd (hp.congr h.layout))
  rw [total_congr h.layout]
  exact hw.available_le_total p

theorem balanced_run (hw : T.WellFormed) (ops : List LeaseOp)
    (hfresh : Fresh LeaseOp.newIds [] ops) (hforced : Along stepLease Unforced (new T) ops) :
    Balanced T (usedAfter LeaseOp.newIds [] ops) (exec stepLease (new T) ops) :=
  exec_inv_fresh (Balanced T) (fun _ _ op h hn hunf => h.stepLease hw op hn hunf) [] _ ops
    (balanced_new T) hfresh hforced

theorem sole_of_plane (hd : T.Distinct) {p : ComputePlane} (hp : p ∈ T.planes)
    (hcpu : T.cpu? ≠ some p ∨ ∀ q ∈ T.planes, q.kind ≠ .integratedUma) : Sole T p.id := by
  rcases hcpu with hcpu | huma
  · refine sole_of_not_cpu fun h => hcpu ?_
    obtain ⟨c, hc, hid⟩ := Option.map_eq_some_iff.mp h
    rw [hc, List.inj_on_of_nodup_map hd (List.mem_of_find?_eq_some hc) hp hid]
  · exact sole_of_no_uma huma p.id

theorem find?_of_layout (h : t.layout = T.layout) {p : ComputePlane} (hp : p ∈ T.planes) :
    ∃ q, t.find? p.id = some q := by
  have hmem : p.id ∈ t.planes.map (·.id) := by
    rw [ids_of_layout h]
    exact List.mem_map_of_mem hp
  obtain ⟨x, hx, hid⟩ := List.mem_map.mp hmem
  cases hf : t.find? p.id with
  | none => exact absurd (List.find?_eq_none.mp hf x hx) (by simpa using hid)
  | some q => exact ⟨q, rfl⟩

theorem activeBytes_eq_zero (h : ∀ l ∈ s.leases.entries, l.planeId = p → l.isActive = false) :
    activeBytes s p = 0 := by
  refine KeyedMap.weight_eq_zero _ fun l hl => ?_
  by_cases hpl : l.planeId = p
  · simp [h l hl hpl]
  · simp [hpl]

theorem Balanced.plane (hw : T.WellFormed) {used : List LeaseId} (h : Balanced T used s)
    {p : ComputePlane} (hp : p ∈ T.planes) (hsole : Sole T p.id) :
    ∃ q, s.topology.find? p.id = some q ∧
      q.availableMemoryBytes.toNat + activeBytes s p.id = p.availableMemoryBytes.toNat ∧
      ((∀ l ∈ s.leases.entries, l.planeId = p.id → l.isActive = false) →
        q.availableMemoryBytes = p.availableMemoryBytes) := by
  obtain ⟨q, hq⟩ := find?_of_layout h.layout hp
  have hex : s.topology.available p.id + (accountOf s p.id).held = T.available p.id :=
    h.exact p.id hsole
  rw [held_eq_activeBytes (hsole.congr h.layout), available_of_mem hw.distinct hp] at hex
  simp only [available, hq, Option.map_some, Option.getD_some] at hex
  refine ⟨q, hq, hex, fun hidle => UInt64.toNat_inj.mp ?_⟩
  rw [activeBytes_eq_zero hidle] at hex
  exact hex

/-- Memory conservation: along every run without forced grants, from a start
with distinct plane ids and `available ≤ total`, the availability of a plane
and the bytes of its active leases add up to the initial availability, for
every plane but the CPU plane, and for that too when there is no UMA plane. -/
theorem plane_memory_conserved (hw : T.WellFormed) (ops : List LeaseOp)
    (hfresh : Fresh LeaseOp.newIds [] ops) (hforced : Along stepLease Unforced (new T) ops)
    (p : ComputePlane) (hp : p ∈ T.planes)
    (hcpu : T.cpu? ≠ some p ∨ ∀ q ∈ T.planes, q.kind ≠ .integratedUma) :
    ∃ q, (exec stepLease (new T) ops).topology.find? p.id = some q ∧
      q.availableMemoryBytes.toNat + activeBytes (exec stepLease (new T) ops) p.id =
        p.availableMemoryBytes.toNat ∧
      ((∀ l ∈ (exec stepLease (new T) ops).leases.entries, l.planeId = p.id → l.isActive = false) →
        q.availableMemoryBytes = p.availableMemoryBytes) :=
  (balanced_run hw ops hfresh hforced).plane hw hp (sole_of_plane hw.distinct hp hcpu)

def gpuTopology : HardwareTopology := sampleTopology [samplePlane "gpu0" .discreteGpu 10 10]

theorem gpuTopology_wellFormed : gpuTopology.WellFormed := ⟨by decide, by decide⟩

/-- A batch lease is preempted, its successor released, and the lease thawed. -/
def gpuRun : List LeaseOp :=
  [.acquire (sampleEnv 0) (sampleRequest .batch 6 "gpu0"),
   .acquire (sampleEnv 1) (sampleRequest .interactive 8 "gpu0"),
   .thaw (sampleId 0), .release (sampleId 1), .thaw (sampleId 0)]

theorem plane_memory_conserved_gpuRun :
    ∃ q, (exec stepLease (new gpuTopology) gpuRun).topology.find? "gpu0" = some q ∧
      q.availableMemoryBytes.toNat + activeBytes (exec stepLease (new gpuTopology) gpuRun) "gpu0" =
        10 ∧
      ((∀ l ∈ (exec stepLease (new gpuTopology) gpuRun).leases.entries,
        l.planeId = "gpu0" → l.isActive = false) → q.availableMemoryBytes = 10) :=
  plane_memory_conserved gpuTopology_wellFormed gpuRun ⟨by decide, by decide⟩
    (along_of_forall _ (fun op hop => LeaseOp.NonEmergency.unforced
      ((by decide : ∀ op ∈ gpuRun, op.NonEmergency) op hop)) _)
    (samplePlane "gpu0" .discreteGpu 10 10) (by decide) (Or.inl (by decide))

end Inferenced.Arbiter
