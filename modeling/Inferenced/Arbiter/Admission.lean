import Inferenced.Arbiter.Conservation
import Inferenced.Arbiter.Leases

/-!
# Exactly which requests a plane can serve

As long as a plane and its active leases fit into its total, no credit of the
preemption loop (arbiter.rs:103-113) is capped: what the victims hold and what
is available add up to the same number after each of them. The loop ends with
enough memory, or with no victim left and so with all of that number. Whether
the request is served depends on the number alone, not on the order of the
victims.
-/

namespace Inferenced.Arbiter
open Lib HardwareTopology

variable {s : ArbiterState} {env : CallEnv} {req : LeaseRequest} {idx : ℕ} {p : String}
  {priority : LeasePriority}

/-- Bytes of the active leases on plane `p` whose priority is below `priority`. -/
def lowerBytes (s : ArbiterState) (p : String) (priority : LeasePriority) : ℕ :=
  s.leases.weight fun l =>
    if l.isActive && decide (l.planeId = p) && decide (l.priority < priority) then
      l.allocatedMemoryBytes.toNat
    else 0

/-- The plane at `idx` and its active leases fit into its total. -/
def Fits (s : ArbiterState) (idx : ℕ) : Prop :=
  (s.topology.availableAt idx).toNat + activeBytes s (s.topology.planeIdAt idx) ≤
    totalAt s.topology idx

/-- The memory that a victim gives back reaches the plane at `idx` that it is
taken for. It does unless another plane has the same id. -/
def creditReaches (t : HardwareTopology) (idx : ℕ) : Bool := t.chargesAt (t.planeIdAt idx) idx

/-- The most that the plane at `idx` can have available for a request of this
priority. -/
def reach (s : ArbiterState) (priority : LeasePriority) (idx : ℕ) : ℕ :=
  (s.topology.availableAt idx).toNat +
    if creditReaches s.topology idx then lowerBytes s (s.topology.planeIdAt idx) priority else 0

/-! ### One victim -/

def Preemption.toState (s : ArbiterState) (st : Preemption) : ArbiterState :=
  { s with topology := st.topology, leases := st.leases }

theorem creditReaches_congr {t t' : HardwareTopology} (h : t'.layout = t.layout) :
    creditReaches t' idx = creditReaches t idx := by
  rw [creditReaches, creditReaches, planeIdAt_congr h, chargesAt_congr h]

theorem weight_preempt {st : Preemption} {l : ComputeLease} (hv : Victim st.leases p priority l)
    (w : ComputeLease → ℕ) (hw : ∀ m : ComputeLease, m.isActive = false → w m = 0) :
    (st.preempt p l).leases.weight w + w l = st.leases.weight w := by
  have h := KeyedMap.weight_modify w (·.withState .preempted) (fun _ => rfl) hv.stored
  rw [hw (l.withState .preempted) rfl, Nat.add_zero] at h
  exact h

theorem activeBytes_preempt (s : ArbiterState) {st : Preemption} {l : ComputeLease}
    (hv : Victim st.leases p priority l) :
    activeBytes ((st.preempt p l).toState s) p + l.allocatedMemoryBytes.toNat =
      activeBytes (st.toState s) p := by
  have h := weight_preempt hv (fun l => if l.isActive && decide (l.planeId = p) then
    l.allocatedMemoryBytes.toNat else 0) (by intro m hm; simp [hm])
  simp only [hv.active, hv.onTarget, decide_true, Bool.and_self, if_true] at h
  exact h

theorem lowerBytes_preempt (s : ArbiterState) {st : Preemption} {l : ComputeLease}
    (hv : Victim st.leases p priority l) :
    lowerBytes ((st.preempt p l).toState s) p priority + l.allocatedMemoryBytes.toNat =
      lowerBytes (st.toState s) p priority := by
  have h := weight_preempt hv (fun l => if l.isActive && decide (l.planeId = p) &&
    decide (l.priority < priority) then l.allocatedMemoryBytes.toNat else 0) (by intro m hm; simp [hm])
  simp only [hv.active, hv.onTarget, hv.lower, decide_true, Bool.and_self, if_true] at h
  exact h

/-- What the loop keeps: the planes, and the sum of what the target has available
and its victims still hold. -/
structure Reaching (s : ArbiterState) (priority : LeasePriority) (idx : ℕ) (st : Preemption) : Prop where
  layout : st.topology.layout = s.topology.layout
  fits : creditReaches s.topology idx = true → Fits (st.toState s) idx
  sum : reach (st.toState s) priority idx = reach s priority idx

theorem Reaching.availableAt_preempt {st : Preemption} {l : ComputeLease}
    (h : Reaching s priority idx st)
    (hv : Victim st.leases (s.topology.planeIdAt idx) priority l) :
    ((st.preempt (s.topology.planeIdAt idx) l).topology.availableAt idx).toNat =
      (st.topology.availableAt idx).toNat +
        if creditReaches s.topology idx then l.allocatedMemoryBytes.toNat else 0 := by
  have hcharge : st.topology.chargesAt (s.topology.planeIdAt idx) idx =
      creditReaches s.topology idx := chargesAt_congr h.layout _ _
  have havail := availableAt_restorePlaneMemory (t := st.topology) (s.topology.planeIdAt idx)
    l.allocatedMemoryBytes idx
  rw [hcharge] at havail
  refine havail.trans ?_
  cases hc : creditReaches s.topology idx with
  | false => rfl
  | true =>
    have hfits := h.fits hc
    have hactive := activeBytes_preempt s hv
    have hbound := totalAt_lt st.topology idx
    have hid : (st.toState s).topology.planeIdAt idx = s.topology.planeIdAt idx :=
      planeIdAt_congr h.layout idx
    rw [Fits, hid] at hfits
    simp only [Preemption.toState, if_true] at hfits hactive ⊢
    rw [Nat.mod_eq_of_lt (by omega)]
    omega

theorem Reaching.preempt {st : Preemption} {l : ComputeLease} (h : Reaching s priority idx st)
    (hv : Victim st.leases (s.topology.planeIdAt idx) priority l) :
    Reaching s priority idx (st.preempt (s.topology.planeIdAt idx) l) := by
  have hlay : (st.preempt (s.topology.planeIdAt idx) l).topology.layout = st.topology.layout :=
    layout_restorePlaneMemory ..
  have hid := planeIdAt_congr h.layout idx
  have hid' := planeIdAt_congr (hlay.trans h.layout) idx
  have htot := totalAt_congr hlay idx
  have havail := h.availableAt_preempt hv
  have hactive := activeBytes_preempt s hv
  have hlower := lowerBytes_preempt s hv
  refine ⟨hlay.trans h.layout, fun hc => ?_, ?_⟩
  · have hfits := h.fits hc
    simp only [Fits, Preemption.toState, hid, hid', htot, hc, if_true] at hfits havail hactive ⊢
    omega
  · rw [← h.sum]
    simp only [reach, Preemption.toState, creditReaches_congr h.layout,
      creditReaches_congr (hlay.trans h.layout), hid, hid'] at havail hlower ⊢
    cases hc : creditReaches s.topology idx with
    | false =>
      rw [hc] at havail
      exact havail
    | true =>
      rw [hc, if_pos rfl] at havail
      rw [if_pos rfl, if_pos rfl]
      omega

/-! ### The end of the loop -/

theorem reaching_makeRoom (env : CallEnv) (req : LeaseRequest)
    (hfits : creditReaches s.topology idx = true → Fits s idx) :
    Reaching s req.priority idx (makeRoom s env req idx) :=
  makeRoom_rule (Reaching s req.priority idx) ⟨rfl, hfits, rfl⟩ fun _ _ h _ hv _ => h.preempt hv

theorem lowerBytes_of_exhausted (h : Exhausted s env req idx) :
    lowerBytes ((makeRoom s env req idx).toState s) (s.topology.planeIdAt idx) req.priority = 0 := by
  refine KeyedMap.weight_eq_zero _ fun l hl => ?_
  have hl := KeyedMap.get?_of_mem hl
  by_contra hne
  simp only [ite_eq_right_iff, Classical.not_imp, Bool.and_eq_true, decide_eq_true_eq] at hne
  obtain ⟨⟨⟨hactive, honto⟩, hlower⟩, -⟩ := hne
  rcases makeRoom_lease s env req idx l.id with hsame | ⟨m, -, -, hpre⟩
  · have hv : Victim s.leases (s.topology.planeIdAt idx) req.priority l :=
      ⟨hsame.symm.trans hl, hactive, honto, hlower⟩
    have hpre := hl.symm.trans (h.preempted hv)
    rw [Option.some.inj hpre] at hactive
    cases hactive
  · rw [Option.some.inj (hl.symm.trans hpre)] at hactive
    cases hactive

theorem exhausted_iff (env : CallEnv) (req : LeaseRequest)
    (hfits : creditReaches s.topology idx = true → Fits s idx) :
    Exhausted s env req idx ↔ reach s req.priority idx < req.requiredBytes.toNat := by
  have hroom := reaching_makeRoom env req hfits
  rw [← hroom.sum]
  constructor
  · intro h
    have hzero := lowerBytes_of_exhausted h
    rw [Exhausted, UInt64.lt_iff_toNat_lt] at h
    simp only [reach]
    show _ + (if _ then lowerBytes _ ((makeRoom s env req idx).topology.planeIdAt idx) _ else 0) < _
    rw [planeIdAt_congr hroom.layout, hzero, ite_self]
    exact h
  · intro h
    rw [Exhausted, UInt64.lt_iff_toNat_lt]
    exact Nat.lt_of_le_of_lt (Nat.le_add_right _ _) h

/-! ### The answer to a request -/

theorem acquireLease_of_exhausted (hpsi : env.psi.level ≠ .critical)
    (hprio : req.priority ≠ .emergencyTriage) (htarget : targetPlaneIdx s.topology req = .ok idx)
    (hx : Exhausted s env req idx) :
    (acquireLease s env req).result = .error (.resourceExhaustion (s.topology.planeIdAt idx)
      req.requiredBytes ((makeRoom s env req idx).topology.availableAt idx)) := by
  unfold acquireLease
  rw [if_neg fun hc => hpsi hc.1, htarget]
  dsimp only
  rw [if_pos ⟨hx, hprio⟩]

theorem admitted_of_room (hpsi : env.psi.level ≠ .critical)
    (htarget : targetPlaneIdx s.topology req = .ok idx) (hroom : ¬Exhausted s env req idx) :
    Admitted s env req idx :=
  ⟨fun hc => absurd hc hpsi, htarget, fun hx => absurd hx hroom⟩

/-- The answer to a request that is no emergency, by the reach of its target. -/
theorem acquireLease_iff_reach (env : CallEnv) (req : LeaseRequest) (hpsi : env.psi.level ≠ .critical)
    (hprio : req.priority ≠ .emergencyTriage) (htarget : targetPlaneIdx s.topology req = .ok idx)
    (hfits : creditReaches s.topology idx = true → Fits s idx) :
    ((∃ lease, (acquireLease s env req).result = .ok lease) ↔
        req.requiredBytes.toNat ≤ reach s req.priority idx) ∧
      (reach s req.priority idx < req.requiredBytes.toNat → ∃ available,
        (acquireLease s env req).result =
          .error (.resourceExhaustion (s.topology.planeIdAt idx) req.requiredBytes available)) := by
  have hiff := exhausted_iff env req hfits
  refine ⟨⟨fun ⟨lease, hok⟩ => ?_, fun hle => ?_⟩, fun hlt => ?_⟩
  · by_contra hlt
    rw [acquireLease_of_exhausted hpsi hprio htarget (hiff.mpr (Nat.not_le.mp hlt))] at hok
    cases hok
  · have hadm := admitted_of_room hpsi htarget fun hx => Nat.not_le.mpr (hiff.mp hx) hle
    exact ⟨grantedLease s env req idx, by rw [acquireLease_of_admitted hadm]; rfl⟩
  · exact ⟨_, acquireLease_of_exhausted hpsi hprio htarget (hiff.mpr hlt)⟩

theorem targetPlaneIdx_preferred {t : HardwareTopology} {q : String}
    (hpref : req.preferredPlane = some q) {i : ℕ} (hi : t.idx? q = some i) :
    targetPlaneIdx t req = .ok i := by
  unfold idx? at hi
  unfold targetPlaneIdx
  rw [hpref]
  dsimp only
  rw [hi]

theorem idx?_of_getElem? {t : HardwareTopology} (hd : t.Distinct) {plane : ComputePlane} {i : ℕ}
    (hget : t.planes[i]? = some plane) : t.idx? plane.id = some i := by
  have hlt := (List.getElem?_eq_some_iff.mp hget).1
  have hmem := List.mem_of_getElem? hget
  cases hi : t.idx? plane.id with
  | none =>
    have := List.findIdx?_eq_none_iff.mp hi plane hmem
    simp at this
  | some j =>
    obtain ⟨q, hq, -, hfind⟩ := getElem?_of_idx? hi
    rw [find?_of_mem hd hmem] at hfind
    have hsame : t.planes[i]? = t.planes[j]? := hget.trans (hfind.trans hq.symm)
    rw [(List.getElem?_inj hlt (List.Nodup.of_map _ hd)).mp hsame]

/-- Exact admission on a preferred plane. -/
theorem admission_exact (hd : s.topology.Distinct) {plane : ComputePlane}
    (hplane : plane ∈ s.topology.planes)
    (hfit : plane.availableMemoryBytes.toNat + activeBytes s plane.id ≤ plane.totalMemoryBytes.toNat)
    (hpsi : env.psi.level ≠ .critical) (hprio : req.priority ≠ .emergencyTriage)
    (hpref : req.preferredPlane = some plane.id) :
    ((∃ lease, (acquireLease s env req).result = .ok lease) ↔ req.requiredBytes.toNat ≤
        plane.availableMemoryBytes.toNat + lowerBytes s plane.id req.priority) ∧
      (¬req.requiredBytes.toNat ≤
          plane.availableMemoryBytes.toNat + lowerBytes s plane.id req.priority →
        ∃ available, (acquireLease s env req).result =
          .error (.resourceExhaustion plane.id req.requiredBytes available)) := by
  obtain ⟨i, hget⟩ := List.getElem?_of_mem hplane
  have hi := idx?_of_getElem? hd hget
  have hid : s.topology.planeIdAt i = plane.id := by simp [planeIdAt, hget]
  have havail : s.topology.availableAt i = plane.availableMemoryBytes := by simp [availableAt, hget]
  have htot : totalAt s.topology i = plane.totalMemoryBytes.toNat := by simp [totalAt, hget]
  have hcredit : creditReaches s.topology i = true := by simp [creditReaches, chargesAt, hid, hi]
  have hreach : reach s req.priority i =
      plane.availableMemoryBytes.toNat + lowerBytes s plane.id req.priority := by
    simp [reach, hcredit, hid, havail]
  have hans := acquireLease_iff_reach env req hpsi hprio (targetPlaneIdx_preferred hpref hi)
    (fun _ => by rwa [Fits, havail, hid, htot])
  rw [hreach, hid] at hans
  exact ⟨hans.1, fun hno => hans.2 (Nat.not_le.mp hno)⟩

def batchGpu : ArbiterState :=
  stepLease (new gpuTopology) (.acquire (sampleEnv 0) (sampleRequest .batch 6 "gpu0"))

theorem admission_exact_batchGpu :
    (∃ lease, (acquireLease batchGpu (sampleEnv 1) (sampleRequest .interactive 8 "gpu0")).result =
        .ok lease) ∧
      ∃ available, (acquireLease batchGpu (sampleEnv 1) (sampleRequest .interactive 11 "gpu0")).result =
        .error (.resourceExhaustion "gpu0" 11 available) := by
  have hmem : samplePlane "gpu0" .discreteGpu 10 4 ∈ batchGpu.topology.planes := by decide
  refine ⟨?_, ?_⟩
  · exact (admission_exact (by decide) hmem (by decide) (by decide) (by decide) rfl).1.mpr (by decide)
  · exact (admission_exact (by decide) hmem (by decide) (by decide) (by decide) rfl).2 (by decide)

end Inferenced.Arbiter
