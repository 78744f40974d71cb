import Inferenced.Arbiter.Capacity
import Inferenced.Topology.Enclave

/-!
# Emergency triage

An emergency request without a preferred plane passes the pressure gate, finds
a plane whenever there is one, and is granted there whatever the plane has
left. On discovered topologies that plane is the enclave: an NPU that is not
quarantined, or the CPU plane.
-/

namespace Inferenced.Arbiter
open Lib Lib.Runs HardwareTopology

variable {s : ArbiterState} {t T : HardwareTopology} {env : CallEnv} {req : LeaseRequest} {idx : ℕ}

/-- The plane for triage: the first reserved one, else the first CPU plane. -/
structure TriagePlane (t : HardwareTopology) (p : ComputePlane) : Prop where
  mem : p ∈ t.planes
  reserved : ∀ q, t.planes.find? (·.isTriageReserved) = some q → p = q
  cpu : t.planes.find? (·.isTriageReserved) = none → ∀ q, t.cpu? = some q → p = q

theorem getElem?_of_findIdx? {α : Type*} {l : List α} {q : α → Bool} {i : ℕ}
    (h : l.findIdx? q = some i) : l[i]? = l.find? q := by
  rw [List.find?_eq_bind_findIdx?_getElem?, h]
  rfl

theorem find?_eq_none_of_findIdx? {α : Type*} {l : List α} {q : α → Bool}
    (h : l.findIdx? q = none) : l.find? q = none := by
  rw [List.find?_eq_bind_findIdx?_getElem?, h]
  rfl

theorem targetPlaneIdx_emergency (hne : t.planes ≠ []) (hprio : req.priority = .emergencyTriage)
    (hpref : req.preferredPlane = none) :
    ∃ idx p, targetPlaneIdx t req = .ok idx ∧ t.planes[idx]? = some p ∧ TriagePlane t p := by
  -- the three choices, in the order of the source
  obtain ⟨p₀, i₀, hbig, hmem₀⟩ : ∃ p i, maxByKey (fun ip : ComputePlane × ℕ =>
      ip.1.totalMemoryBytes.toNat) t.planes.zipIdx = some (p, i) ∧ t.planes[i]? = some p := by
    cases h : maxByKey (fun ip : ComputePlane × ℕ => ip.1.totalMemoryBytes.toNat)
        t.planes.zipIdx with
    | none =>
      rw [maxByKey_eq_none, List.zipIdx_eq_nil_iff] at h
      exact absurd h hne
    | some ip => exact ⟨ip.1, ip.2, rfl, List.mem_zipIdx_iff_getElem?.mp (maxByKey_mem h)⟩
  unfold targetPlaneIdx
  rw [hpref]
  dsimp only
  rw [if_pos hprio]
  cases hr : t.planes.findIdx? fun p => p.isTriageReserved with
  | some i =>
    obtain ⟨p, hp⟩ : ∃ p, t.planes[i]? = some p :=
      ⟨_, List.getElem?_eq_getElem (findIdx?_lt hr)⟩
    have hfind := (getElem?_of_findIdx? hr).symm.trans hp
    refine ⟨i, p, rfl, hp, List.mem_of_getElem? hp, fun q hq => ?_, fun hnone => ?_⟩
    · exact Option.some.inj (hfind.symm.trans hq)
    · exact absurd (hfind.symm.trans hnone) (by simp)
  | none =>
    have hnone := find?_eq_none_of_findIdx? hr
    have hno : ∀ q, t.planes.find? (·.isTriageReserved) = some q → ∀ p : ComputePlane, p = q :=
      fun q hq => absurd (hnone.symm.trans hq) (by simp)
    cases hc : t.planes.findIdx? fun p => decide (p.kind = .cpuMatrixExtension) with
    | some i =>
      obtain ⟨p, hp⟩ : ∃ p, t.planes[i]? = some p :=
        ⟨_, List.getElem?_eq_getElem (findIdx?_lt hc)⟩
      have hfind : t.cpu? = some p := (getElem?_of_findIdx? hc).symm.trans hp
      exact ⟨i, p, rfl, hp, List.mem_of_getElem? hp, fun q hq => hno q hq p,
        fun _ q hq => Option.some.inj (hfind.symm.trans hq)⟩
    | none =>
      have hcpu : t.cpu? = none := find?_eq_none_of_findIdx? hc
      refine ⟨i₀, p₀, ?_, hmem₀, List.mem_of_getElem? hmem₀, fun q hq => hno q hq p₀,
        fun _ q hq => absurd (hcpu.symm.trans hq) (by simp)⟩
      simp only [hbig, Option.none_or, Option.map_some]

theorem TriagePlane.safe {p : ComputePlane} (h : TriagePlane t p) (hsafe : SafeEnclave t.planes) :
    p.kind ≠ .discreteGpu ∧ p.kind ≠ .integratedUma ∧ p.isQuarantined = false := by
  cases hr : t.planes.find? (·.isTriageReserved) with
  | some q =>
    have hq := h.reserved q hr
    subst hq
    have hres : p.isTriageReserved = true := List.find?_some hr
    obtain ⟨hkind, hquar⟩ := hsafe.reserved p h.mem hres
    rw [hkind]
    exact ⟨by decide, by decide, hquar⟩
  | none =>
    obtain ⟨c, hc, hckind⟩ := hsafe.cpuExists
    cases hcpu : t.cpu? with
    | none => exact absurd (List.find?_eq_none.mp hcpu c hc) (by simpa using hckind)
    | some q =>
      have hq := h.cpu hr q hcpu
      subst hq
      have hkind : p.kind = .cpuMatrixExtension := by simpa using List.find?_some hcpu
      rw [hkind]
      exact ⟨by decide, by decide, hsafe.cpu p h.mem hkind⟩

theorem safeEnclave_congr {t' : HardwareTopology} (h : t'.layout = t.layout)
    (hs : SafeEnclave t.planes) : SafeEnclave t'.planes := by
  have hback : ∀ p ∈ t'.planes, ∃ q ∈ t.planes, p.layout = q.layout := by
    intro p hp
    have : p.layout ∈ t.layout := h ▸ List.mem_map_of_mem hp
    obtain ⟨q, hq, he⟩ := List.mem_map.mp this
    exact ⟨q, hq, he.symm⟩
  have hfield : ∀ {α : Type} (g : ComputePlane → α), (∀ p : ComputePlane, g p.layout = g p) →
      ∀ {p q : ComputePlane}, p.layout = q.layout → g p = g q :=
    fun g hg p q he => (hg p).symm.trans ((congrArg g he).trans (hg q))
  refine ⟨fun p hp hr => ?_, fun p hp hk => ?_, ?_⟩
  · obtain ⟨q, hq, he⟩ := hback p hp
    rw [hfield (·.kind) (fun _ => rfl) he, hfield (·.isQuarantined) (fun _ => rfl) he]
    exact hs.reserved q hq ((hfield (·.isTriageReserved) (fun _ => rfl) he).symm.trans hr)
  · obtain ⟨q, hq, he⟩ := hback p hp
    rw [hfield (·.isQuarantined) (fun _ => rfl) he]
    exact hs.cpu q hq ((hfield (·.kind) (fun _ => rfl) he).symm.trans hk)
  · obtain ⟨q, hq, hk⟩ := hs.cpuExists
    have : q.layout ∈ t'.layout := h ▸ List.mem_map_of_mem hq
    obtain ⟨p, hp, he⟩ := List.mem_map.mp this
    exact ⟨p, hp, (hfield (·.kind) (fun _ => rfl) he).trans hk⟩

theorem planes_ne_nil_of_discovered {T : HardwareTopology} {ops : List ArbiterOp}
    (h : ∀ t ∈ given T ops, ∃ scan, t = discover scan) :
    (exec step (new T) ops).topology.planes ≠ [] := by
  obtain ⟨t, ht, hlay⟩ := layout_given T ops
  obtain ⟨scan, rfl⟩ := h t ht
  obtain ⟨cpu, hcpu, -⟩ := (safeEnclave_congr hlay (discover_safeEnclave scan)).cpuExists
  exact List.ne_nil_of_mem hcpu

/-- Emergency triage: in every state that a run of lease operations and
hot-plug events reaches with at least one plane, an emergency request without a
preferred plane is granted an active lease on the triage plane. If every
topology given to the arbiter was discovered, that plane is no GPU and not
quarantined. If every given topology is capped, no addition of the call
overflows. -/
theorem emergency_triage_served (T : HardwareTopology) (ops : List ArbiterOp)
    (hplanes : (exec step (new T) ops).topology.planes ≠ []) (env : CallEnv) (req : LeaseRequest)
    (hprio : req.priority = .emergencyTriage) (hpref : req.preferredPlane = none) :
    ∃ lease p, (acquireLease (exec step (new T) ops) env req).result = .ok lease ∧
      (acquireLease (exec step (new T) ops) env req).state.leases.get? lease.id = some lease ∧
      lease.state = .active ∧ lease.allocatedMemoryBytes = req.requiredBytes ∧
      lease.planeId = p.id ∧ TriagePlane (exec step (new T) ops).topology p ∧
      ((∀ t ∈ given T ops, ∃ scan, t = discover scan) →
        p.kind ≠ .discreteGpu ∧ p.kind ≠ .integratedUma ∧ p.isQuarantined = false) ∧
      (Fresh ArbiterOp.newIds [] ops → (∀ t ∈ given T ops, Capped t) →
        ∃ idx, targetPlaneIdx (exec step (new T) ops).topology req = .ok idx ∧
          CreditsFit (exec step (new T) ops) env req idx) := by
  obtain ⟨idx, p, htarget, hp, htriage⟩ := targetPlaneIdx_emergency hplanes hprio hpref
  have hadm : Admitted (exec step (new T) ops) env req idx :=
    ⟨fun _ => hprio, htarget, fun _ => hprio⟩
  have hid : (exec step (new T) ops).topology.planeIdAt idx = p.id := by simp [planeIdAt, hp]
  refine ⟨grantedLease (exec step (new T) ops) env req idx, p, ?_, ?_, rfl, rfl, hid, htriage, ?_, ?_⟩
  · rw [acquireLease_of_admitted hadm]
    rfl
  · rw [acquireLease_of_admitted hadm, get?_grant]
    exact if_pos rfl
  · intro hdisc
    obtain ⟨t, ht, hlay⟩ := layout_given T ops
    obtain ⟨scan, rfl⟩ := hdisc t ht
    exact htriage.safe (safeEnclave_congr hlay (discover_safeEnclave scan))
  · intro hfresh hcap
    exact ⟨idx, htarget, (bounded_run ops hfresh hcap).creditsFit⟩

def hailoScan : Scan :=
  { meminfo := none, cpuinfo := none, nodes := none, accel := none, hailo := true, dri := none
    pstore := [] }

def hailoRun : List ArbiterOp :=
  [.lease (.acquire (sampleEnv 0) (sampleRequest .emergencyTriage 4294967296 "npu-hailo0")),
   .updateTopology IterOrder.stored (discover { hailoScan with hailo := false })]

theorem emergency_triage_served_hailoRun :
    ∃ (lease : ComputeLease) (p : ComputePlane),
      (acquireLease (exec step (new (discover hailoScan)) hailoRun) (sampleEnv 1)
        { sampleRequest .emergencyTriage 7 "" with preferredPlane := none }).result = .ok lease ∧
      lease.planeId = p.id ∧ p.kind ≠ .discreteGpu ∧ p.kind ≠ .integratedUma ∧
      p.isQuarantined = false := by
  obtain ⟨lease, p, hok, -, -, -, hid, -, hsafe, -⟩ :=
    emergency_triage_served (discover hailoScan) hailoRun (by decide) (sampleEnv 1)
      { sampleRequest .emergencyTriage 7 "" with preferredPlane := none } rfl rfl
  refine ⟨lease, p, hok, hid, hsafe fun t ht => ?_⟩
  rcases List.mem_cons.mp ht with rfl | ht
  · exact ⟨_, rfl⟩
  · exact ⟨_, List.mem_singleton.mp ht⟩

end Inferenced.Arbiter
