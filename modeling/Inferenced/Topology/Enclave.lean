import Inferenced.Topology.Discover

/-!
# The triage enclave of a discovered topology

Whatever the scan, the only plane that can be reserved for triage is an NPU
that is not quarantined, and there is always the CPU plane, which no crash
record can quarantine: none of the driver names occurs in its id or name.
-/

namespace Inferenced
open Lib

/-- What triage relies on. -/
structure SafeEnclave (planes : List ComputePlane) : Prop where
  reserved : ∀ p ∈ planes, p.isTriageReserved = true →
    p.kind = .npuAccelerator ∧ p.isQuarantined = false
  cpu : ∀ p ∈ planes, p.kind = .cpuMatrixExtension → p.isQuarantined = false
  cpuExists : ∃ p ∈ planes, p.kind = .cpuMatrixExtension

theorem mem_assignTriageEnclave {planes : List ComputePlane} {p : ComputePlane}
    (h : p ∈ (assignTriageEnclave planes).2) :
    ∃ q ∈ planes, p.kind = q.kind ∧ p.isQuarantined = q.isQuarantined ∧
      (p.isTriageReserved = true → q.isTriageReserved = true ∨ usableNpu q = true) := by
  unfold assignTriageEnclave at h
  split at h
  · rcases mem_modifyFirst h with h | ⟨q, hq, hnpu, rfl⟩
    · exact ⟨p, h, rfl, rfl, Or.inl⟩
    · exact ⟨q, hq, rfl, rfl, fun _ => Or.inr hnpu⟩
  · split at h
    · rcases mem_modifyFirst h with h | ⟨q, hq, -, rfl⟩
      · exact ⟨p, h, rfl, rfl, Or.inl⟩
      · exact ⟨q, hq, rfl, rfl, fun hr => by cases hr⟩
    · exact ⟨p, h, rfl, rfl, Or.inl⟩

/-- The assignment keeps what depends neither on the mark nor on the memory. -/
theorem map_assignTriageEnclave {β : Type*} (g : ComputePlane → β)
    (hnpu : ∀ p : ComputePlane, g { p with isTriageReserved := true } = g p)
    (hcpu : ∀ p, g (setAsideQuota p) = g p) (planes : List ComputePlane) :
    (assignTriageEnclave planes).2.map g = planes.map g := by
  unfold assignTriageEnclave
  split
  · exact map_modifyFirst _ _ _ hnpu planes
  · split
    · exact map_modifyFirst _ _ _ hcpu planes
    · rfl

theorem kinds_assignTriageEnclave (planes : List ComputePlane) :
    (assignTriageEnclave planes).2.map (·.kind) = planes.map (·.kind) :=
  map_assignTriageEnclave _ (fun _ => rfl) (fun _ => rfl) planes

theorem SafeEnclave.assign {planes : List ComputePlane}
    (hfree : ∀ p ∈ planes, p.isTriageReserved = false)
    (hcpu : ∀ p ∈ planes, p.kind = .cpuMatrixExtension → p.isQuarantined = false)
    (hex : ∃ p ∈ planes, p.kind = .cpuMatrixExtension) :
    SafeEnclave (assignTriageEnclave planes).2 := by
  refine ⟨fun p hp hr => ?_, fun p hp hk => ?_, ?_⟩
  · obtain ⟨q, hq, hkind, hquar, hres⟩ := mem_assignTriageEnclave hp
    rw [hkind, hquar]
    rcases hres hr with h | h
    · rw [hfree q hq] at h
      cases h
    · simpa [usableNpu] using h
  · obtain ⟨q, hq, hkind, hquar, -⟩ := mem_assignTriageEnclave hp
    rw [hquar]
    exact hcpu q hq (hkind.symm.trans hk)
  · have hkinds : ComputePlaneKind.cpuMatrixExtension ∈ (assignTriageEnclave planes).2.map (·.kind) := by
      rw [kinds_assignTriageEnclave]
      obtain ⟨p, hp, hk⟩ := hex
      exact List.mem_map.mpr ⟨p, hp, hk⟩
    exact List.mem_map.mp hkinds

/-! ### The planes before the assignment -/

theorem quarantine_kind (drivers : List String) (p : ComputePlane) :
    (quarantine drivers p).kind = p.kind := by
  unfold quarantine
  split <;> rfl

theorem quarantine_reserved (drivers : List String) (p : ComputePlane) :
    (quarantine drivers p).isTriageReserved = p.isTriageReserved := by
  unfold quarantine
  split <;> rfl

theorem quarantine_cpu {drivers : List String} (hd : ∀ d ∈ drivers, d ∈ knownDrivers)
    (availRam : UInt64) : quarantine drivers (buildCpuPlane availRam) = buildCpuPlane availRam := by
  have hno : ∀ d ∈ knownDrivers,
      (Text.contains (Text.toLowercase "cpu-host".toList) d.toList ||
        Text.contains (Text.toLowercase "Host CPU SIMD/Matrix Plane".toList) d.toList) = false := by
    decide
  unfold quarantine
  refine if_neg fun hany => ?_
  obtain ⟨d, hmem, hd'⟩ := List.any_eq_true.mp hany
  exact absurd ((hno d (hd d hmem)).symm.trans hd') (by decide)

theorem mem_discoverNpuPlanes {accel : Option (List String)} {hailo : Bool} {p : ComputePlane}
    (h : p ∈ discoverNpuPlanes accel hailo) :
    p.kind = .npuAccelerator ∧ p.isTriageReserved = false := by
  rcases List.mem_append.mp h with h | h
  · obtain ⟨name, -, rfl⟩ := List.mem_map.mp h
    exact ⟨rfl, rfl⟩
  · cases hailo with
    | true =>
      rw [List.mem_singleton.mp h]
      exact ⟨rfl, rfl⟩
    | false => cases h

theorem mem_discoverDrmPlanes {dri : Option (List DrmEntry)} {total avail : UInt64}
    {p : ComputePlane} (h : p ∈ discoverDrmPlanes dri total avail) :
    p.kind ≠ .cpuMatrixExtension ∧ p.isTriageReserved = false := by
  obtain ⟨e, -, rfl⟩ := List.mem_map.mp h
  refine ⟨?_, rfl⟩
  show (if (inspectDrmSysfs e total).2.1 then ComputePlaneKind.integratedUma
    else ComputePlaneKind.discreteGpu) ≠ .cpuMatrixExtension
  split <;> decide

/-! ### The planes before the assignment -/

/-- The planes that `discover` has collected before it assigns the enclave. -/
def Scan.planes (scan : Scan) : List ComputePlane :=
  (discoverNpuPlanes scan.accel scan.hailo ++
    discoverDrmPlanes scan.dri (readMeminfo scan.meminfo).1 (readMeminfo scan.meminfo).2 ++
    [buildCpuPlane (readMeminfo scan.meminfo).2]).map
      (quarantine (analyzeDirectories scan.pstore).quarantinedDrivers)

theorem planes_discover (scan : Scan) :
    (HardwareTopology.discover scan).planes = (assignTriageEnclave scan.planes).2 := rfl

theorem quarantinedDrivers_known {paths : List CrashDir} :
    ∀ d ∈ (analyzeDirectories paths).quarantinedDrivers, d ∈ knownDrivers :=
  fun _ hd => (List.mem_filter.mp hd).1

theorem mem_planes {scan : Scan} {p : ComputePlane} (h : p ∈ scan.planes) :
    ∃ q, p = quarantine (analyzeDirectories scan.pstore).quarantinedDrivers q ∧
      (q ∈ discoverNpuPlanes scan.accel scan.hailo ∨
        q ∈ discoverDrmPlanes scan.dri (readMeminfo scan.meminfo).1 (readMeminfo scan.meminfo).2 ∨
        q = buildCpuPlane (readMeminfo scan.meminfo).2) := by
  obtain ⟨q, hq, rfl⟩ := List.mem_map.mp h
  rw [List.mem_append, List.mem_append, List.mem_singleton, or_assoc] at hq
  exact ⟨q, rfl, hq⟩

theorem reserved_planes (scan : Scan) : ∀ p ∈ scan.planes, p.isTriageReserved = false := by
  intro p hp
  obtain ⟨q, rfl, hq⟩ := mem_planes hp
  rw [quarantine_reserved]
  rcases hq with hq | hq | rfl
  · exact (mem_discoverNpuPlanes hq).2
  · exact (mem_discoverDrmPlanes hq).2
  · rfl

theorem cpu_planes {scan : Scan} {p : ComputePlane} (hp : p ∈ scan.planes)
    (hk : p.kind = .cpuMatrixExtension) : p = buildCpuPlane (readMeminfo scan.meminfo).2 := by
  obtain ⟨q, rfl, hq⟩ := mem_planes hp
  rw [quarantine_kind] at hk
  rcases hq with hq | hq | rfl
  · rw [(mem_discoverNpuPlanes hq).1] at hk
    cases hk
  · exact absurd hk (mem_discoverDrmPlanes hq).1
  · exact quarantine_cpu quarantinedDrivers_known _

theorem buildCpuPlane_mem_planes (scan : Scan) :
    buildCpuPlane (readMeminfo scan.meminfo).2 ∈ scan.planes := by
  refine List.mem_map.mpr ⟨_, List.mem_append_right _ (List.mem_singleton_self _), ?_⟩
  exact quarantine_cpu quarantinedDrivers_known _

theorem discover_safeEnclave (scan : Scan) : SafeEnclave (HardwareTopology.discover scan).planes := by
  refine SafeEnclave.assign (reserved_planes scan) (fun p hp hk => ?_) ?_
  · rw [cpu_planes hp hk]
    rfl
  · exact ⟨_, buildCpuPlane_mem_planes scan, rfl⟩

end Inferenced
