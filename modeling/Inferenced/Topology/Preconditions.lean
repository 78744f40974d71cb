import Inferenced.Topology.Inventory

/-!
# What discovery hands to the arbiter

The planes before the enclave is assigned are those of the NPUs, of the render
nodes and of the CPU, in this order, and none of them is reserved. The
assignment (topology/triage.rs:8-31) then changes one of them: the first usable
NPU, or else the CPU plane.
-/

namespace Inferenced
open Lib

def isCpu (p : ComputePlane) : Bool := decide (p.kind = .cpuMatrixExtension)

/-! ### The planes before the assignment -/

theorem filter_isCpu_planes (scan : Scan) :
    scan.planes.filter isCpu = [buildCpuPlane (readMeminfo scan.meminfo).2] := by
  have hkind : ∀ p, isCpu (quarantine (analyzeDirectories scan.pstore).quarantinedDrivers p) = isCpu p := by
    intro p
    rw [isCpu, quarantine_kind, isCpu]
  have hnpu : (discoverNpuPlanes scan.accel scan.hailo).filter isCpu = [] := by
    refine List.filter_eq_nil_iff.mpr fun p hp => ?_
    simp [isCpu, (mem_discoverNpuPlanes hp).1]
  have hdrm : (discoverDrmPlanes scan.dri (readMeminfo scan.meminfo).1
      (readMeminfo scan.meminfo).2).filter isCpu = [] := by
    refine List.filter_eq_nil_iff.mpr fun p hp => ?_
    simp [isCpu, (mem_discoverDrmPlanes hp).1]
  rw [Scan.planes, List.filter_map, Function.comp_def]
  simp only [hkind]
  rw [List.filter_append, List.filter_append, hnpu, hdrm]
  show [quarantine _ (buildCpuPlane _)] = _
  rw [quarantine_cpu quarantinedDrivers_known]

/-! ### The assignment -/

theorem usableNpu_assignTriageEnclave (planes : List ComputePlane) :
    (∃ p ∈ (assignTriageEnclave planes).2, usableNpu p = true) ↔ ∃ p ∈ planes, usableNpu p = true := by
  have hmap : (assignTriageEnclave planes).2.map usableNpu = planes.map usableNpu :=
    map_assignTriageEnclave usableNpu (fun _ => rfl) (fun _ => rfl) planes
  simp only [← List.mem_map, hmap]

theorem filter_reserved_assignTriageEnclave {planes : List ComputePlane}
    (hfree : ∀ p ∈ planes, p.isTriageReserved = false) :
    (assignTriageEnclave planes).2.filter (·.isTriageReserved) =
      ((planes.find? usableNpu).map fun p => { p with isTriageReserved := true }).toList := by
  unfold assignTriageEnclave
  cases hnpu : planes.find? usableNpu with
  | some npu =>
    dsimp only
    rw [filter_modifyFirst_of_new hfree fun _ => rfl, hnpu]
  | none =>
    have hnone : planes.filter (·.isTriageReserved) = [] :=
      List.filter_eq_nil_iff.mpr fun p hp => by simp [hfree p hp]
    dsimp only
    split
    · -- the update of the CPU plane clears the mark
      refine List.filter_eq_nil_iff.mpr fun p hp => ?_
      rcases mem_modifyFirst hp with hp | ⟨q, -, -, rfl⟩
      · simp [hfree p hp]
      · exact Bool.false_ne_true
    · exact hnone

theorem filter_isCpu_npu {planes : List ComputePlane} {npu : ComputePlane}
    (h : planes.find? usableNpu = some npu) :
    (assignTriageEnclave planes).2.filter isCpu = planes.filter isCpu := by
  unfold assignTriageEnclave
  rw [h]
  dsimp only
  refine filter_modifyFirst_of_not (fun p hp => ?_) (fun p => ?_) planes
  · have hkind : p.kind = .npuAccelerator := by
      rw [usableNpu, Bool.and_eq_true] at hp
      exact of_decide_eq_true hp.1
    simp [isCpu, hkind]
  · rfl

theorem filter_isCpu_cpu {planes : List ComputePlane} {cpu : ComputePlane}
    (hnpu : planes.find? usableNpu = none) (hone : planes.filter isCpu = [cpu])
    (husable : usableCpu cpu = true) :
    (assignTriageEnclave planes).2.filter isCpu = [setAsideQuota cpu] := by
  have hcpu : ∀ p, usableCpu p = true → isCpu p = true := by
    intro p hp
    rw [usableCpu, Bool.and_eq_true] at hp
    exact hp.1
  have hfind : ∃ p, planes.find? usableCpu = some p := by
    have hmem : cpu ∈ planes.filter isCpu := by
      rw [hone]
      exact List.mem_singleton_self _
    exact Option.isSome_iff_exists.mp
      (List.find?_isSome.mpr ⟨cpu, (List.mem_filter.mp hmem).1, husable⟩)
  obtain ⟨p, hp⟩ := hfind
  unfold assignTriageEnclave
  rw [hnpu, hp]
  dsimp only
  rw [filter_modifyFirst_of_match (f := setAsideQuota) hcpu (fun _ => rfl), hone, modifyFirst, if_pos husable]

/-- `after` is `before` with the same quota off its total and its availability:
2 GiB, or a quarter of what was available if that is less. -/
structure QuotaTaken (before after : ComputePlane) (quota : ℕ) : Prop where
  available : after.availableMemoryBytes.toNat + quota = before.availableMemoryBytes.toNat
  total : after.totalMemoryBytes.toNat + quota = before.totalMemoryBytes.toNat
  amount : quota = min (2 * 1024 * 1024 * 1024) (before.availableMemoryBytes.toNat / 4)

theorem quotaTaken_setAsideQuota {cpu : ComputePlane} (h : Covered cpu) :
    ∃ quota, QuotaTaken cpu (setAsideQuota cpu) quota := by
  have hcov : cpu.availableMemoryBytes.toNat ≤ cpu.totalMemoryBytes.toNat :=
    UInt64.le_iff_toNat_le.mp h
  have hdiv : (cpu.availableMemoryBytes / 4).toNat = cpu.availableMemoryBytes.toNat / 4 :=
    UInt64.toNat_div ..
  have hres : cpuTriageReservedBytes.toNat = 2 * 1024 * 1024 * 1024 := by decide
  have hquota : (min cpuTriageReservedBytes (cpu.availableMemoryBytes / 4)).toNat =
      min (2 * 1024 * 1024 * 1024) (cpu.availableMemoryBytes.toNat / 4) := by
    rw [← hdiv, ← hres]
    show (if _ ≤ _ then cpuTriageReservedBytes else cpu.availableMemoryBytes / 4).toNat = _
    split
    · rename_i hle
      rw [Nat.min_eq_left (UInt64.le_iff_toNat_le.mp hle)]
    · rename_i hnle
      rw [UInt64.le_iff_toNat_le] at hnle
      rw [Nat.min_eq_right (Nat.le_of_not_le hnle)]
  refine ⟨(min cpuTriageReservedBytes (cpu.availableMemoryBytes / 4)).toNat, ?_, ?_, hquota⟩
  · simp only [setAsideQuota, toNat_saturatingSub, hquota]
    omega
  · simp only [setAsideQuota, toNat_saturatingSub, hquota]
    omega

/-! ### The topology -/

/-- What the arbiter is started with; `cpu` is the CPU plane before the
assignment. -/
structure Established (t : HardwareTopology) (cpu : ComputePlane) : Prop where
  wellFormed : t.WellFormed
  oneCpu : ∃ p, t.planes.filter isCpu = [p] ∧ p.isQuarantined = false
  oneReserved : (t.planes.filter (·.isTriageReserved)).length ≤ 1
  reservedNpu : ∀ p ∈ t.planes, p.isTriageReserved = true → usableNpu p = true
  reserved_iff : (∃ p ∈ t.planes, p.isTriageReserved = true) ↔ ∃ p ∈ t.planes, usableNpu p = true
  quota : (∀ p ∈ t.planes, usableNpu p = false) →
    ∃ p quota, t.planes.filter isCpu = [p] ∧ QuotaTaken cpu p quota

/-- Every scan of distinct device names establishes the preconditions of the
arbiter. -/
theorem discover_established (scan : Scan) (h : scan.Distinct) :
    Established (HardwareTopology.discover scan) (buildCpuPlane (readMeminfo scan.meminfo).2) := by
  have hcpu := filter_isCpu_planes scan
  have hreserved := filter_reserved_assignTriageEnclave (reserved_planes scan)
  have husable : ∀ p ∈ (HardwareTopology.discover scan).planes, p.isTriageReserved = true →
      usableNpu p = true := by
    intro p hp hr
    obtain ⟨hk, hq⟩ := (discover_safeEnclave scan).reserved p hp hr
    rw [usableNpu, hk, hq]
    rfl
  refine ⟨discover_wellFormed scan h, ?_, ?_, husable, ⟨?_, ?_⟩, ?_⟩
  · rw [planes_discover]
    cases hnpu : scan.planes.find? usableNpu with
    | some npu => exact ⟨_, (filter_isCpu_npu hnpu).trans hcpu, rfl⟩
    | none => exact ⟨_, filter_isCpu_cpu hnpu hcpu rfl, rfl⟩
  · rw [planes_discover, hreserved]
    cases scan.planes.find? usableNpu <;> simp
  · rintro ⟨p, hp, hr⟩
    exact ⟨p, hp, husable p hp hr⟩
  · intro hex
    rw [planes_discover, usableNpu_assignTriageEnclave] at hex
    obtain ⟨npu, hnpu⟩ := Option.isSome_iff_exists.mp (List.find?_isSome.mpr hex)
    have hmem : { npu with isTriageReserved := true } ∈
        (assignTriageEnclave scan.planes).2.filter (·.isTriageReserved) := by
      rw [hreserved, hnpu]
      exact List.mem_singleton_self _
    obtain ⟨hmem, hr⟩ := List.mem_filter.mp hmem
    exact ⟨_, hmem, hr⟩
  · intro hnone
    have hnpu : scan.planes.find? usableNpu = none := by
      rw [List.find?_eq_none]
      intro p hp hp'
      obtain ⟨q, hq, hq'⟩ := (usableNpu_assignTriageEnclave scan.planes).mpr ⟨p, hp, hp'⟩
      rw [hnone q hq] at hq'
      cases hq'
    have hcovered : Covered (buildCpuPlane (readMeminfo scan.meminfo).2) := threeQuarters_le _
    obtain ⟨quota, hquota⟩ := quotaTaken_setAsideQuota hcovered
    exact ⟨_, quota, filter_isCpu_cpu hnpu hcpu rfl, hquota⟩

/-- The only NPU is named by a crash record, so that the triage quota falls to
the CPU plane. -/
def laptopScan : Scan :=
  { meminfo := some "MemTotal: 16000000 kB\nMemAvailable: 12000000 kB\n"
    cpuinfo := none
    nodes := none
    accel := none
    hailo := true
    dri := some [⟨"renderD128", some "0x8086\n", none⟩, ⟨"renderD129", some "0x1002\n", some "8589934592\n"⟩]
    pstore := [⟨"/sys/fs/pstore", some [⟨"dmesg-efi-1", some ("hailo0: timeout".toList.map Char.toUInt8)⟩]⟩] }

theorem laptopScan_established :
    laptopScan.Distinct ∧
      Established (HardwareTopology.discover laptopScan)
        (buildCpuPlane (readMeminfo laptopScan.meminfo).2) ∧
      ∃ p, (HardwareTopology.discover laptopScan).planes.filter isCpu = [p] ∧
        QuotaTaken (buildCpuPlane (readMeminfo laptopScan.meminfo).2) p (2 * 1024 * 1024 * 1024) := by
  have hdistinct : laptopScan.Distinct := ⟨by decide, by decide⟩
  have hestablished := discover_established laptopScan hdistinct
  have hnone : ∀ p ∈ (HardwareTopology.discover laptopScan).planes, usableNpu p = false := by
    decide +kernel
  have havailable : (buildCpuPlane (readMeminfo laptopScan.meminfo).2).availableMemoryBytes.toNat =
      9216000000 := by decide +kernel
  obtain ⟨p, quota, hp, htaken⟩ := hestablished.quota hnone
  have hquota : quota = 2 * 1024 * 1024 * 1024 := by
    rw [htaken.amount, havailable]
    exact Nat.min_eq_left (by decide)
  exact ⟨hdistinct, hestablished, p, hp, hquota ▸ htaken⟩

end Inferenced
