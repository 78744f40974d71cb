import Inferenced.Arbiter.Placement
import Inferenced.Topology.Enclave

/-!
# Which render nodes a crash record quarantines

Discovery looks for the driver of a crash record in the id and the name of a
plane (topology/mod.rs:33-41). The name of a render node is made of the
vendor's name and the node's file name: `nvidia` is a part of the vendor's name,
`amdgpu`, `i915` and `xe` are not. So an AMD or Intel device is reached only if
its file name happens to mention a crashed driver.
-/

namespace Inferenced
open Lib

def DrmEntry.vendorId (e : DrmEntry) : List Char :=
  (e.vendor.map fun v => Text.toLowercase (Text.trim v.toList)).getD []

/-- The kernel drivers of a device, by its vendor. -/
def DrmEntry.kernelDrivers (e : DrmEntry) : List String :=
  if e.vendorId = "0x10de".toList then ["nvidia"]
  else if e.vendorId = "0x1002".toList then ["amdgpu"]
  else if e.vendorId = "0x8086".toList then ["i915", "xe"]
  else []

namespace Scan

/-- The entries of `/dev/dri` that become planes. -/
def renderNodes (scan : Scan) : List DrmEntry :=
  (scan.dri.getD []).filter fun e => Text.startsWith e.fname.toList "renderD".toList

/-- The index of the plane of render node `k`. -/
def drmIdx (scan : Scan) (k : ℕ) : ℕ := (discoverNpuPlanes scan.accel scan.hailo).length + k

def crashedDrivers (scan : Scan) : List String := (analyzeDirectories scan.pstore).quarantinedDrivers

end Scan

/-- Every device of a crashed driver is marked, and automatic placement grants
nothing on it, whatever the lease operations after discovery. -/
def QuarantineReaches (scan : Scan) : Prop :=
  ∀ k e, scan.renderNodes[k]? = some e → ∀ d ∈ e.kernelDrivers, d ∈ scan.crashedDrivers →
    (∃ p, (HardwareTopology.discover scan).planes[scan.drmIdx k]? = some p ∧ p.isQuarantined = true) ∧
    ∀ s env req, s.topology.layout = (HardwareTopology.discover scan).layout →
      req.preferredPlane = none → req.priority ≠ .emergencyTriage →
      ¬Arbiter.Admitted s env req (scan.drmIdx k)

def DrmEntry.Mentions (e : DrmEntry) (drivers : List String) : Prop :=
  ∃ d ∈ drivers, d.toList <:+: Text.toLowercase e.fname.toList

/-! ### The plane of a render node -/

theorem assignTriageEnclave_other {planes : List ComputePlane} {i : ℕ} {p : ComputePlane}
    (h : planes[i]? = some p) (hnpu : p.kind ≠ .npuAccelerator) (hcpu : p.kind ≠ .cpuMatrixExtension) :
    (assignTriageEnclave planes).2[i]? = some p := by
  have hn : usableNpu p = false := by simp [usableNpu, hnpu]
  have hc : usableCpu p = false := by simp [usableCpu, hcpu]
  unfold assignTriageEnclave
  split
  · exact getElem?_modifyFirst_of_not _ h hn
  · split
    · exact getElem?_modifyFirst_of_not _ h hc
    · exact h

theorem drmPlane_kind (totalRam availRam : UInt64) (e : DrmEntry) :
    (drmPlane totalRam availRam e).kind = .integratedUma ∨
      (drmPlane totalRam availRam e).kind = .discreteGpu := by
  unfold drmPlane
  dsimp only
  split
  · exact Or.inl rfl
  · exact Or.inr rfl

theorem getElem?_discover {scan : Scan} {k : ℕ} {e : DrmEntry} (h : scan.renderNodes[k]? = some e) :
    (HardwareTopology.discover scan).planes[scan.drmIdx k]? =
      some (quarantine scan.crashedDrivers
        (drmPlane (readMeminfo scan.meminfo).1 (readMeminfo scan.meminfo).2 e)) := by
  rw [planes_discover, Scan.planes]
  generalize (readMeminfo scan.meminfo).1 = totalRam
  generalize (readMeminfo scan.meminfo).2 = availRam
  have hkind := drmPlane_kind totalRam availRam e
  have hdrm : (discoverDrmPlanes scan.dri totalRam availRam)[k]? =
      some (drmPlane totalRam availRam e) := by
    unfold discoverDrmPlanes
    rw [List.getElem?_map]
    exact congrArg (Option.map _) h
  have hlt := (List.getElem?_eq_some_iff.mp hdrm).1
  refine assignTriageEnclave_other ?_ ?_ ?_
  · rw [List.getElem?_map, List.append_assoc, Scan.drmIdx,
      List.getElem?_append_right (Nat.le_add_right ..), Nat.add_sub_cancel_left,
      List.getElem?_append_left hlt, hdrm]
    rfl
  · rw [quarantine_kind]
    rcases hkind with h | h <;> rw [h] <;> decide
  · rw [quarantine_kind]
    rcases hkind with h | h <;> rw [h] <;> decide

/-! ### The name of a render node -/

/-- The vendor's name that `inspect_drm_sysfs` gives a device. -/
def DrmEntry.vendorName (e : DrmEntry) : String :=
  if e.vendorId = "0x10de".toList then "NVIDIA Corporation"
  else if e.vendorId = "0x1002".toList then "Advanced Micro Devices [AMD/ATI]"
  else if e.vendorId = "0x8086".toList then "Intel Corporation"
  else if e.vendorId = "0x17cb".toList then "Qualcomm Technologies"
  else "Direct Rendering Accelerator"

theorem drmPlane_name (totalRam availRam : UInt64) (e : DrmEntry) :
    (drmPlane totalRam availRam e).name = e.vendorName ++ " (" ++ e.fname ++ ")" := by
  have hname : (inspectDrmSysfs e totalRam).1 = e.vendorName := by
    unfold inspectDrmSysfs
    dsimp only
    split
    · split <;> rfl
    · rfl
  unfold drmPlane
  dsimp only
  rw [hname]

theorem quarantine_isQuarantined {drivers : List String} {p : ComputePlane}
    (hp : p.isQuarantined = false) : (quarantine drivers p).isQuarantined = true ↔
      ∃ d ∈ drivers, d.toList <:+: Text.toLowercase p.id.toList ∨
        d.toList <:+: Text.toLowercase p.name.toList := by
  have hiff : (drivers.any fun d => Text.contains (Text.toLowercase p.id.toList) d.toList ||
      Text.contains (Text.toLowercase p.name.toList) d.toList) = true ↔
      ∃ d ∈ drivers, d.toList <:+: Text.toLowercase p.id.toList ∨
        d.toList <:+: Text.toLowercase p.name.toList := by
    simp only [List.any_eq_true, Bool.or_eq_true, Text.contains, decide_eq_true_eq]
  rw [← hiff]
  unfold quarantine
  split
  · rename_i h
    exact iff_of_true rfl h
  · rename_i h
    rw [hp]
    exact iff_of_false (by decide) h

/-- No driver's name has one of the characters that join the parts of an id or a
name, and none is in `drm`. -/
theorem knownDrivers_plain : (knownDrivers.all fun d => decide ('-' ∉ d.toList ∧ ' ' ∉ d.toList ∧
    '(' ∉ d.toList ∧ ')' ∉ d.toList ∧ ¬d.toList <:+: "drm".toList ∧ d.toList ≠ [])) = true := by
  decide

theorem infix_drmPlane {d : String} (hd : d ∈ knownDrivers) (totalRam availRam : UInt64)
    (e : DrmEntry) :
    (d.toList <:+: Text.toLowercase (drmPlane totalRam availRam e).id.toList ∨
      d.toList <:+: Text.toLowercase (drmPlane totalRam availRam e).name.toList) ↔
    d.toList <:+: Text.toLowercase e.vendorName.toList ∨
      d.toList <:+: Text.toLowercase e.fname.toList := by
  obtain ⟨hdash, hspace, hopen, hclose, hdrm, hne⟩ :=
    of_decide_eq_true (List.all_eq_true.mp knownDrivers_plain d hd)
  have hid : Text.toLowercase (drmPlane totalRam availRam e).id.toList =
      "drm".toList ++ '-' :: Text.toLowercase e.fname.toList := by
    show Text.toLowercase ("drm-" ++ e.fname).toList = _
    rw [String.toList_append, Text.toLowercase_append]
    rfl
  have hname : Text.toLowercase (drmPlane totalRam availRam e).name.toList =
      Text.toLowercase e.vendorName.toList ++ ' ' :: ([] ++ '(' :: (Text.toLowercase e.fname.toList ++
        ')' :: [])) := by
    rw [drmPlane_name]
    simp only [String.toList_append, Text.toLowercase_append, List.append_assoc]
    rfl
  have hnil : ¬d.toList <:+: [] := fun h => hne (List.infix_nil.mp h)
  have hinId : d.toList <:+: Text.toLowercase (drmPlane totalRam availRam e).id.toList ↔
      d.toList <:+: Text.toLowercase e.fname.toList := by
    rw [hid, Text.infix_append_cons hdash, or_iff_right hdrm]
  have hinName : d.toList <:+: Text.toLowercase (drmPlane totalRam availRam e).name.toList ↔
      d.toList <:+: Text.toLowercase e.vendorName.toList ∨
        d.toList <:+: Text.toLowercase e.fname.toList := by
    rw [hname, Text.infix_append_cons hspace, Text.infix_append_cons hopen,
      Text.infix_append_cons hclose, or_iff_right hnil, or_iff_left hnil]
  rw [hinId, hinName]
  exact or_iff_right_of_imp Or.inr

theorem quarantined_drmPlane_iff (scan : Scan) (totalRam availRam : UInt64) (e : DrmEntry) :
    (quarantine scan.crashedDrivers (drmPlane totalRam availRam e)).isQuarantined = true ↔
      (∃ d ∈ scan.crashedDrivers, d.toList <:+: Text.toLowercase e.vendorName.toList) ∨
        e.Mentions scan.crashedDrivers := by
  rw [quarantine_isQuarantined rfl]
  constructor
  · rintro ⟨d, hd, h⟩
    rcases (infix_drmPlane (quarantinedDrivers_known d hd) totalRam availRam e).mp h with h | h
    · exact Or.inl ⟨d, hd, h⟩
    · exact Or.inr ⟨d, hd, h⟩
  · rintro (⟨d, hd, h⟩ | ⟨d, hd, h⟩)
    · exact ⟨d, hd, (infix_drmPlane (quarantinedDrivers_known d hd) totalRam availRam e).mpr (.inl h)⟩
    · exact ⟨d, hd, (infix_drmPlane (quarantinedDrivers_known d hd) totalRam availRam e).mpr (.inr h)⟩

theorem not_infix_vendorName {e : DrmEntry}
    (h : e.vendorId = "0x1002".toList ∨ e.vendorId = "0x8086".toList) {d : String}
    (hd : d ∈ knownDrivers) : ¬d.toList <:+: Text.toLowercase e.vendorName.toList := by
  have hno : (knownDrivers.all fun d => decide (
      ¬d.toList <:+: Text.toLowercase "Advanced Micro Devices [AMD/ATI]".toList ∧
      ¬d.toList <:+: Text.toLowercase "Intel Corporation".toList)) = true := by decide
  obtain ⟨hamd, hintel⟩ := of_decide_eq_true (List.all_eq_true.mp hno d hd)
  rcases h with h | h
  · have hname : e.vendorName = "Advanced Micro Devices [AMD/ATI]" := by
      rw [DrmEntry.vendorName, h]
      rfl
    rw [hname]
    exact hamd
  · have hname : e.vendorName = "Intel Corporation" := by
      rw [DrmEntry.vendorName, h]
      rfl
    rw [hname]
    exact hintel

theorem infix_vendorName_nvidia {e : DrmEntry} (h : e.vendorId = "0x10de".toList) :
    "nvidia".toList <:+: Text.toLowercase e.vendorName.toList := by
  have hname : e.vendorName = "NVIDIA Corporation" := by
    rw [DrmEntry.vendorName, h]
    rfl
  rw [hname]
  decide

/-! ### What a crash record reaches -/

theorem kernelDrivers_cases {e : DrmEntry} {d : String} (h : d ∈ e.kernelDrivers) :
    (e.vendorId = "0x10de".toList ∧ d = "nvidia") ∨
      (e.vendorId = "0x1002".toList ∧ d = "amdgpu") ∨
      (e.vendorId = "0x8086".toList ∧ (d = "i915" ∨ d = "xe")) := by
  unfold DrmEntry.kernelDrivers at h
  split at h
  · rename_i hv
    exact Or.inl ⟨hv, List.mem_singleton.mp h⟩
  · split at h
    · rename_i hv
      exact Or.inr (Or.inl ⟨hv, List.mem_singleton.mp h⟩)
    · split at h
      · rename_i hv
        exact Or.inr (Or.inr ⟨hv, by simpa using h⟩)
      · cases h

/-- An AMD or Intel device whose driver has crashed. -/
def DrmEntry.Overlooked (e : DrmEntry) (drivers : List String) : Prop :=
  (e.vendorId = "0x1002".toList ∧ "amdgpu" ∈ drivers) ∨
    (e.vendorId = "0x8086".toList ∧ ("i915" ∈ drivers ∨ "xe" ∈ drivers))

theorem DrmEntry.Overlooked.driver {e : DrmEntry} {drivers : List String} (h : e.Overlooked drivers) :
    ∃ d ∈ e.kernelDrivers, d ∈ drivers := by
  rcases h with ⟨hv, hd⟩ | ⟨hv, hd | hd⟩
  · refine ⟨_, ?_, hd⟩
    rw [DrmEntry.kernelDrivers, hv]
    decide
  · refine ⟨_, ?_, hd⟩
    rw [DrmEntry.kernelDrivers, hv]
    decide
  · refine ⟨_, ?_, hd⟩
    rw [DrmEntry.kernelDrivers, hv]
    decide

/-- A quarantined plane stays so under the lease operations, and automatic
placement grants nothing on it. -/
theorem not_admitted_of_quarantined {t : HardwareTopology} {i : ℕ} {p : ComputePlane}
    (hp : t.planes[i]? = some p) (hq : p.isQuarantined = true) {s : ArbiterState} {env : CallEnv}
    {req : LeaseRequest} (hlay : s.topology.layout = t.layout) (hpref : req.preferredPlane = none)
    (hprio : req.priority ≠ .emergencyTriage) : ¬Arbiter.Admitted s env req i := by
  intro hadm
  obtain ⟨q, hmost⟩ := Arbiter.targetPlaneIdx_auto hpref hprio hadm.target
  have hview : q.layout = p.layout := by
    have h := congrArg (·[i]?) hlay
    simp only [HardwareTopology.layout, List.getElem?_map, hmost.plane, hp, Option.map_some] at h
    exact Option.some.inj h
  have hsame : q.layout.isQuarantined = p.layout.isQuarantined := by rw [hview]
  exact absurd (hmost.eligible.1.symm.trans (hsame.trans hq)) (by decide)

/-- A crash record reaches every device of the driver it names if and only if
each AMD or Intel device of a crashed driver has a file name that mentions a
crashed driver. -/
theorem crash_quarantine_reaches_iff (scan : Scan) :
    QuarantineReaches scan ↔ ∀ e ∈ scan.renderNodes, e.Overlooked scan.crashedDrivers →
      e.Mentions scan.crashedDrivers := by
  constructor
  · intro h e he hover
    obtain ⟨k, hk⟩ := List.getElem?_of_mem he
    obtain ⟨d, hd, hcrash⟩ := hover.driver
    obtain ⟨⟨p, hp, hquar⟩, -⟩ := h k e hk d hd hcrash
    rw [getElem?_discover hk] at hp
    obtain rfl := Option.some.inj hp
    rcases (quarantined_drmPlane_iff scan _ _ e).mp hquar with ⟨d', hd', hin⟩ | hm
    · refine absurd hin (not_infix_vendorName ?_ (quarantinedDrivers_known d' hd'))
      exact hover.imp And.left And.left
    · exact hm
  · intro h k e hk d hd hcrash
    have hquar : (quarantine scan.crashedDrivers (drmPlane (readMeminfo scan.meminfo).1
        (readMeminfo scan.meminfo).2 e)).isQuarantined = true := by
      rw [quarantined_drmPlane_iff]
      rcases kernelDrivers_cases hd with ⟨hv, rfl⟩ | ⟨hv, rfl⟩ | ⟨hv, hd⟩
      · exact Or.inl ⟨_, hcrash, infix_vendorName_nvidia hv⟩
      · exact Or.inr (h e (List.mem_of_getElem? hk) (Or.inl ⟨hv, hcrash⟩))
      · refine Or.inr (h e (List.mem_of_getElem? hk) (Or.inr ⟨hv, ?_⟩))
        rcases hd with rfl | rfl
        · exact Or.inl hcrash
        · exact Or.inr hcrash
    exact ⟨⟨_, getElem?_discover hk, hquar⟩, fun s env req hlay hpref hprio =>
      not_admitted_of_quarantined (getElem?_discover hk) hquar hlay hpref hprio⟩

/-- An AMD card, and the log of a ring timeout of its driver. -/
def amdCrashScan : Scan :=
  { meminfo := none, cpuinfo := none, nodes := none, accel := none, hailo := false
    dri := some [{ fname := "renderD128", vendor := some "0x1002\n"
                   memInfoVramTotal := some "8589934592\n" }]
    pstore := [{ path := "/sys/fs/pstore"
                 entries := some [{ name := "dmesg-efi-101"
                                    content := some
                                      ("[drm:amdgpu_job_timedout] *ERROR* ring gfx_0.0.0 timeout\n".toList.map
                                        fun c => c.toNat.toUInt8) }] }] }

theorem amd_crash_not_quarantined : ¬QuarantineReaches amdCrashScan := by
  intro h
  have hnode : amdCrashScan.renderNodes[0]? = some
      { fname := "renderD128", vendor := some "0x1002\n", memInfoVramTotal := some "8589934592\n" } := by
    rfl
  have hcrash : "amdgpu" ∈ amdCrashScan.crashedDrivers := by decide +kernel
  obtain ⟨⟨p, hp, hquar⟩, -⟩ := h 0 _ hnode "amdgpu" (by decide +kernel) hcrash
  have hplane : ((HardwareTopology.discover amdCrashScan).planes[amdCrashScan.drmIdx 0]?.map
      (·.isQuarantined)) = some false := by decide +kernel
  rw [hp] at hplane
  exact absurd (hquar.symm.trans (Option.some.inj hplane)) (by decide)

end Inferenced
