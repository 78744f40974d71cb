import Inferenced.Lib.Text
import Inferenced.Topology

/-!
# Hardware discovery (topology/mod.rs, cpu.rs, npu.rs, drm.rs, pstore.rs, triage.rs)

Discovery is a function of what it reads: a `Scan` holds the contents of the
files and directories, `none` where the code finds nothing it can read. File
names are the strings of `to_string_lossy`; the order of the listings is that of
`read_dir`.
-/

namespace Inferenced
open Lib

/-- A file of a crash directory: its name and, if it can be opened, its
bytes. -/
structure CrashFile where
  name : String
  content : Option (List UInt8)

/-- A crash directory; no entries if it is missing or cannot be listed. -/
structure CrashDir where
  path : String
  entries : Option (List CrashFile)

/-- An entry of `/dev/dri` with the two sysfs attributes of its device. -/
structure DrmEntry where
  fname : String
  vendor : Option String
  memInfoVramTotal : Option String

/-- Everything that `discover` reads. -/
structure Scan where
  meminfo : Option String
  cpuinfo : Option String
  /-- Names in `/sys/devices/system/node`; `none` inside for a name that is not
  Unicode. -/
  nodes : Option (List (Option String))
  accel : Option (List String)
  hailo : Bool
  dri : Option (List DrmEntry)
  pstore : List CrashDir

def textLines (content : String) : List (List Char) := Text.lines '\n' '\r' content.toList

/-! ### cpu.rs -/

/-- `parse_kb` (cpu.rs:21-28). -/
def parseKb (rest : List Char) : UInt64 :=
  (((Text.splitWhitespace (Text.trim rest)).head?.bind Text.parseU64).map (· * 1024)).getD 0

/-- `read_meminfo_from` (cpu.rs:5-19): the last line of each kind counts. -/
def readMeminfo (meminfo : Option String) : UInt64 × UInt64 :=
  match meminfo with
  | none => (0, 0)
  | some content =>
    (textLines content).foldl (fun (acc : UInt64 × UInt64) line =>
      match Text.stripPrefix line "MemTotal:".toList with
      | some rest => (parseKb rest, acc.2)
      | none => match Text.stripPrefix line "MemAvailable:".toList with
        | some rest => (acc.1, parseKb rest)
        | none => acc) (0, 0)

/-- `count_numa_nodes` (cpu.rs:30-48). -/
def countNumaNodes (nodes : Option (List (Option String))) : ℕ :=
  match nodes with
  | none => 1
  | some entries =>
    let count := (entries.filter fun e => match e with
      | none => false
      | some s => Text.startsWith s.toList "node".toList && (s.toList.drop 4).all (·.isDigit)).length
    if count = 0 then 1 else count

/-- `count_cpu_cores` (cpu.rs:70-79). -/
def countCpuCores (cpuinfo : Option String) : ℕ :=
  match cpuinfo with
  | none => 1
  | some content =>
    let count := ((textLines content).filter fun l => Text.startsWith l "processor".toList).length
    if count = 0 then 1 else count

/-- Rounding of an integer to a 53 bit significand, ties to even: the value of
`n as f64`, and of a product of such values up to a power of two. -/
def roundF64 (n : ℕ) : ℕ :=
  if n < 2 ^ 53 then n
  else
    let unit := 2 ^ (n.log2 - 52)
    let q := n / unit
    let r := n % unit
    if unit < 2 * r ∨ (unit = 2 * r ∧ q % 2 = 1) then (q + 1) * unit else q * unit

/-- `(avail_ram as f64 * 0.75) as u64`. -/
def threeQuarters (n : UInt64) : UInt64 := UInt64.ofNat (roundF64 (3 * roundF64 n.toNat) / 4)

/-- `build_cpu_plane` (cpu.rs:81-105). -/
def buildCpuPlane (availRam : UInt64) : ComputePlane :=
  { id := "cpu-host"
    name := "Host CPU SIMD/Matrix Plane"
    kind := .cpuMatrixExtension
    totalMemoryBytes := availRam
    availableMemoryBytes := threeQuarters availRam
    isTriageReserved := false
    isQuarantined := false }

/-! ### npu.rs -/

/-- A plane for one entry of `/dev/accel`. -/
def accelPlane (name : String) : ComputePlane :=
  { id := "npu-" ++ name
    name := "Linux Compute Accelerator (" ++ name ++ ")"
    kind := .npuAccelerator
    totalMemoryBytes := 4 * 1024 * 1024 * 1024
    availableMemoryBytes := 4 * 1024 * 1024 * 1024
    isTriageReserved := false
    isQuarantined := false }

def hailoPlane : ComputePlane :=
  { id := "npu-hailo0"
    name := "Hailo AI Accelerator"
    kind := .npuAccelerator
    totalMemoryBytes := 2 * 1024 * 1024 * 1024
    availableMemoryBytes := 2 * 1024 * 1024 * 1024
    isTriageReserved := false
    isQuarantined := false }

/-- `discover_npu_planes` (npu.rs:5-53). -/
def discoverNpuPlanes (accel : Option (List String)) (hailo : Bool) : List ComputePlane :=
  ((accel.getD []).filter fun name => Text.startsWith name.toList "accel".toList).map accelPlane ++
    (if hailo then [hailoPlane] else [])

/-! ### drm.rs -/

/-- `inspect_drm_sysfs` (drm.rs:52-79): vendor name, integrated or not, and
memory. -/
def inspectDrmSysfs (e : DrmEntry) (totalSystemRam : UInt64) : String × Bool × UInt64 :=
  let vendor := (e.vendor.map fun v => Text.toLowercase (Text.trim v.toList)).getD []
  let vendorName :=
    if vendor = "0x10de".toList then "NVIDIA Corporation"
    else if vendor = "0x1002".toList then "Advanced Micro Devices [AMD/ATI]"
    else if vendor = "0x8086".toList then "Intel Corporation"
    else if vendor = "0x17cb".toList then "Qualcomm Technologies"
    else "Direct Rendering Accelerator"
  let isIntegrated := decide (vendor = "0x8086".toList) || vendor.isEmpty
  let umaSlice := max (totalSystemRam / 2) (1024 * 1024 * 1024)
  match e.memInfoVramTotal.bind fun s => Text.parseU64 (Text.trim s.toList) with
  | some vramBytes =>
    if 0 < vramBytes then (vendorName, false, vramBytes) else (vendorName, isIntegrated, umaSlice)
  | none => (vendorName, isIntegrated, umaSlice)

/-- A plane for one render node (drm.rs:20-47). -/
def drmPlane (totalRam availRam : UInt64) (e : DrmEntry) : ComputePlane :=
  let (vendorName, isIntegrated, vramTotal) := inspectDrmSysfs e totalRam
  { id := "drm-" ++ e.fname
    name := vendorName ++ " (" ++ e.fname ++ ")"
    kind := if isIntegrated then .integratedUma else .discreteGpu
    totalMemoryBytes := vramTotal
    availableMemoryBytes := if isIntegrated then min availRam vramTotal else vramTotal
    isTriageReserved := false
    isQuarantined := false }

/-- `discover_drm_planes` (drm.rs:5-50). -/
def discoverDrmPlanes (dri : Option (List DrmEntry)) (totalRam availRam : UInt64) :
    List ComputePlane :=
  ((dri.getD []).filter fun e => Text.startsWith e.fname.toList "renderD".toList).map
    (drmPlane totalRam availRam)

/-! ### pstore.rs -/

structure PstoreAudit where
  quarantinedDrivers : List String
  panicCount : ℕ
  hasUnarchivedPstore : Bool

/-- The driver that a line of a crash log names (pstore.rs:74-84). -/
def hungDriver (line : List Char) : Option String :=
  if Text.contains line "amdgpu_job_timedout".toList || Text.contains line "amdgpu: GPU reset".toList
  then some "amdgpu"
  else if Text.contains line "xe: GPU reset".toList || Text.contains line "xe 0000:".toList
  then some "xe"
  else if Text.contains line "drm/i915: GPU HANG".toList ||
    Text.contains line "i915: Resetting chip".toList
  then some "i915"
  else if Text.contains line "NVRM: Xid".toList || Text.contains line "fallen off the bus".toList
  then some "nvidia"
  else if Text.contains line "hailo: device reset failed".toList ||
    Text.contains line "hailo0: timeout".toList
  then some "hailo"
  else none

/-- The lines of a crash log up to the first that is not UTF-8. -/
def crashLines (content : List UInt8) : List (List Char) :=
  ((Text.lines 10 13 content).map fun l => (String.fromUTF8? ⟨l.toArray⟩).map (·.toList)).takeWhile
    (·.isSome) |>.reduceOption

/-- `scan_file_for_gpu_hangs` (pstore.rs:70-86): the drivers it inserts. -/
def scanFileForGpuHangs (content : List UInt8) : List String :=
  (crashLines content).filterMap hungDriver

def knownDrivers : List String := ["amdgpu", "hailo", "i915", "nvidia", "xe"]

/-- `file_name.starts_with("dmesg-") || file_name.starts_with("console-")`. -/
def CrashFile.isCrashLog (f : CrashFile) : Bool :=
  Text.startsWith f.name.toList "dmesg-".toList || Text.startsWith f.name.toList "console-".toList

/-- `analyze_directories` (pstore.rs:26-67). The set of drivers, collected and
sorted, is the sorted list of those inserted. -/
def analyzeDirectories (paths : List CrashDir) : PstoreAudit :=
  let logs := paths.map fun d => (d.path, (d.entries.getD []).filter (·.isCrashLog))
  let opened := logs.flatMap fun d => d.2.filterMap (·.content)
  { quarantinedDrivers := knownDrivers.filter fun d => (opened.flatMap scanFileForGpuHangs).contains d
    panicCount := opened.length
    hasUnarchivedPstore := logs.any fun d =>
      !d.2.isEmpty && Text.contains d.1.toList "/sys/fs/pstore".toList }

/-! ### triage.rs -/

def cpuTriageReservedBytes : UInt64 := 2 * 1024 * 1024 * 1024

def usableNpu (p : ComputePlane) : Bool := decide (p.kind = .npuAccelerator) && !p.isQuarantined

def usableCpu (p : ComputePlane) : Bool := decide (p.kind = .cpuMatrixExtension) && !p.isQuarantined

/-- The quota that triage sets aside on the CPU plane (triage.rs:20-27). -/
def setAsideQuota (cpu : ComputePlane) : ComputePlane :=
  let triageQuota := min cpuTriageReservedBytes (cpu.availableMemoryBytes / 4)
  { cpu with
    isTriageReserved := false
    availableMemoryBytes := saturatingSub cpu.availableMemoryBytes triageQuota
    totalMemoryBytes := saturatingSub cpu.totalMemoryBytes triageQuota }

/-- `assign_triage_enclave` (triage.rs:8-31): the id of the enclave and the
planes after the call. -/
def assignTriageEnclave (planes : List ComputePlane) : Option String × List ComputePlane :=
  match planes.find? usableNpu with
  | some npu => (some npu.id, modifyFirst usableNpu (fun p => { p with isTriageReserved := true }) planes)
  | none => match planes.find? usableCpu with
    | some cpu => (some cpu.id, modifyFirst usableCpu setAsideQuota planes)
    | none => (none, planes)

/-! ### mod.rs -/

/-- Quarantine of a plane whose id or name mentions a crashed driver
(mod.rs:34-41). -/
def quarantine (drivers : List String) (plane : ComputePlane) : ComputePlane :=
  if drivers.any fun d => Text.contains (Text.toLowercase plane.id.toList) d.toList ||
      Text.contains (Text.toLowercase plane.name.toList) d.toList
  then { plane with isQuarantined := true }
  else plane

/-- `HardwareTopology::discover` (mod.rs:14-53). -/
def HardwareTopology.discover (scan : Scan) : HardwareTopology :=
  let (totalRam, availRam) := readMeminfo scan.meminfo
  let planes := discoverNpuPlanes scan.accel scan.hailo ++
    discoverDrmPlanes scan.dri totalRam availRam ++ [buildCpuPlane availRam]
  let audit := analyzeDirectories scan.pstore
  { planes := (assignTriageEnclave (planes.map (quarantine audit.quarantinedDrivers))).2
    totalSystemRamBytes := totalRam
    availableSystemRamBytes := availRam
    cpuCoresTotal := countCpuCores scan.cpuinfo
    numaNodes := countNumaNodes scan.nodes }

end Inferenced
