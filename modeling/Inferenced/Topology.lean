import Mathlib.Algebra.Group.Nat.Defs
import Inferenced.Lib.FirstMatch

/-!
# Compute planes (topology/types.rs)

Fields of a plane that only describe the device (path, NUMA node, formats,
features) are not modelled. Availability is a `u64`: debits saturate
(`saturating_sub`), credits are a plain `+` (wrapping in the release profile)
followed by `min(total)`.
-/

namespace Inferenced
open Lib

inductive ComputePlaneKind where
  | discreteGpu
  | integratedUma
  | npuAccelerator
  | cpuMatrixExtension
  deriving DecidableEq, Repr

structure ComputePlane where
  id : String
  name : String
  kind : ComputePlaneKind
  totalMemoryBytes : UInt64
  availableMemoryBytes : UInt64
  isTriageReserved : Bool
  isQuarantined : Bool
  deriving DecidableEq

structure HardwareTopology where
  planes : List ComputePlane
  totalSystemRamBytes : UInt64
  availableSystemRamBytes : UInt64
  cpuCoresTotal : ℕ
  numaNodes : ℕ
  deriving DecidableEq

/-- `u64::saturating_sub`. -/
def saturatingSub (a b : UInt64) : UInt64 := if a < b then 0 else a - b

theorem toNat_saturatingSub (a b : UInt64) : (saturatingSub a b).toNat = a.toNat - b.toNat := by
  unfold saturatingSub
  split
  · rename_i h
    rw [UInt64.lt_iff_toNat_lt] at h
    simp only [UInt64.toNat_zero]
    omega
  · rename_i h
    rw [UInt64.lt_iff_toNat_lt] at h
    exact UInt64.toNat_sub_of_le a b (UInt64.le_iff_toNat_le.mpr (by omega))

/-- `(a + b).min(total)` on `u64`. -/
def cappedAdd (a b total : UInt64) : UInt64 := min (a + b) total

theorem toNat_cappedAdd (a b total : UInt64) :
    (cappedAdd a b total).toNat = min ((a.toNat + b.toNat) % 2 ^ 64) total.toNat := by
  rw [← UInt64.toNat_add]
  show (if a + b ≤ total then a + b else total).toNat = _
  simp only [UInt64.le_iff_toNat_le]
  split <;> omega

def ComputePlane.debit (p : ComputePlane) (bytes : UInt64) : ComputePlane :=
  { p with availableMemoryBytes := saturatingSub p.availableMemoryBytes bytes }

def ComputePlane.credit (p : ComputePlane) (bytes : UInt64) : ComputePlane :=
  { p with availableMemoryBytes := cappedAdd p.availableMemoryBytes bytes p.totalMemoryBytes }

namespace HardwareTopology

/-- `planes.iter().find(|p| p.id == id)`. -/
def find? (t : HardwareTopology) (id : String) : Option ComputePlane :=
  t.planes.find? fun p => decide (p.id = id)

/-- `planes.iter().find(|p| p.kind == CpuMatrixExtension)`. -/
def cpu? (t : HardwareTopology) : Option ComputePlane :=
  t.planes.find? fun p => decide (p.kind = .cpuMatrixExtension)

/-- `iter_mut().find(|p| p.id == id)` and an update of the plane found. -/
def modifyPlane (t : HardwareTopology) (id : String) (f : ComputePlane → ComputePlane) :
    HardwareTopology :=
  { t with planes := modifyFirst (fun p => decide (p.id = id)) f t.planes }

/-- `iter_mut().find(|p| p.kind == CpuMatrixExtension)` and an update of the
plane found. -/
def modifyCpu (t : HardwareTopology) (f : ComputePlane → ComputePlane) : HardwareTopology :=
  { t with planes := modifyFirst (fun p => decide (p.kind = .cpuMatrixExtension)) f t.planes }

/-- `find(id).map(|p| p.kind == IntegratedUma).unwrap_or(false)`. -/
def isUma (t : HardwareTopology) (id : String) : Bool :=
  ((t.find? id).map fun p => decide (p.kind = .integratedUma)).getD false

/-- `planes[idx].available_memory_bytes`. -/
def availableAt (t : HardwareTopology) (idx : ℕ) : UInt64 :=
  (t.planes[idx]?).elim 0 (·.availableMemoryBytes)

/-- `planes[idx].id`. -/
def planeIdAt (t : HardwareTopology) (idx : ℕ) : String := (t.planes[idx]?).elim "" (·.id)

end HardwareTopology

end Inferenced
