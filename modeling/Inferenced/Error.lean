import Mathlib.Init

/-!
# Errors and pressure readings (error.rs, psi.rs of inferenced-core)

Only the error variants that the arbiter returns are listed. The `f32`
readings of the pressure files are never computed with: a reading is the two
texts the daemon prints for it.
-/

namespace Inferenced

inductive Error where
  | planeNotFound (message : String)
  | resourceExhaustion (plane : String) (requestedBytes availableBytes : UInt64)
  | busSaturation (message : String)
  | leaseNotFound (message : String)
  deriving DecidableEq

/-- The `#[error("..")]` texts. -/
def Error.toString : Error → String
  | .planeNotFound m => "Compute plane not found: " ++ m
  | .resourceExhaustion plane requested available =>
    "Resource exhaustion: insufficient memory on plane " ++ plane ++ " (requested " ++
      ToString.toString requested.toNat ++ " bytes, available " ++
      ToString.toString available.toNat ++ " bytes)"
  | .busSaturation m => "Memory bus saturation / Pressure stall critical: " ++ m
  | .leaseNotFound m => "Lease not found: " ++ m

inductive PressureLevel where
  | normal
  | elevated
  | critical
  deriving DecidableEq, Repr

/-- An `f32` reading: its `{:.2}` text and its text as a JSON number. -/
structure Reading where
  fixed2 : String
  json : String

structure PressureMetrics where
  memorySomeAvg10 : Reading
  memoryFullAvg10 : Reading
  cpuSomeAvg10 : Reading
  ioSomeAvg10 : Reading
  level : PressureLevel

end Inferenced
