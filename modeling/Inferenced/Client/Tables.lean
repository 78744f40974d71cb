import Inferenced.Lib.Binary
import Inferenced.Varlink.Handlers

/-!
# Tables of inferenctl (format.rs, cmd/system.rs, cmd/models.rs)

The cells of the tables that the commands print, without colours and borders.
The rows are read off a JSON value: the reply of the daemon, or the topology
that the command has discovered itself.
-/

namespace Inferenced.Client
open Lib Lib.Binary Varlink

/-! ### format.rs -/

/-- `bytes as f64`. -/
def asF64 (bytes : UInt64) : ℕ := roundBits 53 bytes.toNat 1

/-- `format_bytes` (format.rs:35-53). -/
def formatBytes (bytes : UInt64) : String :=
  let kb := 1024
  let mb := kb * 1024
  let gb := mb * 1024
  let tb := gb * 1024
  let b := asF64 bytes
  if tb ≤ b then fixed 2 b tb ++ " TB"
  else if gb ≤ b then fixed 1 b gb ++ " GB"
  else if mb ≤ b then fixed 0 b mb ++ " MB"
  else if kb ≤ b then fixed 0 b kb ++ " KB"
  else ToString.toString bytes.toNat ++ " B"

example : [512, 1024, 1024 * 1024 * 50, 1024 * 1024 * 1024 * 4].map formatBytes =
    ["512 B", "1 KB", "50 MB", "4.0 GB"] := by decide +kernel

structure PlaneRow where
  id : String
  kind : String
  total : String
  available : String
  triage : String
  deriving DecidableEq

structure LeaseRow where
  id : String
  plane : String
  memory : String
  priority : String
  state : String
  unit : String
  deriving DecidableEq

structure ModelRow where
  id : String
  format : String
  path : String
  estimated : String
  placement : String
  deriving DecidableEq

/-! ### Rows of a JSON value -/

def asArray : Json → Option (List Json)
  | .array elems => some elems
  | _ => none

/-- `v.get(key).and_then(|v| v.as_str()).unwrap_or(default)`. -/
def strOr (v : Json) (key default : String) : String := ((v.get key).bind Json.asStr).getD default

/-- `v.get(key).and_then(|v| v.as_u64()).unwrap_or(0)`. -/
def u64Or (v : Json) (key : String) : UInt64 := ((v.get key).bind Json.asU64).getD 0

def triageCell (reserved : Bool) : String := if reserved then "● RESERVED (sentry)" else "shared"

/-- `print_planes_table` (system.rs:60-78). -/
def planeRow (p : Json) : PlaneRow :=
  { id := strOr p "id" ""
    kind := strOr p "kind" ""
    total := formatBytes ((((p.get "total_memory").or (p.get "total_memory_bytes")).bind Json.asU64).getD 0)
    available := formatBytes
      ((((p.get "available_memory").or (p.get "available_memory_bytes")).bind Json.asU64).getD 0)
    triage := triageCell (((p.get "is_triage_reserved").bind Json.asBool).getD false) }

def planeRows (topo : Json) : Option (List PlaneRow) :=
  ((topo.get "planes").bind asArray).map (·.map planeRow)

/-- `run_leases` (system.rs:113-140); without a list, or with an empty one, the
command says that there are none. -/
def leaseRow (l : Json) : LeaseRow :=
  { id := strOr l "id" ""
    plane := strOr l "plane_id" ""
    memory := formatBytes (u64Or l "allocated_memory")
    priority := strOr l "priority" ""
    state := strOr l "state" ""
    unit := strOr l "client_unit" "-" }

def leaseRows (val : Json) : Option (List LeaseRow) :=
  ((val.get "leases").bind asArray).map (·.map leaseRow)

/-- `run_models` (models.rs:22-59). -/
def modelRow (m : Json) : ModelRow :=
  { id := strOr m "id" ""
    format := strOr m "format" ""
    path := strOr m "path" ""
    estimated := formatBytes (u64Or m "estimated_memory")
    placement := strOr m "placement" "" }

def modelRows (val : Json) : Option (List ModelRow) :=
  ((val.get "models").bind asArray).map (·.map modelRow)

/-! ### What the rows are of -/

def rowOfPlane (p : ComputePlane) : PlaneRow :=
  { id := p.id
    kind := kindName p.kind
    total := formatBytes p.totalMemoryBytes
    available := formatBytes p.availableMemoryBytes
    triage := triageCell p.isTriageReserved }

def rowOfLease (l : ComputeLease) : LeaseRow :=
  { id := l.id.toString
    plane := l.planeId
    memory := formatBytes l.allocatedMemoryBytes
    priority := priorityName l.priority
    state := stateName l.state
    unit := l.clientUnit.getD "-" }

def rowOfModel (m : ModelDescriptor) : ModelRow :=
  { id := m.id
    format := m.format
    path := m.path
    estimated := formatBytes m.estimatedMemoryBytes
    placement := placementName m.placement }

/-- `serde_json::to_value` of a topology, as far as the tables read it: its keys
are not those of the daemon's replies. -/
def topologyJson (T : HardwareTopology) : Json :=
  .object
    [("planes", .array (T.planes.map fun p => .object
      [("id", .string p.id),
       ("name", .string p.name),
       ("kind", .string (kindName p.kind)),
       ("total_memory_bytes", .posInt p.totalMemoryBytes),
       ("available_memory_bytes", .posInt p.availableMemoryBytes),
       ("is_triage_reserved", .bool p.isTriageReserved),
       ("is_quarantined", .bool p.isQuarantined)])),
     ("total_system_ram_bytes", .posInt T.totalSystemRamBytes),
     ("available_system_ram_bytes", .posInt T.availableSystemRamBytes),
     ("cpu_cores_total", .ofNat T.cpuCoresTotal),
     ("numa_nodes", .ofNat T.numaNodes)]

theorem planeRows_topologyJson (T : HardwareTopology) :
    planeRows (topologyJson T) = some (T.planes.map rowOfPlane) := by
  show some ((T.planes.map _).map planeRow) = _
  rw [List.map_map]
  rfl

end Inferenced.Client
