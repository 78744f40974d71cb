import Inferenced.Varlink.Protocol

/-!
# The service interface (varlink/service.rs)

The two inference interfaces have one description, under two names.
-/

namespace Inferenced.Varlink

def unlines (lines : List String) : String := String.join (lines.map (· ++ "\n"))

def orgVarlinkServiceIdl : String :=
  unlines [
    "interface org.varlink.service", "", "method GetInfo() -> (", "  vendor: string,",
    "  product: string,", "  version: string,", "  url: string,", "  interfaces: []string", ")",
    "", "method GetInterfaceDescription(interface: string) -> (description: string)", "",
    "error InterfaceNotFound (interface: string)", "error MethodNotFound (method: string)",
    "error MethodNotImplemented (method: string)", "error InvalidParameter (parameter: string)"]

def inferenceIdl (interface : String) : String :=
  unlines (("interface " ++ interface) :: [
    "", "type ComputePlane (", "  id: string,", "  name: string,", "  kind: string,",
    "  total_memory: int,", "  available_memory: int,", "  is_triage_reserved: bool", ")", "",
    "type LeaseInfo (", "  id: string,", "  plane_id: string,", "  allocated_memory: int,",
    "  priority: string,", "  state: string,", "  client_unit: ?string,", "  client_pid: ?int",
    ")", "", "type ModelInfo (", "  id: string,", "  format: string,", "  path: string,",
    "  estimated_memory: int,", "  placement: string", ")", "", "method GetStatus() -> (",
    "  status: string,", "  version: string,", "  daemon: string,", "  planes_count: int,",
    "  leases_count: int,", "  pressure: string", ")", "", "method ListPlanes() -> (",
    "  planes: []ComputePlane", ")", "", "method GetTopology() -> (", "  planes: []ComputePlane,",
    "  total_ram: int,", "  available_ram: int,", "  cpu_cores: int", ")", "",
    "method GetPressure() -> (", "  level: string,", "  cpu_some: float,",
    "  memory_some: float,", "  io_some: float", ")", "", "method AcquireLease(",
    "  priority: string,", "  memory_bytes: int,", "  plane: ?string,", "  unit: ?string,",
    "  pid: ?int", ") -> (", "  lease_id: string,", "  plane_id: string,",
    "  allocated_memory: int", ")", "", "method ReleaseLease(lease_id: string) -> ()",
    "method Yield(lease_id: string) -> ()", "method Freeze(lease_id: string) -> ()",
    "method Thaw(lease_id: string) -> ()", "method ListLeases() -> (leases: []LeaseInfo)",
    "method ListModels() -> (models: []ModelInfo)", "", "method RegisterModel(", "  id: string,",
    "  format: string,", "  path: string,", "  estimated_bytes: int", ") -> ()", "",
    "method EvictModel(model: string) -> ()",
    "method PinModel(model: string, plane: string) -> ()", "", "method StreamInference(",
    "  model: string,", "  prompt: string", ") -> (", "  chunk: string", ")", "",
    "error MethodNotFound (method: string)", "error InvalidParameter (parameter: string)",
    "error ResourceExhaustion (plane: string, requested: int, available: int)",
    "error PlaneNotFound (plane: string)", "error LeaseNotFound (lease_id: string)",
    "error ModelNotFound (model: string)"])

def ioSyntropInference1Idl : String := inferenceIdl "io.syntrop.Inference1"

def ioSystemdInferenced1Idl : String := inferenceIdl "io.systemd.inferenced1"

def handleGetInfo : VarlinkReply :=
  .ok (.object
    [("vendor", .string "Syntropd Project"),
     ("product", .string "inferenced"),
     ("version", .string "0.3.0"),
     ("url", .string "https://github.com/syntropd/inferenced"),
     ("interfaces", .array [.string "org.varlink.service", .string "io.syntrop.Inference1",
       .string "io.systemd.inferenced1"])])

def handleGetInterfaceDescription (params : Option Json) : VarlinkReply :=
  match (params.bind (·.get "interface")).bind Json.asStr with
  | some "org.varlink.service" => .ok (.object [("description", .string orgVarlinkServiceIdl)])
  | some "io.syntrop.Inference1" => .ok (.object [("description", .string ioSyntropInference1Idl)])
  | some "io.systemd.inferenced1" => .ok (.object [("description", .string ioSystemdInferenced1Idl)])
  | some unknown =>
    .fail "org.varlink.service.InterfaceNotFound" (.object [("interface", .string unknown)])
  | none => invalidParameter "interface"

end Inferenced.Varlink
