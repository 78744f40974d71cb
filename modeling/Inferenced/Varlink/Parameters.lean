import Inferenced.Varlink.Handlers

/-!
# Parameters of AcquireLease and RegisterModel

The interface (varlink/service.rs:78-102) declares the type of every parameter.
`handle_acquire_lease` (leases.rs:10-79) and `handle_register_model`
(models.rs:27-62) look for an `InvalidParameter` only in a request without
parameters: a field that is missing or of another type takes a default, and a
pid that is too large loses its upper bits. Every request with parameters is
served as one that conforms.
-/

namespace Inferenced.Varlink
open Lib Arbiter

/-! ### The interface -/

/-- A parameter declared `?string`. -/
def OptionalString (params : Json) (key : String) : Prop :=
  params.get key = none ∨ params.get key = some .null ∨ ∃ v, params.get key = some (.string v)

structure AcquireConforms (params : Json) : Prop where
  priority : ∃ p : LeasePriority, params.get "priority" = some (.string (priorityName p))
  memoryBytes : ∃ n, params.get "memory_bytes" = some (.posInt n)
  plane : OptionalString params "plane"
  unit : OptionalString params "unit"
  pid : params.get "pid" = none ∨ params.get "pid" = some .null ∨
    ∃ n : UInt64, params.get "pid" = some (.posInt n) ∧ n.toNat < 2 ^ 32

structure RegisterConforms (params : Json) : Prop where
  id : ∃ v, params.get "id" = some (.string v)
  format : ∃ v, params.get "format" = some (.string v)
  path : ∃ v, params.get "path" = some (.string v)
  estimatedBytes : ∃ n, params.get "estimated_bytes" = some (.posInt n)

/-- The reply is `InvalidParameter` and the arbiter is as before. -/
def Rejects (s after : ArbiterState) (reply : Option VarlinkReply) : Prop :=
  (∃ r, reply = some r ∧ r.error = some "org.varlink.service.InvalidParameter") ∧ after = s

/-! ### What the handlers make of the parameters -/

/-- The parameters with all defaults filled in (leases.rs:26-50). -/
def normalizeAcquire (params : Json) : Json :=
  .object
    [("priority", .string (priorityName
       (priorityOf (((params.get "priority").bind Json.asStr).getD "Interactive")))),
     ("memory_bytes", .posInt (((params.get "memory_bytes").bind Json.asU64).getD (1024 * 1024 * 1024))),
     ("plane", .ofOption .string ((params.get "plane").bind Json.asStr)),
     ("unit", .ofOption .string ((params.get "unit").bind Json.asStr)),
     ("pid", .ofOption (fun pid : UInt32 => .posInt pid.toUInt64)
       (((params.get "pid").bind Json.asU64).map (·.toUInt32)))]

/-- The parameters with all defaults filled in (models.rs:38-49). -/
def normalizeRegister (p : Json) : Json :=
  .object
    [("id", .string (((p.get "id").bind Json.asStr).getD "")),
     ("format", .string (((p.get "format").bind Json.asStr).getD "GGUF")),
     ("path", .string (((p.get "path").bind Json.asStr).getD "")),
     ("estimated_bytes", .posInt (((p.get "estimated_bytes").bind Json.asU64).getD 0))]

section
variable (params : Json)

theorem get_normalizeAcquire :
    (normalizeAcquire params).get "priority" = some (.string (priorityName
      (priorityOf (((params.get "priority").bind Json.asStr).getD "Interactive")))) ∧
    (normalizeAcquire params).get "memory_bytes" =
      some (.posInt (((params.get "memory_bytes").bind Json.asU64).getD (1024 * 1024 * 1024))) ∧
    (normalizeAcquire params).get "plane" =
      some (.ofOption .string ((params.get "plane").bind Json.asStr)) ∧
    (normalizeAcquire params).get "unit" =
      some (.ofOption .string ((params.get "unit").bind Json.asStr)) ∧
    (normalizeAcquire params).get "pid" =
      some (.ofOption (fun pid : UInt32 => .posInt pid.toUInt64)
        (((params.get "pid").bind Json.asU64).map (·.toUInt32))) :=
  ⟨rfl, rfl, rfl, rfl, rfl⟩

theorem priorityOf_priorityName (p : LeasePriority) : priorityOf (priorityName p) = p := by
  cases p <;> rfl

theorem asStr_ofOption (v : Option String) : (Json.ofOption .string v).asStr = v := by
  cases v <;> rfl

theorem optionalString_ofOption {params : Json} {key : String} {v : Option String}
    (h : params.get key = some (.ofOption .string v)) : OptionalString params key := by
  cases v with
  | none => exact Or.inr (Or.inl h)
  | some v => exact Or.inr (Or.inr ⟨v, h⟩)

theorem conforms_normalizeAcquire : AcquireConforms (normalizeAcquire params) := by
  obtain ⟨hprio, hmem, hplane, hunit, hpid⟩ := get_normalizeAcquire params
  refine ⟨⟨_, hprio⟩, ⟨_, hmem⟩, optionalString_ofOption hplane, optionalString_ofOption hunit, ?_⟩
  rw [hpid]
  cases ((params.get "pid").bind Json.asU64).map (·.toUInt32) with
  | none => exact Or.inr (Or.inl rfl)
  | some pid => exact Or.inr (Or.inr ⟨pid.toUInt64, rfl, by rw [UInt32.toNat_toUInt64]; exact pid.toNat_lt⟩)

theorem acquireRequest_normalize (peerInfo : Option PeerInfo) :
    acquireRequest (normalizeAcquire params) peerInfo = acquireRequest params peerInfo := by
  obtain ⟨hprio, hmem, hplane, hunit, hpid⟩ := get_normalizeAcquire params
  have hprio' : priorityOf ((((normalizeAcquire params).get "priority").bind Json.asStr).getD
      "Interactive") = priorityOf (((params.get "priority").bind Json.asStr).getD "Interactive") := by
    rw [hprio]
    exact priorityOf_priorityName _
  have hmem' : (((normalizeAcquire params).get "memory_bytes").bind Json.asU64).getD (1024 * 1024 * 1024) =
      ((params.get "memory_bytes").bind Json.asU64).getD (1024 * 1024 * 1024) := by
    rw [hmem]
    rfl
  have hplane' : ((normalizeAcquire params).get "plane").bind Json.asStr =
      (params.get "plane").bind Json.asStr := by
    rw [hplane]
    exact asStr_ofOption _
  have hunit' : ((normalizeAcquire params).get "unit").bind Json.asStr =
      (params.get "unit").bind Json.asStr := by
    rw [hunit]
    exact asStr_ofOption _
  have hpid' : (((normalizeAcquire params).get "pid").bind Json.asU64).map (·.toUInt32) =
      ((params.get "pid").bind Json.asU64).map (·.toUInt32) := by
    rw [hpid]
    cases ((params.get "pid").bind Json.asU64).map (·.toUInt32) with
    | none => rfl
    | some pid => exact congrArg some (UInt32.toUInt32_toUInt64 pid)
  unfold acquireRequest
  rw [hprio', hmem', hplane', hunit', hpid']

theorem conforms_normalizeRegister : RegisterConforms (normalizeRegister params) :=
  ⟨⟨_, rfl⟩, ⟨_, rfl⟩, ⟨_, rfl⟩, ⟨_, rfl⟩⟩

theorem registeredModel_normalize (now : ℤ) :
    registeredModel (normalizeRegister params) now = registeredModel params now := rfl

end

/-! ### The replies -/

variable (s : ArbiterState)

theorem acquire_not_rejected (params : Json) (activeLeases : List LeaseId)
    (peerInfo : Option PeerInfo) (env : HandlerEnv) :
    ¬ Rejects s (handleAcquireLease (some params) s activeLeases peerInfo env).arbiter
      (handleAcquireLease (some params) s activeLeases peerInfo env).reply := by
  rintro ⟨⟨r, hreply, herror⟩, -⟩
  unfold handleAcquireLease at hreply
  dsimp only at hreply
  split at hreply
  · cases hreply
    cases herror
  · cases hreply
    exact absurd (Option.some.inj herror) (by decide)

theorem register_not_rejected (p : Json) (env : HandlerEnv) :
    ¬ Rejects s (handleRegisterModel (some p) s env).1 (some (handleRegisterModel (some p) s env).2) := by
  rintro ⟨⟨r, hreply, herror⟩, -⟩
  cases hreply
  cases herror

/-- Malformed parameters: no request with parameters is ever rejected as
`InvalidParameter`, whether or not it conforms to the interface. Each is served
as one that does conform. -/
theorem malformed_parameters_never_rejected (params : Json) (activeLeases : List LeaseId)
    (peerInfo : Option PeerInfo) (env : HandlerEnv) :
    (¬ AcquireConforms params →
      ¬ Rejects s (handleAcquireLease (some params) s activeLeases peerInfo env).arbiter
        (handleAcquireLease (some params) s activeLeases peerInfo env).reply) ∧
    (¬ RegisterConforms params →
      ¬ Rejects s (handleRegisterModel (some params) s env).1
        (some (handleRegisterModel (some params) s env).2)) ∧
    (∃ params', AcquireConforms params' ∧
      handleAcquireLease (some params) s activeLeases peerInfo env =
        handleAcquireLease (some params') s activeLeases peerInfo env) ∧
    ∃ params', RegisterConforms params' ∧
      handleRegisterModel (some params) s env = handleRegisterModel (some params') s env := by
  refine ⟨fun _ => acquire_not_rejected s params activeLeases peerInfo env,
    fun _ => register_not_rejected s params env,
    ⟨normalizeAcquire params, conforms_normalizeAcquire params, ?_⟩,
    ⟨normalizeRegister params, conforms_normalizeRegister params, ?_⟩⟩
  · simp only [handleAcquireLease, acquireRequest_normalize]
  · simp only [handleRegisterModel, registeredModel_normalize]

def malformedAcquire : Json :=
  .object [("priority", .string "Urgent"), ("memory_bytes", .string "4096"), ("pid", .posInt 4294967297)]

theorem malformedAcquire_served :
    ¬ AcquireConforms malformedAcquire ∧
      acquireRequest malformedAcquire none =
        { priority := .interactive, requiredBytes := 1024 * 1024 * 1024, preferredPlane := none
          clientUnit := none, clientPid := some 1 } ∧
      ¬ Rejects (Arbiter.new (sampleTopology [samplePlane "gpu0" .discreteGpu 8589934592 8589934592]))
        (handleAcquireLease (some malformedAcquire)
          (Arbiter.new (sampleTopology [samplePlane "gpu0" .discreteGpu 8589934592 8589934592])) [] none
          { sampleEnv 0 with modelOrder := .stored, now := 0 }).arbiter
        (handleAcquireLease (some malformedAcquire)
          (Arbiter.new (sampleTopology [samplePlane "gpu0" .discreteGpu 8589934592 8589934592])) [] none
          { sampleEnv 0 with modelOrder := .stored, now := 0 }).reply := by
  refine ⟨fun h => ?_, rfl, acquire_not_rejected _ _ _ _ _⟩
  obtain ⟨n, hn⟩ := h.memoryBytes
  cases hn

end Inferenced.Varlink
