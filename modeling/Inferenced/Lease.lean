import Mathlib.Data.Nat.Digits.Defs
import Inferenced.Lib.KeyedMap

/-!
# Compute leases (crates/inferenced-core/src/lease.rs)

The timestamps of a lease are not modelled: no function of the daemon reads
them back.
-/

namespace Inferenced

/-- `LeaseId(Uuid)`. -/
structure LeaseId where
  uuid : BitVec 128
  deriving DecidableEq

/-- `Display`: the hyphenated lower-case form of the uuid. -/
def LeaseId.toString (id : LeaseId) : String :=
  let digits := (List.range 32).map fun i => Nat.digitChar (id.uuid.toNat / 16 ^ (31 - i) % 16)
  String.ofList (digits.take 8 ++ '-' :: (digits.drop 8).take 4 ++ '-' :: (digits.drop 12).take 4 ++
    '-' :: (digits.drop 16).take 4 ++ '-' :: digits.drop 20)

inductive LeasePriority where
  | batch
  | interactive
  | emergencyTriage
  deriving DecidableEq, Repr

/-- The discriminants of the enumeration (lease.rs:21-28); the derived order
is theirs. -/
def LeasePriority.weight : LeasePriority → ℕ
  | .batch => 0
  | .interactive => 10
  | .emergencyTriage => 100

instance : LT LeasePriority := ⟨fun a b => a.weight < b.weight⟩

instance (a b : LeasePriority) : Decidable (a < b) := inferInstanceAs (Decidable (_ < _))

theorem LeasePriority.lt_def (a b : LeasePriority) : a < b ↔ a.weight < b.weight := Iff.rfl

theorem LeasePriority.emergency_not_lt (p : LeasePriority) : ¬ LeasePriority.emergencyTriage < p := by
  rw [lt_def]
  cases p <;> decide

theorem LeasePriority.lt_emergency {p : LeasePriority} (h : p ≠ .emergencyTriage) :
    p < .emergencyTriage := by
  rw [lt_def]
  cases p
  · decide
  · decide
  · exact absurd rfl h

inductive LeaseState where
  | active
  | preempting
  | frozen
  | preempted
  | revoked
  | expired
  deriving DecidableEq, Repr

structure ComputeLease where
  id : LeaseId
  clientPid : Option UInt32
  clientUnit : Option String
  planeId : String
  allocatedMemoryBytes : UInt64
  priority : LeasePriority
  state : LeaseState
  deriving DecidableEq

/-- `ComputeLease::new`; the fresh id is drawn by the caller. -/
def ComputeLease.new (id : LeaseId) (planeId : String) (allocatedMemoryBytes : UInt64)
    (priority : LeasePriority) (clientUnit : Option String) (clientPid : Option UInt32) :
    ComputeLease :=
  { id, clientPid, clientUnit, planeId, allocatedMemoryBytes, priority, state := .active }

/-- The lease holds its memory. -/
def LeaseState.isActive : LeaseState → Bool
  | .active | .preempting | .frozen => true
  | .preempted | .revoked | .expired => false

/-- The lease holds its memory or may get it back by a thaw. -/
def LeaseState.isLive (st : LeaseState) : Bool := st.isActive || st == .preempted

def ComputeLease.isActive (l : ComputeLease) : Bool := l.state.isActive

def ComputeLease.isLive (l : ComputeLease) : Bool := l.state.isLive

def ComputeLease.withState (l : ComputeLease) (st : LeaseState) : ComputeLease := { l with state := st }

section
variable (l : ComputeLease) (st : LeaseState)

@[simp] theorem ComputeLease.withState_state : (l.withState st).state = st := rfl
@[simp] theorem ComputeLease.withState_isActive : (l.withState st).isActive = st.isActive := rfl
@[simp] theorem ComputeLease.withState_isLive : (l.withState st).isLive = st.isLive := rfl
@[simp] theorem ComputeLease.withState_planeId : (l.withState st).planeId = l.planeId := rfl
@[simp] theorem ComputeLease.withState_bytes :
    (l.withState st).allocatedMemoryBytes = l.allocatedMemoryBytes := rfl

end

/-- `HashMap<LeaseId, ComputeLease>`: every lease is stored under its own id. -/
abbrev LeaseMap := Lib.KeyedMap LeaseId ComputeLease ComputeLease.id

/-- Write of the `state` field through `leases.get_mut(&id)`. -/
def LeaseMap.setState (m : LeaseMap) (id : LeaseId) (st : LeaseState) : LeaseMap :=
  m.modify id (·.withState st) fun _ => rfl

structure LeaseRequest where
  priority : LeasePriority
  requiredBytes : UInt64
  preferredPlane : Option String
  clientUnit : Option String
  clientPid : Option UInt32

end Inferenced
