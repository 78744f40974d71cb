import Inferenced.Lib.KeyedMap
import Inferenced.Lib.Select

/-!
# Model registry (crates/inferenced-core/src/model.rs)

Paths are strings and timestamps integers; the registry compares timestamps
only.
-/

namespace Inferenced
open Lib

inductive ModelPlacementState where
  | dormant
  | staged
  | resident
  | pinnedTriage
  deriving DecidableEq, Repr

structure ModelDescriptor where
  id : String
  format : String
  path : String
  estimatedMemoryBytes : UInt64
  placement : ModelPlacementState
  residentPlaneId : Option String
  lastAccessed : ℤ
  accessCount : UInt64
  preferredPlane : Option String
  deriving DecidableEq

structure ModelRegistry where
  models : KeyedMap String ModelDescriptor ModelDescriptor.id

namespace ModelRegistry

def new : ModelRegistry := ⟨KeyedMap.empty⟩

def get (r : ModelRegistry) (id : String) : Option ModelDescriptor := r.models.get? id

/-- Order of `(access_count, last_accessed)`. -/
def olderThan (a b : ModelDescriptor) : Bool :=
  decide (a.accessCount < b.accessCount) ||
    (decide (a.accessCount = b.accessCount) && decide (a.lastAccessed < b.lastAccessed))

/-- The model that `register` evicts: the least used one that is not pinned
(model.rs:45-51). -/
def evictionVictim (r : ModelRegistry) (order : IterOrder ModelDescriptor) : Option ModelDescriptor :=
  minBy olderThan
    ((order.order r.models.entries).filter fun m => decide (m.placement ≠ .pinnedTriage))

def remove (r : ModelRegistry) (id : String) : Option ModelDescriptor × ModelRegistry :=
  (r.models.get? id, ⟨r.models.retain fun m => decide (m.id ≠ id)⟩)

def register (r : ModelRegistry) (order : IterOrder ModelDescriptor) (descriptor : ModelDescriptor) :
    ModelRegistry :=
  let evicted :=
    if (r.models.get? descriptor.id).isNone && decide (256 ≤ r.models.len) then
      match r.evictionVictim order with
      | some m => (r.remove m.id).2
      | none => r
    else r
  ⟨evicted.models.insert descriptor⟩

def pinForTriage (r : ModelRegistry) (id planeId : String) : Bool × ModelRegistry :=
  if (r.models.get? id).isSome then
    (true, ⟨r.models.modify id
      (fun m => { m with placement := .pinnedTriage, residentPlaneId := some planeId })
      fun _ => rfl⟩)
  else (false, r)

end ModelRegistry

end Inferenced
