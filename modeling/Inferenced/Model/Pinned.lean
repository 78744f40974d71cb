import Inferenced.Model.Registry
import Inferenced.Varlink.Handlers

/-!
# Pinned models (model.rs:43-83, varlink/models.rs:27-62)

A pin is promised from a call of `pin_for_triage` that returns true until the
model is removed. An eviction never takes a pinned model, but a registration
under the id of one replaces it, and the descriptors that
`handle_register_model` builds are dormant.
-/

namespace Inferenced.ModelRegistry
open Lib

/-- A registry with the ids whose pin is promised. -/
structure Tracked where
  registry : ModelRegistry
  promised : List String

namespace Tracked

def start : Tracked := ⟨new, []⟩

def track (s : Tracked) (c : Call) : Tracked :=
  { registry := step s.registry c
    promised := match c with
      | .register _ _ => s.promised
      | .pinForTriage id planeId =>
        if (s.registry.pinForTriage id planeId).1 then id :: s.promised else s.promised
      | .remove id => s.promised.filter fun p => decide (p ≠ id) }

theorem registry_exec (s : Tracked) (calls : List Call) :
    (Runs.exec track s calls).registry = Runs.exec step s.registry calls := by
  induction calls generalizing s with
  | nil => rfl
  | cons c calls ih => exact ih (track s c)

end Tracked

/-- The model is there, pinned and on a plane. -/
def IsPinned (r : ModelRegistry) (id : String) : Prop :=
  ∃ m, r.get id = some m ∧ m.placement = .pinnedTriage ∧ m.residentPlaneId.isSome

def PinsKept (s : Tracked) : Prop := ∀ id ∈ s.promised, s.registry.IsPinned id

/-- A registration under a promised id is one of a pinned model on a plane. -/
def RespectsPins (s : Tracked) : Call → Prop
  | .register _ d => d.id ∈ s.promised → d.placement = .pinnedTriage ∧ d.residentPlaneId.isSome
  | .pinForTriage _ _ => True
  | .remove _ => True

/-! ### One call -/

theorem isPinned_congr {r r' : ModelRegistry} {id : String} (h : r'.get id = r.get id) :
    r'.IsPinned id ↔ r.IsPinned id := by
  simp only [IsPinned, h]

theorem get_register_self (r : ModelRegistry) (order : IterOrder ModelDescriptor)
    (d : ModelDescriptor) : (r.register order d).get d.id = some d := by
  obtain ⟨lost, hlost⟩ := register_evicts r order d
  rw [hlost.others, if_pos rfl]

theorem isPinned_register_other {r : ModelRegistry} (order : IterOrder ModelDescriptor)
    {d : ModelDescriptor} {id : String} (hid : id ≠ d.id) (h : r.IsPinned id) :
    (r.register order d).IsPinned id := by
  obtain ⟨lost, hlost⟩ := register_evicts r order d
  have ⟨m, hm, hpin, _⟩ := h
  have hkept : some id ≠ lost.map (·.id) := by
    intro hsome
    obtain ⟨v, rfl, rfl⟩ := Option.map_eq_some_iff.mp hsome.symm
    have hleast := hlost.leastUsed v rfl
    have hv : r.get v.id = some v := KeyedMap.get?_of_mem hleast.1
    rw [hv] at hm
    cases hm
    exact hleast.2.1 hpin
  refine (isPinned_congr ?_).mpr h
  rw [hlost.others, if_neg hid, if_neg hkept]

theorem pinsKept_register_iff {s : Tracked} (hkept : PinsKept s) (order : IterOrder ModelDescriptor)
    (d : ModelDescriptor) :
    PinsKept (s.track (.register order d)) ↔ RespectsPins s (.register order d) := by
  have hself : (s.track (.register order d)).registry.get d.id = some d :=
    get_register_self s.registry order d
  constructor
  · intro h hmem
    obtain ⟨m, hm, hpin⟩ := h d.id hmem
    rw [hself] at hm
    cases hm
    exact hpin
  · intro hd id hid
    by_cases heq : id = d.id
    · rw [heq] at hid ⊢
      exact ⟨d, hself, hd hid⟩
    · exact isPinned_register_other order heq (hkept id hid)

theorem isPinned_pinForTriage {r : ModelRegistry} {id : String} (pinnedId planeId : String)
    (h : r.IsPinned id) : (r.pinForTriage pinnedId planeId).2.IsPinned id := by
  obtain ⟨m, hm, hpin⟩ := h
  rw [IsPinned, get_pinForTriage, hm]
  split
  · exact ⟨_, rfl, rfl, rfl⟩
  · exact ⟨m, rfl, hpin⟩

theorem isPinned_pinForTriage_self {r : ModelRegistry} {id planeId : String}
    (h : (r.pinForTriage id planeId).1 = true) : (r.pinForTriage id planeId).2.IsPinned id := by
  have hsome : (r.models.get? id).isSome = true := by
    by_contra hnone
    rw [pinForTriage, if_neg hnone] at h
    cases h
  obtain ⟨m, hm⟩ := Option.isSome_iff_exists.mp hsome
  rw [IsPinned, get_pinForTriage, if_pos rfl, get, hm]
  exact ⟨_, rfl, rfl, rfl⟩

theorem pinsKept_pinForTriage {s : Tracked} (hkept : PinsKept s) (id planeId : String) :
    PinsKept (s.track (.pinForTriage id planeId)) := by
  intro p hp
  simp only [Tracked.track] at hp
  split at hp
  · rename_i htrue
    rcases List.mem_cons.mp hp with rfl | hp
    · exact isPinned_pinForTriage_self htrue
    · exact isPinned_pinForTriage id planeId (hkept p hp)
  · exact isPinned_pinForTriage id planeId (hkept p hp)

theorem pinsKept_remove {s : Tracked} (hkept : PinsKept s) (id : String) :
    PinsKept (s.track (.remove id)) := by
  intro p hp
  obtain ⟨hp, hne⟩ := List.mem_filter.mp hp
  refine (isPinned_congr ?_).mpr (hkept p hp)
  exact (get_remove s.registry id p).trans (if_neg (of_decide_eq_true hne))

theorem pinsKept_track_iff {s : Tracked} (hkept : PinsKept s) (c : Call) :
    PinsKept (s.track c) ↔ RespectsPins s c := by
  cases c with
  | register order d => exact pinsKept_register_iff hkept order d
  | pinForTriage id planeId => exact iff_of_true (pinsKept_pinForTriage hkept id planeId) trivial
  | remove id => exact iff_of_true (pinsKept_remove hkept id) trivial

/-! ### Runs -/

/-- Pinned models: the promised pins are kept in every state of a run if and
only if every registration under a promised id is one of a pinned model on a
plane. -/
theorem pins_kept_iff (calls : List Call) :
    (∀ before, before <+: calls → PinsKept (Runs.exec Tracked.track .start before)) ↔
      Runs.Along Tracked.track RespectsPins .start calls :=
  Runs.inv_iff_along (D := fun _ _ => True) (N := String) (fun _ _ => True) PinsKept
    (fun _ _ _ _ _ _ _ => trivial)
    (fun _ _ c _ _ _ hkept => pinsKept_track_iff hkept c)
    [] .start calls trivial (fun _ hid => absurd hid List.not_mem_nil)
    (Runs.fresh_of_nameless [] calls) (Runs.along_of_forall calls (fun _ _ _ => trivial) _)

/-- The descriptors of `handle_register_model` are never pinned, so a
registration over the socket respects the pins only under other ids. -/
theorem respectsPins_registeredModel (s : Tracked) (order : IterOrder ModelDescriptor)
    (p : Varlink.Json) (now : ℤ) :
    RespectsPins s (.register order (Varlink.registeredModel p now)) ↔
      (Varlink.registeredModel p now).id ∉ s.promised := by
  refine ⟨fun h hmem => ?_, fun h hmem => absurd hmem h⟩
  have hpin : ModelPlacementState.dormant = .pinnedTriage := (h hmem).1
  cases hpin

def triageParams : Varlink.Json := .object [("id", .string "triage-llm")]

/-- A client registers the pinned model again. -/
def pinnedThenRegistered : List Call :=
  [.register .stored (Varlink.registeredModel triageParams 0),
   .pinForTriage "triage-llm" "npu0",
   .register .stored (Varlink.registeredModel triageParams 1)]

theorem registration_unpins :
    (Runs.exec Tracked.track .start pinnedThenRegistered).promised = ["triage-llm"] ∧
      (after pinnedThenRegistered).get "triage-llm" =
        some (Varlink.registeredModel triageParams 1) ∧
      ¬ PinsKept (Runs.exec Tracked.track .start pinnedThenRegistered) := by
  have hpromised : (Runs.exec Tracked.track .start pinnedThenRegistered).promised = ["triage-llm"] := by
    rfl
  have hget : (after pinnedThenRegistered).get "triage-llm" =
      some (Varlink.registeredModel triageParams 1) := by
    rfl
  refine ⟨hpromised, hget, fun h => ?_⟩
  obtain ⟨m, hm, hpin, -⟩ := h "triage-llm" (by rw [hpromised]; exact List.mem_singleton_self _)
  rw [Tracked.registry_exec] at hm
  rw [show Runs.exec step Tracked.start.registry pinnedThenRegistered =
    after pinnedThenRegistered from rfl, hget] at hm
  cases hm
  cases hpin

end Inferenced.ModelRegistry
