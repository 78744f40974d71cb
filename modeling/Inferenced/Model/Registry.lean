import Inferenced.Lib.Runs
import Inferenced.Model

/-!
# Runs of the model registry (crates/inferenced-core/src/model.rs:36-83)

A run is a list of the calls that change the registry. Every call of `register`
looks at the map in an order of its own.
-/

namespace Inferenced.ModelRegistry
open Lib

inductive Call where
  | register (order : IterOrder ModelDescriptor) (descriptor : ModelDescriptor)
  | pinForTriage (id planeId : String)
  | remove (id : String)

def step (r : ModelRegistry) : Call → ModelRegistry
  | .register order descriptor => r.register order descriptor
  | .pinForTriage id planeId => (r.pinForTriage id planeId).2
  | .remove id => (r.remove id).2

def after (calls : List Call) : ModelRegistry := Runs.exec step new calls

theorem after_concat (calls : List Call) (c : Call) : after (calls ++ [c]) = step (after calls) c := by
  rw [after, Runs.exec_append]
  rfl

/-! ### The eviction -/

/-- `v` is not pinned, and no model that is not pinned has a smaller
`(access_count, last_accessed)`. -/
def LeastUsed (r : ModelRegistry) (v : ModelDescriptor) : Prop :=
  v ∈ r.models.entries ∧ v.placement ≠ .pinnedTriage ∧
    ∀ w ∈ r.models.entries, w.placement ≠ .pinnedTriage →
      v.accessCount < w.accessCount ∨
        v.accessCount = w.accessCount ∧ v.lastAccessed ≤ w.lastAccessed

theorem olderThan_eq_false {a b : ModelDescriptor} :
    olderThan a b = false ↔
      b.accessCount < a.accessCount ∨
        b.accessCount = a.accessCount ∧ b.lastAccessed ≤ a.lastAccessed := by
  simp only [olderThan, Bool.or_eq_false_iff, Bool.and_eq_false_iff, decide_eq_false_iff_not,
    UInt64.lt_iff_toNat_lt, ← UInt64.toNat_inj]
  omega

theorem olderThan_asymm (a b : ModelDescriptor) (h : olderThan a b = true) :
    olderThan b a = false := by
  simp only [olderThan, Bool.or_eq_true, Bool.and_eq_true, decide_eq_true_eq,
    UInt64.lt_iff_toNat_lt, ← UInt64.toNat_inj] at h
  rw [olderThan_eq_false, UInt64.lt_iff_toNat_lt, ← UInt64.toNat_inj]
  omega

theorem olderThan_trans (a b c : ModelDescriptor) (hab : olderThan a b = false)
    (hbc : olderThan b c = false) : olderThan a c = false := by
  simp only [olderThan_eq_false, UInt64.lt_iff_toNat_lt, ← UInt64.toNat_inj] at hab hbc ⊢
  omega

theorem mem_unpinned {r : ModelRegistry} {order : IterOrder ModelDescriptor} {m : ModelDescriptor} :
    m ∈ (order.order r.models.entries).filter (fun m => decide (m.placement ≠ .pinnedTriage)) ↔
      m ∈ r.models.entries ∧ m.placement ≠ .pinnedTriage := by
  rw [List.mem_filter, (order.perm _).mem_iff, decide_eq_true_eq]

theorem evictionVictim_leastUsed {r : ModelRegistry} {order : IterOrder ModelDescriptor}
    {v : ModelDescriptor} (h : r.evictionVictim order = some v) : r.LeastUsed v := by
  obtain ⟨hmem, hpin⟩ := mem_unpinned.mp (minBy_mem h)
  refine ⟨hmem, hpin, fun w hw hwpin => ?_⟩
  exact olderThan_eq_false.mp
    (not_lt_minBy olderThan_asymm olderThan_trans h w (mem_unpinned.mpr ⟨hw, hwpin⟩))

theorem evictionVictim_eq_none (r : ModelRegistry) (order : IterOrder ModelDescriptor) :
    r.evictionVictim order = none ↔ ∀ m ∈ r.models.entries, m.placement = .pinnedTriage := by
  rw [evictionVictim, minBy_eq_none, List.eq_nil_iff_forall_not_mem]
  simp only [mem_unpinned, not_and, ne_eq, not_not]

/-- A new model finds 256 models there, and not all of them are pinned. -/
def Evicting (r : ModelRegistry) (d : ModelDescriptor) : Prop :=
  r.get d.id = none ∧ 256 ≤ r.models.len ∧ ∃ m ∈ r.models.entries, m.placement ≠ .pinnedTriage

/-- What one registration does: either it evicts the least used model that is
not pinned, or it removes nothing. -/
theorem register_cases (r : ModelRegistry) (order : IterOrder ModelDescriptor)
    (d : ModelDescriptor) :
    (∃ v, r.Evicting d ∧ r.LeastUsed v ∧ r.register order d = ⟨(r.remove v.id).2.models.insert d⟩) ∨
      (¬ r.Evicting d ∧ r.register order d = ⟨r.models.insert d⟩) := by
  by_cases hfull : r.get d.id = none ∧ 256 ≤ r.models.len
  · have hcond : ((r.models.get? d.id).isNone && decide (256 ≤ r.models.len)) = true := by
      rw [Bool.and_eq_true, Option.isNone_iff_eq_none, decide_eq_true_eq]
      exact hfull
    cases hv : r.evictionVictim order with
    | none =>
      right
      have hall := (evictionVictim_eq_none r order).mp hv
      refine ⟨fun hev => ?_, ?_⟩
      · obtain ⟨m, hm, hpin⟩ := hev.2.2
        exact hpin (hall m hm)
      · simp only [register, hcond, if_true, hv]
    | some v =>
      left
      have hleast := evictionVictim_leastUsed hv
      refine ⟨v, ⟨hfull.1, hfull.2, v, hleast.1, hleast.2.1⟩, hleast, ?_⟩
      simp only [register, hcond, if_true, hv]
  · right
    have hcond : ((r.models.get? d.id).isNone && decide (256 ≤ r.models.len)) = false := by
      rw [Bool.eq_false_iff, ne_eq, Bool.and_eq_true, Option.isNone_iff_eq_none, decide_eq_true_eq]
      exact hfull
    refine ⟨fun hev => hfull ⟨hev.1, hev.2.1⟩, ?_⟩
    simp only [register, hcond, Bool.false_eq_true, if_false]

theorem get_insert (r : ModelRegistry) (d : ModelDescriptor) (id : String) :
    get ⟨r.models.insert d⟩ id = if id = d.id then some d else r.get id :=
  KeyedMap.get?_insert r.models d id

theorem get_remove (r : ModelRegistry) (gone id : String) :
    (r.remove gone).2.get id = if id = gone then none else r.get id := by
  show (r.models.retain fun m => decide (m.id ≠ gone)).get? id = _
  rw [KeyedMap.get?_retain]
  cases h : r.models.get? id with
  | none =>
    rw [Option.filter_none]
    split
    · rfl
    · exact h.symm
  | some m =>
    have hid : m.id = id := KeyedMap.get?_key h
    by_cases hgone : id = gone
    · rw [if_pos hgone, Option.filter_some_neg (by simp [hid, hgone])]
    · rw [if_neg hgone, Option.filter_some_pos (by simp [hid, hgone])]
      exact h.symm

theorem get_pinForTriage (r : ModelRegistry) (pinnedId planeId id : String) :
    (r.pinForTriage pinnedId planeId).2.get id =
      if id = pinnedId then
        (r.get id).map fun m =>
          { m with placement := .pinnedTriage, residentPlaneId := some planeId }
      else r.get id := by
  unfold pinForTriage
  split
  · exact KeyedMap.get?_modify r.models pinnedId
      (fun m => { m with placement := .pinnedTriage, residentPlaneId := some planeId })
      (fun _ => rfl) id
  · rename_i hnone
    rw [Option.not_isSome_iff_eq_none] at hnone
    split
    · rename_i hid
      rw [hid, get, hnone]
      rfl
    · rfl

/-- `lost` is what the registration of `d` removes of `r` to become `r'`. -/
structure Evicts (r : ModelRegistry) (d : ModelDescriptor) (r' : ModelRegistry)
    (lost : Option ModelDescriptor) : Prop where
  evicting : lost.isSome ↔ r.Evicting d
  leastUsed : ∀ v ∈ lost, r.LeastUsed v
  others : ∀ id, r'.get id =
    if id = d.id then some d else if some id = lost.map (·.id) then none else r.get id

theorem register_evicts (r : ModelRegistry) (order : IterOrder ModelDescriptor)
    (d : ModelDescriptor) : ∃ lost, Evicts r d (r.register order d) lost := by
  rcases register_cases r order d with ⟨v, hev, hleast, heq⟩ | ⟨hnot, heq⟩
  · refine ⟨some v, ⟨iff_of_true rfl hev, fun w hw => ?_, fun id => ?_⟩⟩
    · cases hw
      exact hleast
    · rw [heq, get_insert, get_remove]
      simp only [Option.map_some, Option.some_inj]
  · refine ⟨none, ⟨iff_of_false Bool.false_ne_true hnot, fun w hw => (Option.not_mem_none w hw).elim,
      fun id => ?_⟩⟩
    rw [heq, get_insert, Option.map_none, if_neg (Option.some_ne_none id)]

/-! ### The number of models -/

def pinned (r : ModelRegistry) : ℕ :=
  r.models.entries.countP fun m => decide (m.placement = .pinnedTriage)

def mostPinned : ModelRegistry → List Call → ℕ
  | _, [] => 0
  | r, c :: calls => max r.pinned (mostPinned (step r c) calls)

theorem len_register_le (r : ModelRegistry) (order : IterOrder ModelDescriptor)
    (d : ModelDescriptor) :
    (r.register order d).models.len ≤ max (max 256 r.models.len) (r.pinned + 1) := by
  rcases register_cases r order d with ⟨v, -, hleast, heq⟩ | ⟨hnot, heq⟩
  · -- the victim makes room for the new model
    have hvictim := KeyedMap.length_filter_key (KeyedMap.get?_of_mem hleast.1)
    have hle := KeyedMap.len_insert_le (r.remove v.id).2.models d
    have hremove : (r.remove v.id).2.models.len + 1 = r.models.len := hvictim
    rw [heq]
    show ((r.remove v.id).2.models.insert d).len ≤ _
    omega
  · rw [heq]
    show (r.models.insert d).len ≤ _
    cases hget : r.models.get? d.id with
    | some m =>
      rw [KeyedMap.len_insert_of_some hget]
      omega
    | none =>
      have hle := KeyedMap.len_insert_le r.models d
      by_cases hfull : 256 ≤ r.models.len
      · have hall : ∀ m ∈ r.models.entries, m.placement = .pinnedTriage := by
          intro m hm
          by_contra hpin
          exact hnot ⟨hget, hfull, m, hm, hpin⟩
        have hpinned : r.pinned = r.models.len :=
          List.countP_eq_length.mpr fun m hm => decide_eq_true (hall m hm)
        omega
      · omega

theorem len_step_le (r : ModelRegistry) (c : Call) :
    (step r c).models.len ≤ max (max 256 r.models.len) (r.pinned + 1) := by
  cases c with
  | register order d => exact len_register_le r order d
  | pinForTriage id planeId =>
    have hlen : (step r (.pinForTriage id planeId)).models.len = r.models.len := by
      simp only [step, pinForTriage]
      split
      · exact List.length_map ..
      · rfl
    omega
  | remove id =>
    have hlen : (step r (.remove id)).models.len ≤ r.models.len := List.length_filter_le ..
    omega

theorem len_exec_le (r : ModelRegistry) (calls : List Call) :
    (Runs.exec step r calls).models.len ≤
      max (max 256 r.models.len) (mostPinned r calls + 1) := by
  induction calls generalizing r with
  | nil =>
    show r.models.len ≤ _
    omega
  | cons c calls ih =>
    have hstep := len_step_le r c
    have hrest := ih (step r c)
    show (Runs.exec step (step r c) calls).models.len ≤ _
    rw [mostPinned]
    omega

/-- Capacity and eviction, after any calls: the next registration removes at
most one model, exactly when a new model finds 256 there of which one is not
pinned, and then the least used of these; all others stay as they are. The
number of models is at most 256, or one more than were ever pinned. -/
theorem registry_capacity (calls : List Call) :
    (∀ (order : IterOrder ModelDescriptor) (d : ModelDescriptor),
      ∃ lost, Evicts (after calls) d (after (calls ++ [.register order d])) lost) ∧
    (after calls).models.len ≤ max 256 (mostPinned new calls + 1) := by
  refine ⟨fun order d => ?_, ?_⟩
  · rw [after_concat]
    exact register_evicts (after calls) order d
  · have hlen := len_exec_le new calls
    have hnew : new.models.len = 0 := rfl
    rw [hnew] at hlen
    rw [after]
    omega

end Inferenced.ModelRegistry
