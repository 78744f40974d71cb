import Inferenced.Model.Registry
import Mathlib.Data.Finset.Card

/-!
# The registry as a bounded cache

Without its bound the registry would be a map from names to descriptors. The
bounded registry never disagrees with that map about a model it has; it only
lacks models that were evicted, and as long as nothing is evicted the two are
the same.
-/

namespace Inferenced.ModelRegistry
open Lib Lib.Runs

/-- The registry without its bound. -/
abbrev Known := String → Option ModelDescriptor

def Known.step (k : Known) : Call → Known
  | .register _ d => fun id => if id = d.id then some d else k id
  | .remove gone => fun id => if id = gone then none else k id
  | .pinForTriage pinnedId planeId => fun id =>
    if id = pinnedId then
      (k id).map fun m => { m with placement := .pinnedTriage, residentPlaneId := some planeId }
    else k id

def known (calls : List Call) : Known := exec Known.step (fun _ => none) calls

/-- The call evicts no model. -/
def Roomy (r : ModelRegistry) : Call → Prop
  | .register _ d => ¬ r.Evicting d
  | _ => True

/-! ### One call -/

theorem step_get_some {r : ModelRegistry} {k : Known} (h : ∀ id m, r.get id = some m → k id = some m)
    (c : Call) (id : String) (m : ModelDescriptor) (hm : (step r c).get id = some m) :
    k.step c id = some m := by
  cases c with
  | register order d =>
    obtain ⟨lost, hevicts⟩ := register_evicts r order d
    simp only [step, hevicts.others] at hm
    simp only [Known.step]
    split at hm
    · rename_i hid
      rw [if_pos hid]
      exact hm
    · rename_i hid
      rw [if_neg hid]
      split at hm
      · cases hm
      · exact h id m hm
  | pinForTriage pinnedId planeId =>
    simp only [step, get_pinForTriage] at hm
    simp only [Known.step]
    split at hm
    · rename_i hid
      obtain ⟨m₀, hm₀, rfl⟩ := Option.map_eq_some_iff.mp hm
      rw [if_pos hid, h id m₀ hm₀]
      rfl
    · rename_i hid
      rw [if_neg hid]
      exact h id m hm
  | remove gone =>
    simp only [step, get_remove] at hm
    simp only [Known.step]
    split at hm
    · cases hm
    · rename_i hid
      rw [if_neg hid]
      exact h id m hm

theorem step_get_eq {r : ModelRegistry} {k : Known} (h : ∀ id, r.get id = k id) (c : Call)
    (hroomy : r.Roomy c) (id : String) : (step r c).get id = k.step c id := by
  cases c with
  | register order d =>
    obtain ⟨lost, hevicts⟩ := register_evicts r order d
    have hnone : lost = none := by
      rw [← Option.not_isSome_iff_eq_none, hevicts.evicting]
      exact hroomy
    simp only [step, hevicts.others, hnone, Option.map_none, reduceCtorEq, if_false, Known.step, h]
  | pinForTriage pinnedId planeId => simp only [step, get_pinForTriage, Known.step, h]
  | remove gone => simp only [step, get_remove, Known.step, h]

/-! ### Runs -/

theorem exec_get_some (calls : List Call) (r : ModelRegistry) (k : Known)
    (h : ∀ id m, r.get id = some m → k id = some m) :
    ∀ id m, (exec step r calls).get id = some m → exec Known.step k calls id = some m := by
  induction calls generalizing r k with
  | nil => exact h
  | cons c calls ih => exact ih (step r c) (k.step c) (step_get_some h c)

theorem exec_get_eq (calls : List Call) (r : ModelRegistry) (k : Known) (h : ∀ id, r.get id = k id)
    (hroomy : Along step Roomy r calls) : ∀ id, (exec step r calls).get id = exec Known.step k calls id := by
  induction calls generalizing r k with
  | nil => exact h
  | cons c calls ih => exact ih (step r c) (k.step c) (step_get_eq h c hroomy.1) hroomy.2

/-! ### Runs with few models -/

def Call.name : Call → Option String
  | .register _ d => some d.id
  | _ => none

/-- The names that the calls register. -/
def names (calls : List Call) : List String := calls.filterMap Call.name

/-- All models of the registry have names of `ids`. -/
def Within (ids : Finset String) (r : ModelRegistry) : Prop := ∀ id, (r.get id).isSome → id ∈ ids

theorem Within.len_lt {ids : Finset String} {r : ModelRegistry} (h : r.Within ids) {id : String}
    (hid : id ∈ ids) (hnew : r.get id = none) : r.models.len < ids.card := by
  have hsub : (r.models.entries.map (·.id)).toFinset ⊆ ids.erase id := by
    intro other hother
    obtain ⟨m, hm, rfl⟩ := List.mem_map.mp (List.mem_toFinset.mp hother)
    have hget : r.get m.id = some m := KeyedMap.get?_of_mem hm
    refine Finset.mem_erase.mpr ⟨fun heq => ?_, h m.id (by rw [hget]; rfl)⟩
    rw [heq, hnew] at hget
    cases hget
  calc r.models.len
      = (r.models.entries.map (·.id)).toFinset.card := by
        rw [List.toFinset_card_of_nodup r.models.nodup, List.length_map]
        rfl
    _ ≤ (ids.erase id).card := Finset.card_le_card hsub
    _ < ids.card := Finset.card_erase_lt_of_mem hid

theorem Within.step {ids : Finset String} {r : ModelRegistry} (h : r.Within ids) {c : Call}
    (hc : ∀ id ∈ c.name, id ∈ ids) : (ModelRegistry.step r c).Within ids := by
  intro id hsome
  obtain ⟨m, hm⟩ := Option.isSome_iff_exists.mp hsome
  -- what the registry has afterwards, the map without a bound has too
  have hknown := step_get_some (k := r.get) (fun _ _ h => h) c id m hm
  cases c with
  | register order d =>
    simp only [Known.step] at hknown
    split at hknown
    · rename_i hid
      exact hc id (by rw [hid]; rfl)
    · exact h id (by rw [hknown]; rfl)
  | pinForTriage pinnedId planeId =>
    simp only [Known.step] at hknown
    split at hknown
    · obtain ⟨m₀, hm₀, -⟩ := Option.map_eq_some_iff.mp hknown
      exact h id (by rw [hm₀]; rfl)
    · exact h id (by rw [hknown]; rfl)
  | remove gone =>
    simp only [Known.step] at hknown
    split at hknown
    · cases hknown
    · exact h id (by rw [hknown]; rfl)

/-- Up to 256 names there is always room. -/
theorem along_roomy {ids : Finset String} (hcard : ids.card ≤ 256) (calls : List Call) (r : ModelRegistry)
    (h : r.Within ids) (hcalls : ∀ id ∈ names calls, id ∈ ids) : Along step Roomy r calls := by
  induction calls generalizing r with
  | nil => exact trivial
  | cons c calls ih =>
    have hc : ∀ id ∈ c.name, id ∈ ids := by
      intro id hid
      exact hcalls id (List.mem_filterMap.mpr ⟨c, List.mem_cons_self .., hid⟩)
    have hrest : ∀ id ∈ names calls, id ∈ ids := by
      intro id hid
      obtain ⟨b, hb, hname⟩ := List.mem_filterMap.mp hid
      exact hcalls id (List.mem_filterMap.mpr ⟨b, List.mem_cons_of_mem _ hb, hname⟩)
    refine ⟨?_, ih _ (h.step hc) hrest⟩
    cases c with
    | register order d =>
      rintro ⟨hnew, hfull, -⟩
      have hlt := h.len_lt (hc d.id rfl) hnew
      omega
    | pinForTriage pinnedId planeId => exact trivial
    | remove gone => exact trivial

/-- Registrations of different names, as long as there is room: the registry has
all of them, the last one first. -/
theorem entries_registrations (order : IterOrder ModelDescriptor) (ds : List ModelDescriptor)
    (hnodup : (ds.map (·.id)).Nodup) (hroom : ds.length ≤ 256) :
    (exec step new (ds.map (.register order))).models.entries = ds.reverse := by
  induction ds using List.reverseRecOn with
  | nil => rfl
  | append_singleton ds d ih =>
    rw [List.map_append, List.map_singleton, List.nodup_append] at hnodup
    obtain ⟨hnodup, -, hnew⟩ := hnodup
    rw [List.length_append, List.length_singleton] at hroom
    rw [List.map_append, exec_append, List.reverse_append]
    have hentries := ih hnodup (by omega)
    generalize exec step new (ds.map (.register order)) = r at hentries ⊢
    have hlen : r.models.len = ds.length := by rw [KeyedMap.len, hentries, List.length_reverse]
    have hother : ∀ m ∈ r.models.entries, m.id ≠ d.id := by
      intro m hm
      rw [hentries, List.mem_reverse] at hm
      exact hnew m.id (List.mem_map_of_mem hm) d.id (List.mem_singleton_self _)
    have hinsert : step r (.register order d) = ⟨r.models.insert d⟩ := by
      rcases register_cases r order d with ⟨v, hevicting, -, -⟩ | ⟨-, h⟩
      · have hfull := hevicting.2.1
        omega
      · exact h
    have hfilter : r.models.entries.filter (fun m => decide (m.id ≠ d.id)) = r.models.entries :=
      List.filter_eq_self.mpr fun m hm => decide_eq_true (hother m hm)
    show (step r (.register order d)).models.entries = _
    rw [hinsert]
    show d :: r.models.entries.filter _ = _
    rw [hfilter, hentries]
    rfl

theorem get_new (id : String) : new.get id = none := KeyedMap.get?_empty id

/-- A model that leaves the registry has been removed by name, or it is the least
used one that is not pinned and makes room for a new one. -/
theorem step_loses {r : ModelRegistry} {c : Call} {id : String} {v : ModelDescriptor}
    (hv : r.get id = some v) (hgone : (step r c).get id = none) :
    c = .remove id ∨ ∃ order d, c = .register order d ∧ r.Evicting d ∧ r.LeastUsed v := by
  cases c with
  | register order d =>
    obtain ⟨lost, hevicts⟩ := register_evicts r order d
    simp only [step, hevicts.others] at hgone
    split at hgone
    · cases hgone
    · split at hgone
      · rename_i hid
        obtain ⟨w, hw, hwid⟩ := Option.map_eq_some_iff.mp hid.symm
        have hleast := hevicts.leastUsed w hw
        have hwv : w = v := by
          have hget : r.get w.id = some w := KeyedMap.get?_of_mem hleast.1
          rw [hwid, hv] at hget
          exact (Option.some.inj hget).symm
        refine Or.inr ⟨order, d, rfl, hevicts.evicting.mp ?_, hwv ▸ hleast⟩
        rw [hw]
        rfl
      · rw [hv] at hgone
        cases hgone
  | pinForTriage pinnedId planeId =>
    simp only [step, get_pinForTriage, hv, Option.map_some] at hgone
    split at hgone <;> cases hgone
  | remove gone =>
    simp only [step, get_remove] at hgone
    split at hgone
    · rename_i hid
      exact Or.inl (by rw [hid])
    · rw [hv] at hgone
      cases hgone

/-! ### Models as clients register them -/

/-- Cold or pinned, and never counted as used. -/
structure Plain (m : ModelDescriptor) : Prop where
  unused : m.accessCount = 0
  placement : m.placement = .dormant ∧ m.residentPlaneId = none ∨
    m.placement = .pinnedTriage ∧ m.residentPlaneId.isSome = true

def Call.Plain : Call → Prop
  | .register _ d => ModelRegistry.Plain d
  | _ => True

theorem plain_step {r : ModelRegistry} (h : ∀ id m, r.get id = some m → Plain m) {c : Call} (hc : c.Plain)
    (id : String) (m : ModelDescriptor) (hm : (step r c).get id = some m) : Plain m := by
  cases c with
  | register order d =>
    obtain ⟨lost, hevicts⟩ := register_evicts r order d
    simp only [step, hevicts.others] at hm
    split at hm
    · cases hm
      exact hc
    · split at hm
      · cases hm
      · exact h id m hm
  | pinForTriage pinnedId planeId =>
    simp only [step, get_pinForTriage] at hm
    split at hm
    · obtain ⟨m₀, hm₀, rfl⟩ := Option.map_eq_some_iff.mp hm
      exact ⟨(h id m₀ hm₀).unused, Or.inr ⟨rfl, rfl⟩⟩
    · exact h id m hm
  | remove gone =>
    simp only [step, get_remove] at hm
    split at hm
    · cases hm
    · exact h id m hm

end Inferenced.ModelRegistry
