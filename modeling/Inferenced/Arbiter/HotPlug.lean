import Inferenced.Arbiter.Credits

/-!
# Leases and planes under hot-plug

`update_topology` (arbiter.rs:29-50) replaces the planes under the leases. Every
lease that holds memory or may get it back stays on a plane that is there:
grants are made on a plane of the current topology, lease operations keep the
planes, and a hot-plug event revokes what it strands. Nothing is assumed of the
topologies, not even that their plane ids are distinct.
-/

namespace Inferenced.Arbiter
open Lib Lib.Runs HardwareTopology

variable {t : HardwareTopology} {s s' : ArbiterState} {env : CallEnv} {req : LeaseRequest} {idx : ℕ}

/-- The plane of every live lease is in the topology. -/
def Anchored (s : ArbiterState) : Prop :=
  ∀ id l, s.leases.get? id = some l → l.isLive = true → s.topology.find? l.planeId ≠ none

theorem exists_plane {q : String} (h : t.find? q ≠ none) : ∃ p ∈ t.planes, p.id = q := by
  obtain ⟨p, hp⟩ := Option.ne_none_iff_exists'.mp h
  exact ⟨p, List.mem_of_find?_eq_some hp, by simpa using List.find?_some hp⟩

theorem find?_planeIdAt (h : idx < t.planes.length) : t.find? (t.planeIdAt idx) ≠ none := by
  have hget : t.planes[idx]? = some t.planes[idx] := List.getElem?_eq_getElem h
  intro hnone
  have := List.find?_eq_none.mp hnone t.planes[idx] (List.getElem_mem h)
  simp [planeIdAt, hget] at this

/-! ### One step -/

theorem Anchored.stepLease (h : Anchored s) (op : LeaseOp) : Anchored (stepLease s op) := by
  intro id l hl hlive
  rw [ne_eq, find?_eq_none_congr (layout_stepLease s op)]
  rcases stepLease_origin hl with ⟨l₀, hl₀, hsame, hlive₀⟩ | ⟨env, req, idx, -, hadm, rfl⟩
  · rw [hsame]
    exact h id l₀ hl₀ (hlive₀ hlive)
  · exact find?_planeIdAt (targetPlaneIdx_lt hadm.target)

/-- A hot-plug event leaves no live lease on a plane that is gone, whatever was
true before. -/
theorem anchored_updateTopology (s : ArbiterState) (order : IterOrder ComputeLease)
    (t : HardwareTopology) : Anchored (updateTopology s order t) := by
  intro id l hl hlive
  rw [ne_eq, find?_eq_none_congr (layout_updateTopology s order t)]
  intro hgone
  rw [updateTopology_get?] at hl
  obtain ⟨l₀, -, rfl⟩ := Option.map_eq_some_iff.mp hl
  split at hlive
  · cases hlive
  · rename_i hplugged
    rw [if_neg hplugged] at hgone
    exact hplugged (by simp [unplugged, hlive, hgone])

theorem Anchored.step (h : Anchored s) (op : ArbiterOp) : Anchored (step s op) := by
  cases op with
  | lease lop => exact h.stepLease lop
  | updateTopology order t => exact anchored_updateTopology s order t

theorem anchored_run (T : HardwareTopology) (ops : List ArbiterOp) :
    Anchored (exec step (new T) ops) := by
  refine exec_inv Anchored (fun s op h => h.step op) _ ops fun id l hl => ?_
  rw [new, KeyedMap.get?_empty] at hl
  cases hl

/-! ### Consequences -/

theorem Anchored.thaw_finds_plane (h : Anchored s) (id : LeaseId) (plane : String) :
    (thawLease s id).result ≠ .error (.planeNotFound plane) := by
  unfold thawLease
  cases hl : s.leases.get? id with
  | none => exact fun h => by cases h
  | some l =>
    dsimp only
    by_cases hp : l.state = .preempted
    · have hlive : l.isLive = true := by rw [ComputeLease.isLive, hp]; rfl
      rw [if_pos hp]
      cases hf : s.topology.find? l.planeId with
      | none => exact absurd hf (h id l hl hlive)
      | some p =>
        dsimp only
        split
        · exact fun h => by cases h
        · split <;> exact fun h => by cases h
    · rw [if_neg hp]
      split <;> exact fun h => by cases h

theorem Anchored.credits_find_plane (h : Anchored s) (op : LeaseOp) :
    Along creditStep (fun t c => ∃ p ∈ t.planes, p.id = c.planeId) s.topology (credits s op) := by
  have hall : ∀ (cs : List Credit) (t : HardwareTopology), t.layout = s.topology.layout →
      (∀ c ∈ cs, c ∈ credits s op) →
      Along creditStep (fun t c => ∃ p ∈ t.planes, p.id = c.planeId) t cs := by
    intro cs
    induction cs with
    | nil => exact fun _ _ _ => trivial
    | cons c cs ih =>
      intro t hlay hmem
      refine ⟨exists_plane ?_, ih _ ((layout_restorePlaneMemory _ _).trans hlay)
        fun d hd => hmem d (List.mem_cons_of_mem _ hd)⟩
      obtain ⟨l, hl, ha, rfl, -⟩ := mem_credits (hmem c (List.mem_cons_self ..))
      rw [ne_eq, find?_eq_none_congr hlay]
      exact h l.id l hl (isActive_isLive ha)
  exact hall _ _ rfl fun _ hc => hc

/-- Referential integrity under hot-plug: in every state that a run of lease
operations and hot-plug events reaches, every lease that is active, preempting,
frozen or preempted names a plane of the current topology; no thaw ends with
`PlaneNotFound`, and every credit of every operation finds its plane. -/
theorem live_leases_name_planes (T : HardwareTopology) (ops : List ArbiterOp) :
    (∀ id l, (exec step (new T) ops).leases.get? id = some l →
      l.state ∈ [LeaseState.active, .preempting, .frozen, .preempted] →
      ∃ p ∈ (exec step (new T) ops).topology.planes, p.id = l.planeId) ∧
    (∀ id plane, (thawLease (exec step (new T) ops) id).result ≠ .error (.planeNotFound plane)) ∧
    (∀ op, Along creditStep (fun t c => ∃ p ∈ t.planes, p.id = c.planeId)
      (exec step (new T) ops).topology (credits (exec step (new T) ops) op)) := by
  have h := anchored_run T ops
  refine ⟨fun id l hl hst => exists_plane (h id l hl ?_), h.thaw_finds_plane, h.credits_find_plane⟩
  simp only [List.mem_cons, List.not_mem_nil, or_false] at hst
  rcases hst with hst | hst | hst | hst <;> rw [ComputeLease.isLive, hst] <;> rfl

end Inferenced.Arbiter
