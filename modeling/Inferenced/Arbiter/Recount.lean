import Inferenced.Arbiter.Refresh

/-!
# A refresh recounts every plane

`update_topology` (arbiter.rs:29-50) starts from the measured availabilities and
takes the active leases off them one by one, in the order of the hash map, each
time down to zero at most. What a plane ends with is the measured value less the
sum of what is charged to it, so the order leaves no trace; and the leases that
are revoked on the way were charged to no plane that is left, so a second
refresh finds the same sums.
-/

namespace Inferenced.Arbiter
open Lib HardwareTopology

variable {T : HardwareTopology} {s : ArbiterState} {order : IterOrder ComputeLease} {p : String}

def umaPlanes (t : HardwareTopology) : List ComputePlane :=
  t.planes.filter fun p => decide (p.kind = .integratedUma)

/-! ### The charges of the CPU plane -/

theorem sum_weight {α : Type*} (us : List α) (f : α → ComputeLease → ℕ) (leases : LeaseMap) :
    (us.map fun u => leases.weight (f u)).sum = leases.weight fun l => (us.map fun u => f u l).sum := by
  induction us with
  | nil =>
    refine (KeyedMap.weight_eq_zero _ fun l _ => ?_).symm
    rfl
  | cons u us ih =>
    simp only [List.map_cons, List.sum_cons, ih]
    exact (KeyedMap.weight_add _ _ _).symm

theorem sum_umaPlanes (hd : T.Distinct) (q : String) (b : ℕ) :
    ((umaPlanes T).map fun u => if q = u.id then b else 0).sum = if T.isUma q then b else 0 := by
  unfold umaPlanes isUma find?
  unfold Distinct at hd
  generalize T.planes = planes at hd
  induction planes with
  | nil => rfl
  | cons x xs ih =>
    rw [List.map_cons, List.nodup_cons] at hd
    have ih := ih hd.2
    by_cases hx : x.id = q
    · subst hx
      -- no other plane has this id
      have hrest : xs.find? (fun p => decide (p.id = x.id)) = none := by
        refine List.find?_eq_none.mpr fun y hy => ?_
        have hne : y.id ≠ x.id := fun h => hd.1 (h ▸ List.mem_map_of_mem hy)
        simpa using hne
      rw [hrest] at ih
      by_cases hk : x.kind = .integratedUma
      · simpa [hk] using ih
      · simpa [hk] using ih
    · have hq : q ≠ x.id := fun h => hx h.symm
      by_cases hk : x.kind = .integratedUma
      · simpa [hk, hx, hq] using ih
      · simpa [hk, hx] using ih

theorem held_eq_of_not_cpu (h : T.cpuId? ≠ some p) (s : ArbiterState) :
    held T s.leases p = activeBytes s p := by
  refine KeyedMap.weight_congr _ fun l _ => ?_
  rw [charge, sole_of_not_cpu h]

theorem held_cpu_uma (hd : T.Distinct) (h : T.cpuId? = some p) (s : ArbiterState) :
    held T s.leases p = activeBytes s p + ((umaPlanes T).map fun u => activeBytes s u.id).sum := by
  have hsum : ((umaPlanes T).map fun u => activeBytes s u.id).sum = s.leases.weight fun l =>
      if l.isActive && T.isUma l.planeId then l.allocatedMemoryBytes.toNat else 0 := by
    unfold activeBytes
    rw [sum_weight]
    refine KeyedMap.weight_congr _ fun l _ => ?_
    cases l.isActive with
    | false => simp
    | true => simpa using sum_umaPlanes hd l.planeId l.allocatedMemoryBytes.toNat
  rw [hsum]
  unfold held activeBytes
  rw [← KeyedMap.weight_add]
  refine KeyedMap.weight_congr _ fun l _ => ?_
  -- the CPU plane is no UMA plane, so no lease counts twice
  by_cases hu : T.isUma l.planeId = true
  · have hne : l.planeId ≠ p := fun hp => cpuId?_ne_uma hd hu (hp ▸ h)
    simp [charge, charges, hu, h, hne]
  · simp [charge, charges, hu]

/-! ### The refreshed state -/

/-- A refresh with `T` is determined by what is charged to the planes of `T` and
by the leases that it leaves. -/
theorem updateTopology_congr (hd : T.Distinct) {s s' : ArbiterState} {order order' : IterOrder ComputeLease}
    (hheld : ∀ p, T.find? p ≠ none → held T s'.leases p = held T s.leases p)
    (hentries : (updateTopology s' order' T).leases.entries = (updateTopology s order T).leases.entries)
    (hreg : s'.registry = s.registry) : updateTopology s' order' T = updateTopology s order T := by
  have htopo : (updateTopology s' order' T).topology = (updateTopology s order T).topology := by
    refine eq_of_bare (hd.congr (layout_updateTopology s order T)) ?_ fun p => ?_
    · rw [bare_updateTopology, bare_updateTopology]
    · rw [available_updateTopology hd, available_updateTopology hd]
      by_cases hp : T.find? p = none
      · simp [available, hp]
      · rw [hheld p hp]
  have hleases : (updateTopology s' order' T).leases = (updateTopology s order T).leases :=
    KeyedMap.ext hentries
  calc updateTopology s' order' T
    _ = ⟨(updateTopology s' order' T).topology, (updateTopology s' order' T).leases, s'.registry⟩ := rfl
    _ = ⟨(updateTopology s order T).topology, (updateTopology s order T).leases, s.registry⟩ := by
      rw [htopo, hleases, hreg]
    _ = updateTopology s order T := rfl

theorem updateTopology_order (hd : T.Distinct) (s : ArbiterState) (order order' : IterOrder ComputeLease) :
    updateTopology s order' T = updateTopology s order T :=
  updateTopology_congr hd (fun _ _ => rfl)
    (by rw [updateTopology_entries, updateTopology_entries]) rfl

theorem updateTopology_twice (hd : T.Distinct) (s : ArbiterState) (order order' : IterOrder ComputeLease) :
    updateTopology (updateTopology s order T) order' T = updateTopology s order T := by
  refine updateTopology_congr hd (fun p hp => held_updateTopology hp s order) ?_ rfl
  rw [updateTopology_entries, updateTopology_entries, List.map_map]
  refine List.map_congr_left fun l _ => ?_
  rw [Function.comp_apply]
  by_cases hgone : unplugged T l = true
  · rw [if_pos hgone]
    -- what the first refresh has revoked is not live any more
    exact if_neg (by simp [unplugged, ComputeLease.isLive, LeaseState.isLive, LeaseState.isActive])
  · rw [if_neg hgone, if_neg hgone]

/-- `s'` is what a refresh with `T` makes of `s`. -/
structure Recounted (s : ArbiterState) (T : HardwareTopology) (s' : ArbiterState) : Prop where
  planes : s'.topology.bare = T.bare
  other : ∀ p ∈ T.planes, T.cpu? ≠ some p →
    s'.topology.available p.id = p.availableMemoryBytes.toNat - activeBytes s p.id
  cpu : ∀ c, T.cpu? = some c → s'.topology.available c.id = c.availableMemoryBytes.toNat -
    (activeBytes s c.id + ((umaPlanes T).map fun u => activeBytes s u.id).sum)
  leases : ∀ id, s'.leases.get? id = (s.leases.get? id).map fun l =>
    if (l.isActive = true ∨ l.state = .preempted) ∧ T.find? l.planeId = none then l.withState .revoked
    else l

theorem unplugged_iff (l : ComputeLease) : unplugged T l = true ↔
    (l.isActive = true ∨ l.state = .preempted) ∧ T.find? l.planeId = none := by
  simp only [unplugged, Bool.and_eq_true, Option.isNone_iff_eq_none]
  refine and_congr ?_ Iff.rfl
  simp [ComputeLease.isLive, LeaseState.isLive, ComputeLease.isActive]

theorem updateTopology_recounted (hd : T.Distinct) (s : ArbiterState) (order : IterOrder ComputeLease) :
    Recounted s T (updateTopology s order T) where
  planes := bare_updateTopology s order T
  other := by
    intro p hp hcpu
    have hid : T.cpuId? ≠ some p.id := by
      intro h
      obtain ⟨c, hc, hcp⟩ := Option.map_eq_some_iff.mp h
      have hmem := List.mem_of_find?_eq_some hc
      exact hcpu (hc.trans (congrArg some (List.inj_on_of_nodup_map hd hmem hp hcp)))
    rw [available_updateTopology hd, available_of_mem hd hp, held_eq_of_not_cpu hid]
  cpu := by
    intro c hc
    have hmem := List.mem_of_find?_eq_some hc
    have hid : T.cpuId? = some c.id := by rw [cpuId?, hc]; rfl
    rw [available_updateTopology hd, available_of_mem hd hmem, held_cpu_uma hd hid]
  leases := by
    intro id
    rw [updateTopology_get?]
    refine congrArg (Option.map · _) (funext fun l => ?_)
    simp only [unplugged_iff]

/-- A refresh recounts every plane from the measured value, whatever the state
before it and in whatever order it visits the leases, and a second one with the
same topology changes nothing. -/
theorem update_topology_recounts (hd : T.Distinct) (s : ArbiterState)
    (order : IterOrder ComputeLease) :
    Recounted s T (updateTopology s order T) ∧
      (∀ order', updateTopology s order' T = updateTopology s order T) ∧
      ∀ order', updateTopology (updateTopology s order T) order' T = updateTopology s order T :=
  ⟨updateTopology_recounted hd s order, updateTopology_order hd s order, updateTopology_twice hd s order⟩

def measuredUma : HardwareTopology :=
  sampleTopology [samplePlane "gpu1" .integratedUma 8 5, samplePlane "cpu-host" .cpuMatrixExtension 8 4]

/-- The GPU of the lease is gone, and both planes are measured anew. -/
theorem update_topology_recounts_measuredUma :
    Recounted leasedGpu measuredUma (updateTopology leasedGpu IterOrder.stored measuredUma) ∧
      (updateTopology leasedGpu IterOrder.stored measuredUma).leases.get? (sampleId 0) =
        (leasedGpu.leases.get? (sampleId 0)).map (·.withState .revoked) := by
  refine ⟨(update_topology_recounts (by decide) leasedGpu IterOrder.stored).1, by decide⟩

end Inferenced.Arbiter
