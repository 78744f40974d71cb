import Inferenced.Arbiter.Overflow
import Inferenced.Arbiter.Refresh
import Inferenced.Arbiter.SharedMemory

/-!
# The order of releases

Clients disconnect in any order, and the reclaim loop of a connection
(varlink/mod.rs:96-103) releases its leases one by one; a lease may come up
twice, or have ended before. Every release adds with a cap at the total, to two
planes for a UMA lease. What a list of releases leaves is described here without
its order: each plane ends with its start and the sum of what the active leases
of the list return to it, up to its total, and each live lease of the list has
expired. Neither distinct plane ids nor a balanced start are assumed.
-/

namespace Inferenced.Arbiter
open Lib Lib.Runs HardwareTopology

variable {s after : ArbiterState} {ids ids' : List LeaseId} {id : LeaseId} {l : ComputeLease} {i : ℕ}

/-! ### What a list of releases leaves -/

def expire (ids : List LeaseId) (l : ComputeLease) : ComputeLease :=
  if l.isLive && decide (l.id ∈ ids) then l.withState .expired else l

def returnsTo (t : HardwareTopology) (ids : List LeaseId) (i : ℕ) (l : ComputeLease) : Bool :=
  l.isActive && decide (l.id ∈ ids) && t.chargesAt l.planeId i

/-- The amounts that the active leases of the list return to plane `i`. -/
def returned (s : ArbiterState) (ids : List LeaseId) (i : ℕ) : List ℕ :=
  (s.leases.entries.filter (returnsTo s.topology ids i)).map (·.allocatedMemoryBytes.toNat)

/-- The state after the releases of `ids` from `s`, in whatever order. -/
structure Released (s : ArbiterState) (ids : List LeaseId) (after : ArbiterState) : Prop where
  entries : after.leases.entries = s.leases.entries.map (expire ids)
  bare : after.topology.bare = s.topology.bare
  available : ∀ i, (after.topology.availableAt i).toNat =
    cappedSum (s.topology.availableAt i).toNat (totalAt s.topology i) (returned s ids i)
  registry : after.registry = s.registry

theorem Released.unique {after' : ArbiterState} (h : Released s ids after) (h' : Released s ids' after')
    (hids : ∀ id, id ∈ ids ↔ id ∈ ids') : after = after' := by
  have hexpire : expire ids = expire ids' := by
    funext l
    simp only [expire, hids]
  have hreturned : ∀ i, returned s ids i = returned s ids' i := by
    intro i
    have hfilter : returnsTo s.topology ids i = returnsTo s.topology ids' i := by
      funext l
      simp only [returnsTo, hids]
    rw [returned, returned, hfilter]
  have htopo : after.topology = after'.topology := by
    refine eq_of_bare_at (h.bare.trans h'.bare.symm) fun i => UInt64.toNat_inj.mp ?_
    rw [h.available, h'.available, hreturned]
  have hleases : after.leases = after'.leases := by
    refine KeyedMap.ext ?_
    rw [h.entries, h'.entries, hexpire]
  calc after
    _ = ⟨after.topology, after.leases, after.registry⟩ := rfl
    _ = ⟨after'.topology, after'.leases, after'.registry⟩ := by
      rw [htopo, hleases, h.registry, h'.registry]
    _ = after' := rfl

theorem released_nil (s : ArbiterState) : Released s [] s := by
  refine ⟨?_, rfl, fun i => ?_, rfl⟩
  · have hid : expire [] = fun l => l := by
      funext l
      simp [expire]
    rw [hid, List.map_id']
  · have hnone : returned s [] i = [] := by simp [returned, returnsTo]
    rw [hnone]
    rfl

/-! ### One more release -/

/-- A lease that is still live has not come up before. -/
theorem Released.origin (h : Released s ids after) (hl : after.leases.get? id = some l)
    (hlive : l.isLive = true) : s.leases.get? id = some l ∧ id ∉ ids := by
  obtain ⟨hmem, hid⟩ := KeyedMap.get?_eq_some.mp hl
  rw [h.entries] at hmem
  obtain ⟨m, hm, he⟩ := List.mem_map.mp hmem
  unfold expire at he
  split at he
  · rw [← he] at hlive
    cases hlive
  · rename_i hnot
    subst he
    refine ⟨KeyedMap.get?_eq_some.mpr ⟨hm, hid⟩, fun hin => hnot ?_⟩
    simp [hlive, hid, hin]

theorem Released.get? (h : Released s ids after) (hl : s.leases.get? id = some l)
    (hnot : id ∉ ids) : after.leases.get? id = some l := by
  obtain ⟨hmem, hid⟩ := KeyedMap.get?_eq_some.mp hl
  refine KeyedMap.get?_eq_some.mpr ⟨?_, hid⟩
  rw [h.entries]
  refine List.mem_map.mpr ⟨l, hmem, ?_⟩
  simp [expire, hid, hnot]

theorem CreditFits.at {t : HardwareTopology} {c : Credit} (h : CreditFits t c)
    (hc : t.chargesAt c.planeId i = true) : (t.availableAt i).toNat + c.bytes.toNat < 2 ^ 64 := by
  rw [chargesAt, Bool.or_eq_true, Bool.and_eq_true, decide_eq_true_eq, decide_eq_true_eq] at hc
  rcases hc with hi | ⟨hu, hi⟩
  · obtain ⟨p, hp, -, hfind⟩ := getElem?_of_idx? hi
    have hsum := h.1 p hfind
    rwa [availableAt, hp]
  · obtain ⟨p, hp, -, hcpu⟩ := getElem?_of_cpuIdx? hi
    have hsum := h.2 hu p hcpu
    rwa [availableAt, hp]

theorem mem_append_of_ne {j : LeaseId} (hne : id ≠ j) : id ∈ ids ++ [j] ↔ id ∈ ids := by
  rw [List.mem_append, List.mem_singleton]
  exact or_iff_left hne

theorem returned_append_of_not (h : ∀ l, s.leases.get? id = some l → id ∉ ids →
      (l.isActive && s.topology.chargesAt l.planeId i) = false) :
    returned s (ids ++ [id]) i = returned s ids i := by
  have hfilter : s.leases.entries.filter (returnsTo s.topology (ids ++ [id]) i) =
      s.leases.entries.filter (returnsTo s.topology ids i) := by
    refine List.filter_congr fun m hm => ?_
    unfold returnsTo
    by_cases hid : m.id = id
    · by_cases hin : id ∈ ids
      · simp [hid, hin]
      · have hoff := h m (KeyedMap.get?_eq_some.mpr ⟨hm, hid⟩) hin
        cases ha : m.isActive with
        | false => rfl
        | true =>
          rw [ha, Bool.true_and] at hoff
          rw [hoff, Bool.and_false, Bool.and_false]
    · simp only [mem_append_of_ne hid]
  rw [returned, returned, hfilter]

theorem returned_append (hl : s.leases.get? id = some l) (hnot : id ∉ ids)
    (ha : l.isActive = true) (hc : s.topology.chargesAt l.planeId i = true) :
    (returned s (ids ++ [id]) i).Perm (l.allocatedMemoryBytes.toNat :: returned s ids i) := by
  have hid : l.id = id := KeyedMap.get?_key hl
  refine (KeyedMap.filter_perm_cons hl ?_ ?_ fun m hm => ?_).map _
  · simp [returnsTo, ha, hid, hc]
  · simp [returnsTo, hid, hnot]
  · simp only [returnsTo, mem_append_of_ne hm]

theorem expire_id (ids : List LeaseId) (l : ComputeLease) : (expire ids l).id = l.id := by
  unfold expire
  split <;> rfl

theorem Released.entries_setState (h : Released s ids after) (hl : s.leases.get? id = some l)
    (hlive : l.isLive = true) (hnot : id ∉ ids) :
    (after.leases.setState id .expired).entries = s.leases.entries.map (expire (ids ++ [id])) := by
  show after.leases.entries.map (fun m => if m.id = id then m.withState .expired else m) = _
  rw [h.entries, List.map_map]
  refine List.map_congr_left fun m hm => ?_
  show (if (expire ids m).id = id then (expire ids m).withState .expired else expire ids m) = _
  rw [expire_id]
  by_cases hid : m.id = id
  · obtain rfl : m = l := Option.some.inj ((KeyedMap.get?_eq_some.mpr ⟨hm, hid⟩).symm.trans hl)
    simp [expire, hid, hnot, hlive]
  · rw [if_neg hid]
    simp only [expire, mem_append_of_ne hid]

theorem Released.entries_same (h : Released s ids after)
    (hdead : ∀ l, after.leases.get? id = some l → l.isLive = false) :
    s.leases.entries.map (expire (ids ++ [id])) = s.leases.entries.map (expire ids) := by
  refine List.map_congr_left fun m hm => ?_
  unfold expire
  by_cases hid : m.id = id
  · by_cases hin : id ∈ ids
    · simp [hid, hin]
    · have hoff := hdead m (h.get? (KeyedMap.get?_eq_some.mpr ⟨hm, hid⟩) hin)
      simp [hoff]
  · simp only [mem_append_of_ne hid]

theorem Released.release (h : Released s ids after) (id : LeaseId)
    (hfit : NoOverflow after (.release id)) :
    Released s (ids ++ [id]) (stepLease after (.release id)) := by
  have hlay := layout_of_bare h.bare
  show Released s (ids ++ [id]) (endLease .expired after id).state
  rcases endLease_cases .expired after id with ⟨r, he, hdead⟩ | ⟨l, hl, ha, he⟩ | ⟨l, hl, hp, he⟩
  · rw [he]
    refine ⟨h.entries.trans (h.entries_same hdead).symm, h.bare, fun i => ?_, h.registry⟩
    rw [h.available, returned_append_of_not fun l hl hnot => ?_]
    rw [isActive_of_not_live (hdead l (h.get? hl hnot)), Bool.false_and]
  · obtain ⟨hl₀, hnot⟩ := h.origin hl (isActive_isLive ha)
    rw [he]
    refine ⟨h.entries_setState hl₀ (isActive_isLive ha) hnot, ?_, fun i => ?_, h.registry⟩
    · exact (bare_restorePlaneMemory _ _).trans h.bare
    · rw [availableAt_restorePlaneMemory, chargesAt_congr hlay, totalAt_congr hlay]
      cases hc : s.topology.chargesAt l.planeId i with
      | false =>
        rw [if_neg Bool.false_ne_true, h.available, returned_append_of_not fun m hm _ => ?_]
        obtain rfl : m = l := Option.some.inj (hm.symm.trans hl₀)
        rw [hc, Bool.and_false]
      | true =>
        have hsum : (after.topology.availableAt i).toNat + l.allocatedMemoryBytes.toNat < 2 ^ 64 := by
          have hfit : Along creditStep CreditFits after.topology (endCredits after id) := hfit
          rw [endCredits, hl] at hfit
          simp only [ha, if_true] at hfit
          exact hfit.1.at ((chargesAt_congr hlay _ _).trans hc)
        rw [if_pos rfl, Nat.mod_eq_of_lt hsum, cappedSum_perm (returned_append hl₀ hnot ha hc),
          cappedSum_cons, h.available]
  · obtain ⟨hl₀, hnot⟩ := h.origin hl (preempted_isLive hp)
    rw [he]
    refine ⟨h.entries_setState hl₀ (preempted_isLive hp) hnot, h.bare, fun i => ?_, h.registry⟩
    rw [h.available, returned_append_of_not fun m hm _ => ?_]
    obtain rfl : m = l := Option.some.inj (hm.symm.trans hl₀)
    rw [preempted_inactive hp, Bool.false_and]

theorem Released.releases (h : Released s ids after) (js : List LeaseId)
    (hfit : Along stepLease NoOverflow after (releases js)) :
    Released s (ids ++ js) (exec stepLease after (Arbiter.releases js)) := by
  induction js generalizing ids after with
  | nil => rwa [List.append_nil]
  | cons j js ih =>
    have hrest := ih (h.release j hfit.1) hfit.2
    rwa [List.append_assoc, List.singleton_append] at hrest

/-! ### Order and repetition -/

theorem releaseLease_of_released (hid : id ∈ ids) (s : ArbiterState) :
    (releaseLease (exec stepLease s (releases ids)) id).state = exec stepLease s (releases ids) := by
  refine endLease_of_not_live .expired ?_
  rintro ⟨l, hl, hlive⟩
  exact (live_releases s ids hl hlive).2 hid

/-- Releasing the leases of a list leaves the same state in every order in which
no addition overflows, and a release that comes up again changes nothing. -/
theorem release_order_irrelevant (s : ArbiterState) :
    (∀ ids ids' : List LeaseId, ids.Perm ids' →
      Along stepLease NoOverflow s (releases ids) → Along stepLease NoOverflow s (releases ids') →
      exec stepLease s (releases ids) = exec stepLease s (releases ids')) ∧
    ∀ (ids : List LeaseId) (id : LeaseId), id ∈ ids →
      (releaseLease (exec stepLease s (releases ids)) id).state = exec stepLease s (releases ids) := by
  refine ⟨fun ids ids' hperm hfit hfit' => ?_, fun ids id hid => releaseLease_of_released hid s⟩
  have h := (released_nil s).releases ids hfit
  have h' := (released_nil s).releases ids' hfit'
  rw [List.nil_append] at h h'
  exact h.unique h' fun id => hperm.mem_iff

/-- A batch lease on the CPU plane, and two emergencies on the UMA plane that
together are more than it has. -/
def crowdedUma : ArbiterState :=
  exec stepLease (new umaTopology)
    [.acquire (sampleEnv 0) (sampleRequest .batch 2 "cpu-host"),
     .acquire (sampleEnv 1) (sampleRequest .emergencyTriage 4 "drm-renderD128"),
     .acquire (sampleEnv 2) (sampleRequest .emergencyTriage 7 "drm-renderD128")]

theorem release_order_irrelevant_crowdedUma :
    exec stepLease crowdedUma (releases [sampleId 2, sampleId 0, sampleId 3, sampleId 1, sampleId 0]) =
      exec stepLease crowdedUma
        (releases [sampleId 0, sampleId 1, sampleId 3, sampleId 0, sampleId 2]) ∧
    (releaseLease (exec stepLease crowdedUma (releases [sampleId 1])) (sampleId 1)).state =
      exec stepLease crowdedUma (releases [sampleId 1]) :=
  ⟨(release_order_irrelevant crowdedUma).1 _ _ (by decide) (by decide) (by decide),
    (release_order_irrelevant crowdedUma).2 [sampleId 1] (sampleId 1) (by decide)⟩

end Inferenced.Arbiter
