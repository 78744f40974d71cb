import Inferenced.Arbiter.Conservation
import Inferenced.Arbiter.LifeCycle

/-!
# A refresh of the topology and the releases after it

`update_topology` (arbiter.rs:29-50) debits a freshly measured availability with
saturation, `release_lease` (arbiter.rs:160-172) credits full sizes up to the
total. Once every lease is released a plane is back at the measured value if
its leases fit into that value, or if the value was the whole plane, so that the
cap takes the excess. No other plane gets back to it, unless a credit wraps
around.
-/

namespace Inferenced.Arbiter
open Lib Lib.Runs HardwareTopology

variable {T : HardwareTopology} {s : ArbiterState} {order : IterOrder ComputeLease} {p : String}
  {ids : List LeaseId}

/-! ### The refresh -/

theorem available_rebookLease (hd : T.Distinct) (acc : HardwareTopology × LeaseMap)
    (hlay : acc.1.layout = T.layout) (l : ComputeLease) (p : String) :
    (rebookLease acc l).1.available p = acc.1.available p - charge T p l := by
  obtain ⟨u, leases⟩ := acc
  simp only [rebookLease, charge]
  cases ha : l.isActive with
  | false =>
    simp only [Bool.false_eq_true, if_false, Bool.false_and, Nat.sub_zero]
    split <;> rfl
  | true =>
    simp only [if_true, Bool.true_and]
    cases hf : u.find? l.planeId with
    | some x =>
      rw [available_debitPlaneMemory (hd.congr hlay), charges_congr hlay]
      split <;> simp
    | none =>
      -- a lease of an unplugged plane is charged to no plane that has memory
      have huma : T.isUma l.planeId = false := by
        rw [← isUma_congr hlay, isUma, hf]
        rfl
      by_cases hq : l.planeId = p
      · subst hq
        simp [available, hf]
      · simp [charges, huma, hq]

theorem available_updateTopology (hd : T.Distinct) (s : ArbiterState)
    (order : IterOrder ComputeLease) (p : String) :
    (updateTopology s order T).topology.available p = T.available p - held T s.leases p := by
  have hfold : ∀ (ls : List ComputeLease) (acc : HardwareTopology × LeaseMap),
      acc.1.layout = T.layout → (ls.foldl rebookLease acc).1.available p =
        acc.1.available p - (ls.map (charge T p)).sum := by
    intro ls
    induction ls with
    | nil => exact fun acc _ => rfl
    | cons l ls ih =>
      intro acc hlay
      rw [List.foldl_cons, ih _ ((layout_rebookLease acc l).trans hlay),
        available_rebookLease hd acc hlay, List.map_cons, List.sum_cons]
      omega
  have hsum : ((order.order s.leases.entries).map (charge T p)).sum = held T s.leases p :=
    ((order.perm _).map _).sum_eq
  rw [← hsum]
  exact hfold _ (T, s.leases) rfl

theorem held_updateTopology (hp : T.find? p ≠ none) (s : ArbiterState)
    (order : IterOrder ComputeLease) :
    held T (updateTopology s order T).leases p = held T s.leases p := by
  unfold held KeyedMap.weight
  rw [updateTopology_entries, List.map_map]
  refine congrArg List.sum (List.map_congr_left fun l _ => ?_)
  rw [Function.comp_apply]
  split
  · rename_i hgone
    simp only [unplugged, Bool.and_eq_true, Option.isNone_iff_eq_none] at hgone
    have hne : l.planeId ≠ p := fun h => hp (h ▸ hgone.2)
    have huma : T.isUma l.planeId = false := by simp [isUma, hgone.2]
    simp [charge, charges, huma, hne, LeaseState.isActive]
  · rfl

theorem accountOf_updateTopology (hd : T.Distinct) (hp : T.find? p ≠ none) (s : ArbiterState)
    (order : IterOrder ComputeLease) :
    accountOf (updateTopology s order T) p =
      ⟨T.available p - held T s.leases p, held T s.leases p⟩ := by
  unfold accountOf account
  rw [available_updateTopology hd, held_congr (layout_updateTopology s order T),
    held_updateTopology hp]

/-! ### The releases -/

def releases (ids : List LeaseId) : List LeaseOp := ids.map .release

theorem layout_releases (s : ArbiterState) (ids : List LeaseId) :
    (exec stepLease s (releases ids)).topology.layout = s.topology.layout :=
  exec_inv (fun u => u.topology.layout = s.topology.layout)
    (fun u op h => (layout_stepLease u op).trans h) s (releases ids) rfl

theorem live_releases {id : LeaseId} {l : ComputeLease} (s : ArbiterState) (ids : List LeaseId)
    (hl : (exec stepLease s (releases ids)).leases.get? id = some l) (hlive : l.isLive = true) :
    s.leases.get? id = some l ∧ id ∉ ids := by
  induction ids generalizing s with
  | nil => exact ⟨hl, List.not_mem_nil⟩
  | cons j ids ih =>
    obtain ⟨hl₁, hnot⟩ := ih (stepLease s (.release j)) hl
    have hj : id ≠ j := by
      rintro rfl
      exact not_live_endLease .expired rfl s id ⟨l, hl₁, hlive⟩
    refine ⟨?_, fun h => (List.mem_cons.mp h).elim hj hnot⟩
    rcases endLease_lease .expired s j id with h | ⟨m, hid, -, -, -⟩
    · exact h.symm.trans hl₁
    · exact absurd hid hj

/-- An invariant of the account of `p` that may depend on the leases released so
far. -/
theorem account_releases (I : List LeaseId → Account → Prop) (s : ArbiterState)
    (hd : s.topology.Distinct) (ids : List LeaseId)
    (hkeep : ∀ before id a, I before a → I (before ++ [id]) a)
    (hgive : ∀ before id after l a, ids = before ++ id :: after → I before a →
      s.leases.get? id = some l → l.isActive = true → s.topology.charges l.planeId p = true →
      l.allocatedMemoryBytes.toNat ≤ a.held →
      I (before ++ [id]) (a.give (2 ^ 64) (s.topology.total p) l.allocatedMemoryBytes.toNat))
    (h : I [] (accountOf s p)) : I ids (accountOf (exec stepLease s (releases ids)) p) := by
  induction ids using List.reverseRecOn with
  | nil => exact h
  | append_singleton ids j ih =>
    have hbefore : I ids (accountOf (exec stepLease s (releases ids)) p) := by
      refine ih fun before id after l a heq => hgive before id (after ++ [j]) l a ?_
      rw [heq, List.append_assoc]
      rfl
    have hlay := layout_releases s ids
    simp only [releases, List.map_append, List.map_cons, List.map_nil, exec_append] at hbefore ⊢
    rcases accountOf_endLease .expired rfl (hd.congr hlay) j p with ⟨he, -⟩ | ⟨l, hl, ha, hch, he⟩
    · exact he.symm ▸ hkeep ids j _ hbefore
    · refine he.symm ▸ ?_
      have horigin := (live_releases s ids hl (isActive_isLive ha)).1
      rw [charges_congr hlay] at hch
      rw [total_congr hlay]
      exact hgive ids j [] l _ rfl hbefore horigin ha hch
        (charge_le_held hl ha ((charges_congr hlay _ _).trans hch))

def activeIds (s : ArbiterState) : List LeaseId :=
  (s.leases.entries.filter (·.isActive)).map (·.id)

theorem held_releases (hids : ids.Perm (activeIds s)) (t : HardwareTopology) :
    held t (exec stepLease s (releases ids)).leases p = 0 := by
  refine KeyedMap.weight_eq_zero _ fun l hl => ?_
  have hinactive : l.isActive = false := by
    cases ha : l.isActive with
    | false => rfl
    | true =>
      obtain ⟨hb, hnot⟩ := live_releases s ids (KeyedMap.get?_of_mem hl) (isActive_isLive ha)
      refine absurd (hids.mem_iff.mpr ?_) hnot
      exact List.mem_map.mpr ⟨l, List.mem_filter.mpr ⟨(KeyedMap.get?_eq_some.mp hb).1, ha⟩, rfl⟩
  simp [charge, hinactive]

/-! ### Refresh, then release everything -/

/-- Once the active leases are released, every plane has the availability that
the refresh reported. -/
def RefreshRestores (s : ArbiterState) (order : IterOrder ComputeLease) (T : HardwareTopology)
    (ids : List LeaseId) : Prop :=
  ∀ p ∈ T.planes, (exec stepLease (updateTopology s order T) (releases ids)).topology.available p.id =
    p.availableMemoryBytes.toNat

/-- What the active leases among `ids` give back to plane `p`. -/
def givenBack (T : HardwareTopology) (s : ArbiterState) (p : String) (ids : List LeaseId) : ℕ :=
  (ids.map fun id => ((s.leases.get? id).map (charge T p)).getD 0).sum

/-- No more than this is available on `p` after the refresh and the releases of
`ids`, as long as no sum wraps. -/
def availableThen (T : HardwareTopology) (s : ArbiterState) (p : ComputePlane) (ids : List LeaseId) : ℕ :=
  min p.totalMemoryBytes.toNat
    (p.availableMemoryBytes.toNat - held T s.leases p.id + givenBack T s p.id ids)

/-- No release, in the order of `ids`, adds the size of a lease charged to `p` to
`2 ^ 64` or more. -/
def CreditsBelow (T : HardwareTopology) (s : ArbiterState) (ids : List LeaseId) (p : ComputePlane) : Prop :=
  ∀ before id after l, ids = before ++ id :: after → s.leases.get? id = some l → l.isActive = true →
    T.charges l.planeId p.id = true →
    availableThen T s p before + l.allocatedMemoryBytes.toNat < 2 ^ 64

/-- The leases charged to a plane fit into what the refresh reports, or the
plane is reported free. -/
def RefreshFits (T : HardwareTopology) (s : ArbiterState) (ids : List LeaseId) : Prop :=
  ∀ p ∈ T.planes, held T s.leases p.id ≤ p.availableMemoryBytes.toNat ∨
    p.availableMemoryBytes = p.totalMemoryBytes ∧ CreditsBelow T s ids p

theorem givenBack_concat (T : HardwareTopology) (s : ArbiterState) (p : String) (ids : List LeaseId)
    (id : LeaseId) :
    givenBack T s p (ids ++ [id]) = givenBack T s p ids + ((s.leases.get? id).map (charge T p)).getD 0 := by
  rw [givenBack, List.map_append, List.sum_append]
  rfl

section
variable {plane : ComputePlane}

/-- What an invariant of the account of a plane says in the end, when no lease is
left. -/
theorem account_refresh (hw : T.WellFormed) (hplane : plane ∈ T.planes)
    (I : List LeaseId → Account → Prop) (hkeep : ∀ before id a, I before a → I (before ++ [id]) a)
    (hgive : ∀ before id after l a, ids = before ++ id :: after → I before a →
      s.leases.get? id = some l → l.isActive = true → T.charges l.planeId plane.id = true →
      l.allocatedMemoryBytes.toNat ≤ a.held →
      I (before ++ [id]) (a.give (2 ^ 64) plane.totalMemoryBytes.toNat l.allocatedMemoryBytes.toNat))
    (hstart : I [] ⟨plane.availableMemoryBytes.toNat - held T s.leases plane.id,
      held T s.leases plane.id⟩)
    (hids : ids.Perm (activeIds (updateTopology s order T))) :
    I ids ⟨(exec stepLease (updateTopology s order T) (releases ids)).topology.available plane.id, 0⟩ := by
  have hfind := find?_of_mem hw.distinct hplane
  have hlay := layout_updateTopology s order T
  have hend := account_releases (p := plane.id) I (updateTopology s order T)
    (hw.distinct.congr hlay) ids hkeep ?_ ?_
  · simpa only [accountOf, account, held_releases hids] using hend
  · intro before id after l a hsplit ha hl hact hch hheld
    rw [charges_congr hlay] at hch
    rw [total_congr hlay, show T.total plane.id = plane.totalMemoryBytes.toNat by simp [total, hfind]]
    rcases updateTopology_lease s order T id with he | ⟨m, -, -, -, he⟩
    · exact hgive before id after l a hsplit ha (he ▸ hl) hact hch hheld
    · rw [he] at hl
      cases hl
      cases hact
  · rw [accountOf_updateTopology hw.distinct (by simp [hfind]), available_of_mem hw.distinct hplane]
    exact hstart

theorem refresh_restores_of_fits (hw : T.WellFormed) (hplane : plane ∈ T.planes)
    (hfit : held T s.leases plane.id ≤ plane.availableMemoryBytes.toNat)
    (hids : ids.Perm (activeIds (updateTopology s order T))) :
    (exec stepLease (updateTopology s order T) (releases ids)).topology.available plane.id =
      plane.availableMemoryBytes.toNat := by
  have hle := UInt64.le_iff_toNat_le.mp (hw.available_le plane hplane)
  have hlt := plane.availableMemoryBytes.toNat_lt
  have := account_refresh hw hplane (fun _ => Account.Exact plane.availableMemoryBytes.toNat)
    (fun _ _ _ h => h) (fun _ _ _ _ _ _ ha _ _ _ hheld => ha.give hheld hle hlt)
    (by unfold Account.Exact; dsimp only; omega) hids
  simpa [Account.Exact] using this

/-- Without a wrap, a plane ends with what was reported or with what its leases
held, whichever is more, up to its total. -/
theorem available_refresh (hw : T.WellFormed) (hplane : plane ∈ T.planes)
    (hbelow : CreditsBelow T s ids plane) (hids : ids.Perm (activeIds (updateTopology s order T))) :
    (exec stepLease (updateTopology s order T) (releases ids)).topology.available plane.id =
      min plane.totalMemoryBytes.toNat (max plane.availableMemoryBytes.toNat (held T s.leases plane.id)) := by
  have hle := UInt64.le_iff_toNat_le.mp (hw.available_le plane hplane)
  have hend := account_refresh hw hplane
    (fun before => Account.Refunded ⟨plane.availableMemoryBytes.toNat - held T s.leases plane.id,
      held T s.leases plane.id⟩ plane.totalMemoryBytes.toNat (givenBack T s plane.id before))
    ?_ ?_ (Account.refunded_start _ ((Nat.sub_le _ _).trans hle)) hids
  · have hfree := hend.free
    dsimp only at hfree
    omega
  · intro before id a ha
    rw [givenBack_concat]
    exact ha.mono (Nat.le_add_right _ _)
  · intro before id after l a hsplit ha hl hact hch hheld
    have hcharge : ((s.leases.get? id).map (charge T plane.id)).getD 0 = l.allocatedMemoryBytes.toNat := by
      simp [hl, charge, hact, hch]
    rw [givenBack_concat, hcharge]
    exact ha.give hheld (hbelow before id after l hsplit hl hact hch)

end

/-- A refresh loses and creates no memory: in every state and for every refreshed
topology with distinct ids and no more available than there is, the releases of
the leases still active, in any order, bring every plane back to the reported
availability if `RefreshFits`; and where no credit in this order reaches
`2 ^ 64`, only then. -/
theorem refresh_restores_iff (hw : T.WellFormed) (s : ArbiterState)
    (order : IterOrder ComputeLease) (ids : List LeaseId)
    (hids : ids.Perm (activeIds (updateTopology s order T))) :
    (RefreshFits T s ids → RefreshRestores s order T ids) ∧
    ((∀ p ∈ T.planes, CreditsBelow T s ids p) → RefreshRestores s order T ids → RefreshFits T s ids) := by
  constructor
  · intro hfits plane hplane
    rcases hfits plane hplane with hfit | ⟨hfull, hbelow⟩
    · exact refresh_restores_of_fits hw hplane hfit hids
    · rw [available_refresh hw hplane hbelow hids, ← hfull]
      exact Nat.min_eq_left (Nat.le_max_left _ _)
  · intro hbelow hrestores plane hplane
    have hend := hrestores plane hplane
    rw [available_refresh hw hplane (hbelow plane hplane) hids] at hend
    by_cases hfit : held T s.leases plane.id ≤ plane.availableMemoryBytes.toNat
    · exact Or.inl hfit
    · -- an overdrawn plane is only held at the reported value by its total
      have hfull : plane.availableMemoryBytes.toNat = plane.totalMemoryBytes.toNat := by omega
      exact Or.inr ⟨UInt64.toNat_inj.mp hfull, hbelow plane hplane⟩

def leasedGpu : ArbiterState :=
  exec step (new gpuTopology)
    [.lease (.acquire (sampleEnv 0) (sampleRequest .interactive 6 "gpu0"))]

def measuredGpu (available : UInt64) : HardwareTopology :=
  sampleTopology [samplePlane "gpu0" .discreteGpu 10 available]

theorem measuredGpu_wellFormed {available : UInt64} (h : available ≤ 10) :
    (measuredGpu available).WellFormed := by
  refine ⟨List.nodup_singleton _, fun p hp => ?_⟩
  rw [List.mem_singleton.mp hp]
  exact h

theorem measuredGpu_fits : RefreshFits (measuredGpu 8) leasedGpu [sampleId 0] := by
  intro p hp
  rw [List.mem_singleton.mp hp]
  exact Or.inl (by decide)

theorem refresh_restores_iff_leasedGpu :
    RefreshFits (measuredGpu 8) leasedGpu [sampleId 0] ∧
      RefreshRestores leasedGpu IterOrder.stored (measuredGpu 8) [sampleId 0] :=
  ⟨measuredGpu_fits, (refresh_restores_iff (measuredGpu_wellFormed (by decide)) leasedGpu
    IterOrder.stored [sampleId 0] (by decide)).1 measuredGpu_fits⟩

/-- Four bytes are measured free while six are leased: the refresh takes the
four, the release gives six back. -/
theorem refresh_creates_memory :
    (measuredGpu 4).WellFormed ∧
      [sampleId 0].Perm (activeIds (updateTopology leasedGpu IterOrder.stored (measuredGpu 4))) ∧
      (exec stepLease (updateTopology leasedGpu IterOrder.stored (measuredGpu 4))
        (releases [sampleId 0])).topology.available "gpu0" = 6 ∧
      ¬ RefreshRestores leasedGpu IterOrder.stored (measuredGpu 4) [sampleId 0] := by
  refine ⟨measuredGpu_wellFormed (by decide), by decide, by decide, fun h => ?_⟩
  exact absurd (h (samplePlane "gpu0" .discreteGpu 10 4) (by decide)) (by decide)

end Inferenced.Arbiter
