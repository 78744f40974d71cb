import Inferenced.Arbiter.Room
import Inferenced.Lib.Account

/-!
# The memory account of a plane

The account of plane `p` has the reported availability as its free part and
the bytes of the active leases charged to `p` as its held part. Every write of
the arbiter is a `take` or a `give` on the accounts it is charged to and
nothing on the others. `Exact` and `Covered` along a lease operation then are
facts about accounts.
-/

namespace Inferenced.Arbiter
open Lib HardwareTopology

def charge (t : HardwareTopology) (p : String) (l : ComputeLease) : ℕ :=
  if l.isActive && t.charges l.planeId p then l.allocatedMemoryBytes.toNat else 0

/-- Bytes of all active leases charged to plane `p`. -/
def held (t : HardwareTopology) (leases : LeaseMap) (p : String) : ℕ := leases.weight (charge t p)

def account (t : HardwareTopology) (leases : LeaseMap) (p : String) : Account :=
  ⟨t.available p, held t leases p⟩

/-- Account of plane `p` in an arbiter state. -/
def accountOf (s : ArbiterState) (p : String) : Account := account s.topology s.leases p

variable {t t' : HardwareTopology} {leases : LeaseMap} {id : LeaseId} {l : ComputeLease}
  {st : LeaseState} {p : String}

theorem held_congr (h : t'.layout = t.layout) (leases : LeaseMap) (p : String) :
    held t' leases p = held t leases p := by
  unfold held
  refine KeyedMap.weight_congr _ fun l _ => ?_
  simp only [charge, charges_congr h]

theorem charge_le_held (hl : leases.get? id = some l) (ha : l.isActive = true)
    (hc : t.charges l.planeId p = true) : l.allocatedMemoryBytes.toNat ≤ held t leases p := by
  have h : charge t p l ≤ held t leases p := KeyedMap.le_weight (charge t p) hl
  simpa [charge, ha, hc] using h

theorem held_setState (t : HardwareTopology) (st : LeaseState) (p : String)
    (hl : leases.get? id = some l) :
    held t (leases.setState id st) p + charge t p l =
      held t leases p + charge t p (l.withState st) :=
  KeyedMap.weight_modify (charge t p) _ _ hl

/-! ### Effect of the single writes -/

theorem account_credit (st : LeaseState) (p : String) (hd : t.Distinct)
    (hl : leases.get? id = some l) (ha : l.isActive = true) (hst : st.isActive = false) :
    account (restorePlaneMemory t l.planeId l.allocatedMemoryBytes) (leases.setState id st) p =
      if t.charges l.planeId p then
        (account t leases p).give (2 ^ 64) (t.total p) l.allocatedMemoryBytes.toNat
      else account t leases p := by
  have hheld := held_setState t st p hl
  simp only [charge, ha, ComputeLease.withState_isActive, hst, Bool.true_and, Bool.false_and,
    Bool.false_eq_true, if_false] at hheld
  unfold account Account.give
  rw [available_restorePlaneMemory hd, held_congr (layout_restorePlaneMemory _ _)]
  cases hc : t.charges l.planeId p with
  | true =>
    simp only [hc, if_true] at hheld ⊢
    congr 1
    omega
  | false =>
    simp only [hc, Bool.false_eq_true, if_false] at hheld ⊢
    congr 1

theorem account_setState (hl : leases.get? id = some l) (hst : st.isActive = l.isActive) :
    account t (leases.setState id st) p = account t leases p := by
  have hheld := held_setState t st p hl
  have hcharge : charge t p (l.withState st) = charge t p l := by
    simp only [charge, ComputeLease.withState_isActive, hst, ComputeLease.withState_planeId,
      ComputeLease.withState_bytes]
  unfold account
  congr 1
  omega

theorem account_debit (st : LeaseState) (p : String) (hd : t.Distinct)
    (hl : leases.get? id = some l) (ha : l.isActive = false) (hst : st.isActive = true) :
    account (debitPlaneMemory t l.planeId l.allocatedMemoryBytes) (leases.setState id st) p =
      if t.charges l.planeId p then (account t leases p).take l.allocatedMemoryBytes.toNat
      else account t leases p := by
  have hheld := held_setState t st p hl
  simp only [charge, ha, ComputeLease.withState_isActive, hst, Bool.true_and, Bool.false_and,
    Bool.false_eq_true, if_false, ComputeLease.withState_planeId,
    ComputeLease.withState_bytes] at hheld
  unfold account Account.take
  rw [available_debitPlaneMemory hd, held_congr (layout_debitPlaneMemory _ _)]
  cases hc : t.charges l.planeId p with
  | true =>
    simp only [hc, if_true] at hheld ⊢
    congr 1
  | false =>
    simp only [hc, Bool.false_eq_true, if_false] at hheld ⊢
    congr 1

theorem account_insert (hd : t.Distinct) (hl : leases.get? l.id = none) (ha : l.isActive = true)
    {q : String} (hq : l.planeId = q) {b : UInt64} (hb : l.allocatedMemoryBytes = b) :
    account (debitPlaneMemory t q b) (leases.insert l) p =
      if t.charges q p then (account t leases p).take b.toNat else account t leases p := by
  subst hq hb
  unfold account Account.take
  rw [available_debitPlaneMemory hd, held_congr (layout_debitPlaneMemory _ _)]
  unfold held
  rw [KeyedMap.weight_insert _ _ _ hl]
  cases hc : t.charges l.planeId p <;> simp [charge, ha, hc]

theorem isActive_isLive (h : l.isActive = true) : l.isLive = true := by
  simp only [ComputeLease.isActive] at h
  simp [ComputeLease.isLive, LeaseState.isLive, h]

theorem isActive_of_not_live (h : l.isLive = false) : l.isActive = false := by
  cases ha : l.isActive with
  | false => rfl
  | true => rw [isActive_isLive ha] at h; cases h

theorem preempted_isLive (h : l.state = .preempted) : l.isLive = true := by
  rw [ComputeLease.isLive, h]
  rfl

theorem preempted_inactive (h : l.state = .preempted) : l.isActive = false := by
  rw [ComputeLease.isActive, h]
  rfl

theorem account_collectGarbage : account t (collectGarbage leases) p = account t leases p := by
  unfold collectGarbage
  split
  · unfold account held
    rw [KeyedMap.weight_retain]
    intro v _ hlive
    simp [charge, isActive_of_not_live hlive]
  · rfl

/-! ### Making room and granting -/

variable {s : ArbiterState} {env : CallEnv} {req : LeaseRequest} {idx : ℕ} {c : ℕ}

/-- Making room gives memory back: what every `give` within the capacity keeps
is kept. -/
theorem account_makeRoom (I : Account → Prop) (hd : s.topology.Distinct)
    (hgive : ∀ a l, I a → Victim s.leases (s.topology.planeIdAt idx) req.priority l →
      l.allocatedMemoryBytes.toNat ≤ a.held →
      s.topology.charges (s.topology.planeIdAt idx) p = true →
      I (a.give (2 ^ 64) (s.topology.total p) l.allocatedMemoryBytes.toNat))
    (h : I (accountOf s p)) :
    I (account (makeRoom s env req idx).topology (makeRoom s env req idx).leases p) := by
  refine (makeRoom_rule (fun r => r.topology.layout = s.topology.layout ∧
    I (account r.topology r.leases p)) ⟨rfl, h⟩ ?_).2
  rintro r l ⟨hlay, hI⟩ hv₀ hv -
  refine ⟨by simp only [Preemption.preempt, layout_restorePlaneMemory, hlay], ?_⟩
  have hcredit := account_credit .preempted p (hd.congr hlay) hv.stored hv.active rfl
  rw [hv.onTarget] at hcredit
  simp only [Preemption.preempt]
  rw [hcredit, charges_congr hlay, total_congr hlay]
  split
  · rename_i hc
    refine hgive _ _ hI hv₀ ?_ hc
    refine charge_le_held hv.stored hv.active ?_
    rw [hv.onTarget, charges_congr hlay]
    exact hc
  · exact hI

theorem get?_makeRoom_none (h : s.leases.get? id = none) :
    (makeRoom s env req idx).leases.get? id = none := by
  refine makeRoom_rule (fun r => r.leases.get? id = none) h fun r l hr _ _ _ => ?_
  simp only [Preemption.preempt, get?_setState, hr, Option.map_none, ite_self]

theorem get?_collectGarbage_none (h : leases.get? id = none) :
    (collectGarbage leases).get? id = none := by
  unfold collectGarbage
  split
  · rw [KeyedMap.get?_retain, h]
    rfl
  · exact h

theorem account_grant (hd : s.topology.Distinct) (hi : idx < s.topology.planes.length)
    (hfresh : s.leases.get? env.newId = none) :
    accountOf (grant s (makeRoom s env req idx) env req idx).state p =
      if s.topology.charges (s.topology.planeIdAt idx) p then
        (account (makeRoom s env req idx).topology (makeRoom s env req idx).leases p).take
          req.requiredBytes.toNat
      else account (makeRoom s env req idx).topology (makeRoom s env req idx).leases p := by
  have hlay : (makeRoom s env req idx).topology.layout = s.topology.layout := layout_makeRoom
  have hd' := hd.congr hlay
  have hi' : idx < (makeRoom s env req idx).topology.planes.length := by
    rw [length_congr hlay]
    exact hi
  have hnone : (collectGarbage (makeRoom s env req idx).leases).get? env.newId = none :=
    get?_collectGarbage_none (get?_makeRoom_none hfresh)
  unfold accountOf grant
  dsimp only
  rw [debitTarget_eq hd' hi', planeIdAt_congr hlay,
    account_insert (q := s.topology.planeIdAt idx) (b := req.requiredBytes) hd' hnone rfl rfl rfl,
    charges_congr hlay, account_collectGarbage]

/-! ### The other operations -/

theorem accountOf_endLease (final : LeaseState) (hfinal : final.isActive = false)
    (hd : s.topology.Distinct) (id : LeaseId) (p : String) :
    (accountOf (endLease final s id).state p = accountOf s p ∧
      ∀ l, s.leases.get? id = some l → l.isActive = true → s.topology.charges l.planeId p = false) ∨
    ∃ l, s.leases.get? id = some l ∧ l.isActive = true ∧ s.topology.charges l.planeId p = true ∧
      accountOf (endLease final s id).state p =
        (accountOf s p).give (2 ^ 64) (s.topology.total p) l.allocatedMemoryBytes.toNat := by
  rcases endLease_cases final s id with ⟨r, he, hdead⟩ | ⟨l, hl, ha, he⟩ | ⟨l, hl, hp, he⟩ <;> rw [he]
  · refine Or.inl ⟨rfl, fun l hl ha => ?_⟩
    rw [isActive_of_not_live (hdead l hl)] at ha
    cases ha
  · have hacc := account_credit final p hd hl ha hfinal
    by_cases hch : s.topology.charges l.planeId p = true
    · rw [if_pos hch] at hacc
      exact Or.inr ⟨l, hl, ha, hch, hacc⟩
    · rw [if_neg hch] at hacc
      refine Or.inl ⟨hacc, fun m hm _ => ?_⟩
      rw [hl] at hm
      cases hm
      exact Bool.eq_false_iff.mpr hch
  · refine Or.inl ⟨account_setState hl (hfinal.trans (preempted_inactive hp).symm),
      fun m hm ha => ?_⟩
    rw [hl] at hm
    cases hm
    rw [preempted_inactive hp] at ha
    cases ha

theorem accountOf_markLease (mark : LeaseState) (hmark : mark.isActive = true) :
    accountOf (markLease mark s id).state p = accountOf s p := by
  rcases markLease_cases mark s id with ⟨r, he, -⟩ | ⟨l, hl, ha, he⟩ <;> rw [he]
  exact account_setState hl (hmark.trans ha.symm)

theorem ThawFits.le_available (hd : t.Distinct) (h : ThawFits t l)
    (hc : t.charges l.planeId p = true) : l.allocatedMemoryBytes.toNat ≤ t.available p := by
  obtain ⟨⟨plane, hfind, hle⟩, hcpu⟩ := h
  simp only [charges, Bool.or_eq_true, decide_eq_true_eq, Bool.and_eq_true] at hc
  rcases hc with rfl | ⟨huma, hid⟩
  · rw [UInt64.le_iff_toNat_le] at hle
    simpa [available, hfind] using hle
  · obtain ⟨cpu, hget, rfl⟩ := Option.map_eq_some_iff.mp hid
    rw [available_of_mem hd (List.mem_of_find?_eq_some hget), ← UInt64.le_iff_toNat_le]
    simp only [cpuShortage, huma, hget, if_true] at hcpu
    by_contra hlt
    rw [Option.filter_some_pos (by simpa using hlt)] at hcpu
    cases hcpu

theorem accountOf_thawLease (hd : s.topology.Distinct) (id : LeaseId) (p : String) :
    accountOf (thawLease s id).state p = accountOf s p ∨
    ∃ l, s.leases.get? id = some l ∧ l.state = .preempted ∧
      s.topology.charges l.planeId p = true ∧
      l.allocatedMemoryBytes.toNat ≤ (accountOf s p).free ∧
      accountOf (thawLease s id).state p = (accountOf s p).take l.allocatedMemoryBytes.toNat := by
  rcases thawLease_cases s id with
    ⟨e, he, -⟩ | ⟨l, hl, hp, hfit, he⟩ | ⟨l, hl, hst, he⟩ | ⟨l, -, -, he⟩ <;> rw [he]
  · exact Or.inl rfl
  · have ha := preempted_inactive hp
    have hacc := account_debit .active p hd hl ha rfl
    by_cases hch : s.topology.charges l.planeId p = true
    · rw [if_pos hch] at hacc
      exact Or.inr ⟨l, hl, hp, hch, hfit.le_available hd hch, hacc⟩
    · rw [if_neg hch] at hacc
      exact Or.inl hacc
  · refine Or.inl (account_setState hl ?_)
    rcases hst with hst | hst <;> rw [ComputeLease.isActive, hst] <;> rfl
  · exact Or.inl rfl

end Inferenced.Arbiter
