import Inferenced.Arbiter.Conservation

/-!
# Forced grants and the memory they leave behind

A forced grant debits its plane with saturation (arbiter.rs:135-137) and its
release credits the full size (arbiter.rs:236-246). As long as no credit hits
an overdrawn plane, a plane reports exactly what its active leases leave of its
initial availability (`Covered`). Preemption never credits an overdrawn plane:
the forced grant that overdrew it has taken every lower lease, and nothing but
another emergency gets in before the plane has recovered. What is left are the
releases and revocations, and the cap at the capacity of the plane hides the
excess credit of a release in one case only, `CreditMatches`.
-/

namespace Inferenced.Arbiter
open Lib Lib.Runs HardwareTopology

variable {T : HardwareTopology} {s : ArbiterState} {env : CallEnv} {req : LeaseRequest} {idx : ℕ}
  {id : LeaseId} {p : String} {c : ℕ} {used : List LeaseId}

/-- No plane reports more than its active leases leave of its initial
availability. -/
def NoMemoryCreated (T : HardwareTopology) (s : ArbiterState) : Prop :=
  ∀ p ∈ T.planes, s.topology.available p.id ≤ p.availableMemoryBytes.toNat - activeBytes s p.id

/-- The memory that the end of lease `l` gives back was taken when `l` was
granted: `l` has no bytes, its plane is not overdrawn, the plane has no
capacity, or `l` is all that is held on a plane that was free at the start. -/
def CreditMatches (T : HardwareTopology) (s : ArbiterState) (l : ComputeLease) : Prop :=
  l.allocatedMemoryBytes.toNat = 0 ∨ activeBytes s l.planeId ≤ T.available l.planeId ∨
    T.total l.planeId = 0 ∨
    activeBytes s l.planeId = l.allocatedMemoryBytes.toNat ∧
      T.total l.planeId = T.available l.planeId

/-- No release or revocation credits an overdrawn plane. -/
def CreditsCovered (T : HardwareTopology) (s : ArbiterState) : LeaseOp → Prop
  | .release id | .revoke id => ∀ l, s.leases.get? id = some l → l.isActive = true →
      CreditMatches T s l
  | _ => True

/-- The invariant of the covered runs. An overdrawn plane has no bytes out to
any lease but emergencies. -/
structure Drawn (T : HardwareTopology) (used : List LeaseId) (s : ArbiterState) : Prop
    extends Started T used s where
  covered : ∀ p, (accountOf s p).Covered (T.available p)
  emergency : ∀ p, T.available p < (accountOf s p).held → ∀ id l, s.leases.get? id = some l →
    l.isActive = true → l.planeId = p → l.priority ≠ .emergencyTriage →
    l.allocatedMemoryBytes.toNat = 0

theorem drawn_new (T : HardwareTopology) : Drawn T [] (new T) :=
  ⟨started_new T, fun p => by simp [accountOf_new, Account.Covered],
    fun p h => absurd h (by simp [accountOf_new])⟩

/-! ### Acquisition -/

theorem Drawn.total (hw : T.WellFormed) (h : Drawn T used s) (p : String) :
    T.available p ≤ s.topology.total p := by
  rw [total_congr h.layout]
  exact hw.available_le_total p

theorem Drawn.covered_makeRoom (hw : T.WellFormed) (hsole : ∀ p, Sole T p) (h : Drawn T used s)
    (p : String) :
    (account (makeRoom s env req idx).topology (makeRoom s env req idx).leases p).Covered
      (T.available p) := by
  have hd := hw.distinct.congr h.layout
  have hlt : ∀ l : ComputeLease, l.allocatedMemoryBytes.toNat < 2 ^ 64 :=
    fun l => l.allocatedMemoryBytes.toNat_lt
  by_cases hover : T.available p < (accountOf s p).held
  · -- an overdrawn plane gets nothing back: its victims have no bytes
    refine account_makeRoom (Account.Covered (T.available p)) hd ?_ (h.covered p)
    intro a l ha hv hle hch
    rw [(hsole p).congr h.layout, decide_eq_true_eq] at hch
    have hne : l.priority ≠ .emergencyTriage := fun he =>
      LeasePriority.emergency_not_lt req.priority (he ▸ hv.lower)
    have hzero := h.emergency p hover l.id l hv.stored hv.active (hv.onTarget.trans hch) hne
    exact ha.give hle (h.total hw p) (hlt l) (available_lt T p) (Or.inl hzero)
  · refine (account_makeRoom (fun a => a.Covered (T.available p) ∧ a.held ≤ T.available p) hd ?_
      ⟨h.covered p, not_lt.mp hover⟩).1
    intro a l ha _ hle _
    refine ⟨ha.1.give hle (h.total hw p) (hlt l) (available_lt T p) (Or.inr (Or.inl ha.2)), ?_⟩
    exact (Nat.sub_le _ _).trans ha.2

theorem held_makeRoom_le (hd : s.topology.Distinct) (p : String) :
    (account (makeRoom s env req idx).topology (makeRoom s env req idx).leases p).held ≤
      (accountOf s p).held :=
  account_makeRoom (fun a => a.held ≤ (accountOf s p).held) hd
    (fun _ _ ha _ _ _ => (Nat.sub_le _ _).trans ha) (Nat.le_refl _)

theorem Drawn.covered_acquire (hw : T.WellFormed) (hsole : ∀ p, Sole T p) (h : Drawn T used s)
    (hfresh : s.leases.get? env.newId = none) (p : String) :
    (accountOf (acquireLease s env req).state p).Covered (T.available p) := by
  have hd := hw.distinct.congr h.layout
  rcases acquireLease_cases s env req with
    ⟨-, e, he⟩ | ⟨-, idx, e, -, -, he⟩ | ⟨idx, hadm, he⟩ <;> rw [he]
  · exact h.covered p
  · exact h.covered_makeRoom hw hsole p
  · have hroom : (account (makeRoom s env req idx).topology (makeRoom s env req idx).leases
        p).Covered (T.available p) := h.covered_makeRoom hw hsole p
    rw [account_grant hd (targetPlaneIdx_lt hadm.target) hfresh]
    split
    · exact hroom.take _
    · exact hroom

theorem Drawn.held_grant_le (hw : T.WellFormed) (hsole : ∀ p, Sole T p) (h : Drawn T used s)
    (hfresh : s.leases.get? env.newId = none) (hadm : Admitted s env req idx)
    (hroom : ¬ Exhausted s env req idx) (hpos : 0 < req.requiredBytes.toNat) :
    (accountOf (acquireLease s env req).state (s.topology.planeIdAt idx)).held ≤
      T.available (s.topology.planeIdAt idx) := by
  have hd := hw.distinct.congr h.layout
  have hi := targetPlaneIdx_lt hadm.target
  have hlay : (makeRoom s env req idx).topology.layout = s.topology.layout := layout_makeRoom
  rw [acquireLease_of_admitted hadm, account_grant hd hi hfresh, if_pos (charges_self _ _)]
  refine (h.covered_makeRoom hw hsole _).held_take_le ?_ hpos
  rw [Exhausted, UInt64.lt_iff_toNat_lt, available_at (hd.congr hlay)
    (by rwa [length_congr hlay]), planeIdAt_congr hlay] at hroom
  exact not_lt.mp hroom

theorem Drawn.held_acquire (hw : T.WellFormed) (hsole : ∀ p, Sole T p) (h : Drawn T used s)
    (hfresh : s.leases.get? env.newId = none) (p : String) :
    (accountOf (acquireLease s env req).state p).held ≤ max (accountOf s p).held (T.available p) ∨
    ∃ idx, Admitted s env req idx ∧ Exhausted s env req idx ∧ s.topology.planeIdAt idx = p := by
  have hd := hw.distinct.congr h.layout
  rcases acquireLease_cases s env req with
    ⟨-, e, he⟩ | ⟨-, idx, e, -, -, he⟩ | ⟨idx, hadm, he⟩
  · rw [he]
    exact Or.inl (le_max_left _ _)
  · rw [he]
    exact Or.inl ((held_makeRoom_le hd p).trans (le_max_left _ _))
  · by_cases hp : s.topology.planeIdAt idx = p
    · by_cases hx : Exhausted s env req idx
      · exact Or.inr ⟨idx, hadm, hx, hp⟩
      · refine Or.inl ?_
        by_cases hpos : 0 < req.requiredBytes.toNat
        · subst hp
          exact (h.held_grant_le hw hsole hfresh hadm hx hpos).trans (le_max_right _ _)
        · rw [he, account_grant hd (targetPlaneIdx_lt hadm.target) hfresh,
            if_pos (by rw [hp]; exact charges_self _ _), Nat.eq_zero_of_not_pos hpos]
          exact (held_makeRoom_le hd p).trans (le_max_left _ _)
    · have hch : s.topology.charges (s.topology.planeIdAt idx) p = false := by
        rw [(hsole p).congr h.layout]
        simpa using hp
      rw [he, account_grant hd (targetPlaneIdx_lt hadm.target) hfresh, hch]
      exact Or.inl ((held_makeRoom_le hd p).trans (le_max_left _ _))

theorem forced_grant_preempts (hfresh : s.leases.get? env.newId = none)
    (hadm : Admitted s env req idx) (hx : Exhausted s env req idx) {l₀ l : ComputeLease}
    (hl₀ : s.leases.get? id = some l₀) (ha₀ : l₀.isActive = true)
    (hp : l₀.planeId = s.topology.planeIdAt idx) (hne : l₀.priority ≠ .emergencyTriage)
    (hl : (acquireLease s env req).state.leases.get? id = some l) : l.isActive = false := by
  have hid : l₀.id = id := KeyedMap.get?_key hl₀
  have hv : Victim s.leases (s.topology.planeIdAt idx) req.priority l₀ :=
    ⟨hid.symm ▸ hl₀, ha₀, hp, hadm.room hx ▸ LeasePriority.lt_emergency hne⟩
  have hroom := hx.preempted hv
  have hnew : id ≠ env.newId := by
    rintro rfl
    rw [hfresh] at hl₀
    cases hl₀
  rw [acquireLease_of_admitted hadm, get?_grant, if_neg hnew] at hl
  rcases get?_collectGarbage (makeRoom s env req idx).leases id with hgc | ⟨m, -, -, hgc⟩
  · rw [hgc, ← hid, hroom] at hl
    cases hl
    rfl
  · rw [hgc] at hl
    cases hl

/-! ### The other operations -/

theorem Drawn.creditMatches_iff (hsole : ∀ p, Sole T p) (h : Drawn T used s) (l : ComputeLease) :
    CreditMatches T s l ↔ (accountOf s l.planeId).Creditable (T.available l.planeId)
      (s.topology.total l.planeId) l.allocatedMemoryBytes.toNat := by
  rw [CreditMatches, Account.Creditable, held_eq_activeBytes ((hsole _).congr h.layout),
    total_congr h.layout]

theorem Started.noMemoryCreated_iff (hw : T.WellFormed) (hsole : ∀ p, Sole T p)
    (h : Started T used s) :
    NoMemoryCreated T s ↔ ∀ p, (accountOf s p).free ≤ T.available p - (accountOf s p).held := by
  have hplane : ∀ p ∈ T.planes, (s.topology.available p.id ≤
      p.availableMemoryBytes.toNat - activeBytes s p.id ↔
      (accountOf s p.id).free ≤ T.available p.id - (accountOf s p.id).held) := by
    intro p hp
    rw [held_eq_activeBytes ((hsole _).congr h.layout), available_of_mem hw.distinct hp]
    rfl
  constructor
  · intro hn p
    cases hf : T.find? p with
    | some x =>
      have hid : x.id = p := by simpa using List.find?_some hf
      have hx := List.mem_of_find?_eq_some hf
      exact hid ▸ (hplane x hx).mp (hn x hx)
    | none =>
      -- no plane of that name, and none appears along the run
      have hnone := (find?_eq_none_congr h.layout p).mpr hf
      show s.topology.available p ≤ _
      simp [available, hnone]
  · intro hall p hp
    exact (hplane p hp).mpr (hall p.id)

theorem Drawn.noMemoryCreated (hw : T.WellFormed) (hsole : ∀ p, Sole T p) (h : Drawn T used s) :
    NoMemoryCreated T s :=
  (h.toStarted.noMemoryCreated_iff hw hsole).mpr fun p => Nat.le_of_eq (h.covered p)

theorem Drawn.covered_endLease (hw : T.WellFormed) (hsole : ∀ p, Sole T p) (h : Drawn T used s)
    (final : LeaseState) (hfinal : final.isActive = false)
    (hc : ∀ l, s.leases.get? id = some l → l.isActive = true → CreditMatches T s l) (p : String) :
    (accountOf (endLease final s id).state p).Covered (T.available p) := by
  have hd := hw.distinct.congr h.layout
  rcases accountOf_endLease final hfinal hd id p with ⟨he, -⟩ | ⟨l, hl, ha, hch, he⟩ <;> rw [he]
  · exact h.covered p
  · have hle := charge_le_held hl ha hch
    rw [(hsole p).congr h.layout, decide_eq_true_eq] at hch
    subst hch
    exact (h.covered _).give hle (h.total hw _) l.allocatedMemoryBytes.toNat_lt (available_lt T _)
      ((h.creditMatches_iff hsole l).mp (hc l hl ha))

theorem Drawn.noMemoryCreated_endLease (hw : T.WellFormed) (hsole : ∀ p, Sole T p)
    (h : Drawn T used s) (final : LeaseState) (hfinal : final.isActive = false)
    (hst : Started T used (endLease final s id).state) :
    NoMemoryCreated T (endLease final s id).state ↔
      ∀ l, s.leases.get? id = some l → l.isActive = true → CreditMatches T s l := by
  have hd := hw.distinct.congr h.layout
  rw [hst.noMemoryCreated_iff hw hsole]
  constructor
  · intro hall l hl ha
    have hp := hall l.planeId
    rcases accountOf_endLease final hfinal hd id l.planeId with ⟨-, hno⟩ | ⟨m, hm, -, -, he⟩
    · have := hno l hl ha
      rw [charges_self] at this
      cases this
    · rw [hl] at hm
      cases hm
      rw [he, (h.covered _).give_le_iff (charge_le_held hl ha (charges_self _ _)) (h.total hw _)
        l.allocatedMemoryBytes.toNat_lt (available_lt T _)] at hp
      exact (h.creditMatches_iff hsole l).mpr hp
  · intro hc p
    exact Nat.le_of_eq (h.covered_endLease hw hsole final hfinal hc p)

theorem Drawn.covered_thawLease (hw : T.WellFormed) (h : Drawn T used s) (p : String) :
    (accountOf (thawLease s id).state p).Covered (T.available p) := by
  rcases accountOf_thawLease (hw.distinct.congr h.layout) id p with he | ⟨l, -, -, -, -, he⟩ <;>
    rw [he]
  · exact h.covered p
  · exact (h.covered p).take _

theorem Drawn.held_thaw_le (hw : T.WellFormed) (h : Drawn T used s) {l : ComputeLease}
    (hl : s.leases.get? id = some l) (hst : l.state = .preempted) (hfit : ThawFits s.topology l)
    (hpos : 0 < l.allocatedMemoryBytes.toNat) :
    (accountOf (thawLease s id).state l.planeId).held ≤ T.available l.planeId := by
  have hd := hw.distinct.congr h.layout
  have ha : l.isActive = false := by rw [ComputeLease.isActive, hst]; rfl
  rcases thawLease_of_preempted hl hst with ⟨e, -, hno⟩ | ⟨-, he⟩
  · exact absurd hfit hno
  · rw [he]
    show (account _ _ l.planeId).held ≤ _
    rw [account_debit .active l.planeId hd hl ha rfl, if_pos (charges_self _ _)]
    exact (h.covered l.planeId).held_take_le (hfit.le_available hd (charges_self _ _)) hpos

/-! ### One operation -/

/-- What is held on a plane grows beyond its initial availability only by a
forced grant. -/
theorem Drawn.held_stepLease (hw : T.WellFormed) (hsole : ∀ p, Sole T p) (h : Drawn T used s)
    (op : LeaseOp) (hfresh : ∀ n ∈ op.newIds, s.leases.get? n = none) (p : String) :
    (accountOf (stepLease s op) p).held ≤ max (accountOf s p).held (T.available p) ∨
    ∃ env req idx, op = .acquire env req ∧ Admitted s env req idx ∧ Exhausted s env req idx ∧
      s.topology.planeIdAt idx = p := by
  have hd := hw.distinct.congr h.layout
  have hend : ∀ final : LeaseState, final.isActive = false → ∀ id,
      (accountOf (endLease final s id).state p).held ≤
        max (accountOf s p).held (T.available p) := by
    intro final hfinal id
    rcases accountOf_endLease final hfinal hd id p with ⟨he, -⟩ | ⟨l, -, -, -, he⟩ <;> rw [he]
    · exact le_max_left _ _
    · exact (Nat.sub_le _ _).trans (le_max_left _ _)
  cases op with
  | acquire env req =>
    rcases h.held_acquire hw hsole (hfresh _ (List.mem_cons_self ..)) p with hle | ⟨idx, hforced⟩
    · exact Or.inl hle
    · exact Or.inr ⟨env, req, idx, rfl, hforced⟩
  | release id => exact Or.inl (hend .expired rfl id)
  | revoke id => exact Or.inl (hend .revoked rfl id)
  | yield id => exact Or.inl ((accountOf_markLease .preempting rfl).symm ▸ le_max_left _ _)
  | freeze id => exact Or.inl ((accountOf_markLease .frozen rfl).symm ▸ le_max_left _ _)
  | thaw id =>
    refine Or.inl ?_
    show (accountOf (thawLease s id).state p).held ≤ _
    rcases accountOf_thawLease hd id p with he | ⟨l, hl, hst, hch, hle, he⟩ <;> rw [he]
    · exact le_max_left _ _
    · by_cases hpos : 0 < l.allocatedMemoryBytes.toNat
      · exact ((h.covered p).held_take_le hle hpos).trans (le_max_right _ _)
      · rw [Nat.eq_zero_of_not_pos hpos]
        exact le_max_left _ _

theorem Drawn.covered_stepLease (hw : T.WellFormed) (hsole : ∀ p, Sole T p) (h : Drawn T used s)
    (op : LeaseOp) (hfresh : ∀ n ∈ op.newIds, s.leases.get? n = none)
    (hc : CreditsCovered T s op) (p : String) :
    (accountOf (stepLease s op) p).Covered (T.available p) := by
  cases op with
  | acquire env req => exact h.covered_acquire hw hsole (hfresh _ (List.mem_cons_self ..)) p
  | release id => exact h.covered_endLease hw hsole .expired rfl hc p
  | revoke id => exact h.covered_endLease hw hsole .revoked rfl hc p
  | yield id => exact (accountOf_markLease .preempting rfl).symm ▸ h.covered p
  | freeze id => exact (accountOf_markLease .frozen rfl).symm ▸ h.covered p
  | thaw id => exact h.covered_thawLease hw p

theorem Drawn.held_new_le (hw : T.WellFormed) (hsole : ∀ p, Sole T p) (h : Drawn T used s)
    (op : LeaseOp) (hfresh : ∀ n ∈ op.newIds, s.leases.get? n = none) {l : ComputeLease}
    (hpos : 0 < l.allocatedMemoryBytes.toNat) (hne : l.priority ≠ .emergencyTriage)
    (hnew : (∃ env req idx, op = .acquire env req ∧ Admitted s env req idx ∧
        l = grantedLease s env req idx) ∨
      (∃ l₀, op = .thaw id ∧ s.leases.get? id = some l₀ ∧ l₀.state = .preempted ∧
        ThawFits s.topology l₀ ∧ l = l₀.withState .active)) :
    (accountOf (stepLease s op) l.planeId).held ≤ T.available l.planeId := by
  rcases hnew with ⟨env, req, idx, rfl, hadm, rfl⟩ | ⟨l₀, rfl, hl₀, hst, hfit, rfl⟩
  · have hroom : ¬ Exhausted s env req idx := fun hx => hne (hadm.room hx)
    exact h.held_grant_le hw hsole (hfresh _ (List.mem_cons_self ..)) hadm hroom hpos
  · show (accountOf (thawLease s id).state l₀.planeId).held ≤ T.available l₀.planeId
    exact h.held_thaw_le hw hl₀ hst hfit hpos

theorem Drawn.stepLease (hw : T.WellFormed) (hsole : ∀ p, Sole T p) (h : Drawn T used s)
    (op : LeaseOp) (hn : ∀ n ∈ op.newIds, n ∉ used) (hc : CreditsCovered T s op) :
    Drawn T (op.newIds ++ used) (stepLease s op) := by
  have hfresh := h.tracked.fresh hn
  refine ⟨h.toStarted.stepLease op hn, h.covered_stepLease hw hsole op hfresh hc, ?_⟩
  intro p hover id l hl ha hp hne
  by_contra hpos
  have hpos := Nat.pos_of_ne_zero hpos
  rcases (stepLease_lease s op hfresh id).origin hl ha with ⟨l₀, hl₀, ha₀, hsame⟩ | hnew
  · rw [hsame] at hp hne hpos
    rcases h.held_stepLease hw hsole op hfresh p with hle | ⟨env, req, idx, rfl, hadm, hx, hidx⟩
    · -- the plane was overdrawn before, and so the lease had no bytes then
      have hover₀ : T.available p < (accountOf s p).held := by
        rcases le_max_iff.mp hle with hle | hle <;> omega
      have := h.emergency p hover₀ id l₀ hl₀ ha₀ hp hne
      rw [ComputeLease.withState_bytes] at hpos
      omega
    · have := forced_grant_preempts (hfresh _ (List.mem_cons_self ..)) hadm hx hl₀ ha₀
        (hp.trans hidx.symm) hne hl
      rw [ha] at this
      cases this
  · have hle := h.held_new_le hw hsole op hfresh hpos hne hnew
    rw [hp] at hle
    omega

/-! ### Runs -/

/-- A lease of more than zero bytes that `op` grants without emergency or thaws
is not given memory that active leases hold. -/
def GrantsFreeMemory (T : HardwareTopology) (s : ArbiterState) : LeaseOp → Prop
  | .acquire env req => req.priority ≠ .emergencyTriage → 0 < req.requiredBytes.toNat →
      ∀ lease, (acquireLease s env req).result = .ok lease →
        activeBytes (acquireLease s env req).state lease.planeId ≤ T.available lease.planeId
  | .thaw id => ∀ l, s.leases.get? id = some l → l.state = .preempted →
      0 < l.allocatedMemoryBytes.toNat → (thawLease s id).result = .ok () →
        activeBytes (thawLease s id).state l.planeId ≤ T.available l.planeId
  | _ => True

theorem Drawn.noMemoryCreated_stepLease (hw : T.WellFormed) (hsole : ∀ p, Sole T p)
    (h : Drawn T used s) (op : LeaseOp) (hn : ∀ n ∈ op.newIds, n ∉ used) :
    NoMemoryCreated T (Arbiter.stepLease s op) ↔ CreditsCovered T s op := by
  have hst := h.toStarted.stepLease op hn
  cases op with
  | release id => exact h.noMemoryCreated_endLease hw hsole .expired rfl hst
  | revoke id => exact h.noMemoryCreated_endLease hw hsole .revoked rfl hst
  | acquire env req =>
    exact iff_of_true ((h.stepLease hw hsole _ hn trivial).noMemoryCreated hw hsole) trivial
  | yield id =>
    exact iff_of_true ((h.stepLease hw hsole _ hn trivial).noMemoryCreated hw hsole) trivial
  | freeze id =>
    exact iff_of_true ((h.stepLease hw hsole _ hn trivial).noMemoryCreated hw hsole) trivial
  | thaw id =>
    exact iff_of_true ((h.stepLease hw hsole _ hn trivial).noMemoryCreated hw hsole) trivial

theorem Drawn.grantsFreeMemory (hw : T.WellFormed) (hsole : ∀ p, Sole T p) (h : Drawn T used s)
    (op : LeaseOp) (hn : ∀ n ∈ op.newIds, n ∉ used) : GrantsFreeMemory T s op := by
  have hfresh := h.tracked.fresh hn
  have hlay := (layout_stepLease s op).trans h.layout
  cases op with
  | acquire env req =>
    intro hne hpos lease hok
    rcases acquireLease_cases s env req with ⟨-, e, he⟩ | ⟨-, idx, e, -, -, he⟩ | ⟨idx, hadm, he⟩
    · rw [he] at hok
      cases hok
    · rw [he] at hok
      cases hok
    · have hlease : lease = grantedLease s env req idx := by
        rw [he] at hok
        cases hok
        rfl
      subst hlease
      show activeBytes (Arbiter.stepLease s (.acquire env req)) _ ≤ _
      rw [← held_eq_activeBytes ((hsole _).congr hlay)]
      exact h.held_grant_le hw hsole (hfresh _ (List.mem_cons_self ..)) hadm
        (fun hx => hne (hadm.room hx)) hpos
  | thaw id =>
    intro l hl hst hpos hok
    show activeBytes (Arbiter.stepLease s (.thaw id)) _ ≤ _
    rw [← held_eq_activeBytes ((hsole _).congr hlay)]
    rcases thawLease_of_preempted hl hst with ⟨e, he, -⟩ | ⟨hfit, -⟩
    · rw [he] at hok
      cases hok
    · exact h.held_thaw_le hw hl hst hfit hpos
  | _ => trivial

/-- Forced grants and memory: on a topology without UMA planes, every state of
a run reports no more memory than the active leases leave, and no later grant
or thaw is served from memory that is held, if and only if no release or
revocation of the run credits an overdrawn plane. -/
theorem no_memory_created_iff (hw : T.WellFormed)
    (huma : ∀ q ∈ T.planes, q.kind ≠ .integratedUma) (ops : List LeaseOp)
    (hfresh : Fresh LeaseOp.newIds [] ops) :
    ((∀ bs, bs <+: ops → NoMemoryCreated T (exec stepLease (new T) bs)) ∧
      Along stepLease (GrantsFreeMemory T) (new T) ops) ↔
      Along stepLease (CreditsCovered T) (new T) ops := by
  have hsole := sole_of_no_uma huma
  have hiff := inv_iff_along (D := fun _ _ => True) (C := CreditsCovered T) (Drawn T)
    (NoMemoryCreated T)
    (fun _ _ op h hn _ hc => h.stepLease hw hsole op hn hc)
    (fun _ _ op h hn _ _ => h.noMemoryCreated_stepLease hw hsole op hn)
    [] _ ops (drawn_new T) ((drawn_new T).noMemoryCreated hw hsole) hfresh
    (along_of_forall ops (fun _ _ _ => trivial) _)
  refine ⟨fun h => hiff.mp h.1, fun h => ⟨hiff.mpr h, ?_⟩⟩
  exact along_fresh (Drawn T) (fun _ _ op h hn hc => h.stepLease hw hsole op hn hc)
    (fun _ _ op h hn _ => h.grantsFreeMemory hw hsole op hn) [] _ ops (drawn_new T) hfresh h

def emergencyRun : List LeaseOp :=
  [.acquire (sampleEnv 0) (sampleRequest .emergencyTriage 8 "gpu0"),
   .acquire (sampleEnv 1) (sampleRequest .emergencyTriage 10 "gpu0"), .release (sampleId 1)]

/-- An emergency of twelve bytes is forced onto an empty plane of ten and gives
them back. -/
def forcedRun : List LeaseOp :=
  [.acquire (sampleEnv 0) (sampleRequest .emergencyTriage 12 "gpu0"), .release (sampleId 0),
   .acquire (sampleEnv 1) (sampleRequest .batch 10 "gpu0")]

theorem forcedRun_covered :
    Along stepLease (CreditsCovered gpuTopology) (new gpuTopology) forcedRun := by
  refine ⟨trivial, fun l hl _ => ?_, trivial, trivial⟩
  cases hl
  -- all that is held, on a plane that was free
  exact Or.inr (Or.inr (Or.inr ⟨by decide, by decide⟩))

theorem no_memory_created_iff_forcedRun :
    Along stepLease (CreditsCovered gpuTopology) (new gpuTopology) forcedRun ∧
      (∀ bs, bs <+: forcedRun → NoMemoryCreated gpuTopology (exec stepLease (new gpuTopology) bs)) ∧
      Along stepLease (GrantsFreeMemory gpuTopology) (new gpuTopology) forcedRun :=
  ⟨forcedRun_covered, (no_memory_created_iff gpuTopology_wellFormed (by decide) forcedRun
    ⟨by decide, by decide⟩).mpr forcedRun_covered⟩

/-- Of ten bytes, eight go to a first and two to a second emergency that asked
for ten. The release of the second credits ten: all of the plane is free while
eight bytes are held, and the next batch lease is served from them. -/
theorem forced_release_creates_memory :
    gpuTopology.WellFormed ∧ (∀ q ∈ gpuTopology.planes, q.kind ≠ .integratedUma) ∧
      Fresh LeaseOp.newIds [] emergencyRun ∧
      ¬ NoMemoryCreated gpuTopology (exec stepLease (new gpuTopology) emergencyRun) ∧
      activeBytes (exec stepLease (new gpuTopology) (emergencyRun ++
        [.acquire (sampleEnv 2) (sampleRequest .batch 10 "gpu0")])) "gpu0" = 18 := by
  refine ⟨gpuTopology_wellFormed, by decide, ⟨by decide, by decide⟩, fun h => ?_, by decide⟩
  exact absurd (h (samplePlane "gpu0" .discreteGpu 10 10) (by decide)) (by decide)

end Inferenced.Arbiter
