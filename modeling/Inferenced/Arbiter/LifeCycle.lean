import Inferenced.Arbiter.Leases
import Inferenced.Lib.Runs

/-!
# The life of a lease

Runs here also contain hot-plug events. `update_topology` touches a lease in
one way: a live lease whose plane is gone is revoked. Together with
`stepLease_lease` this says all that can happen to a lease in one step, and the
life cycle follows: a terminal lease only ever disappears, a preempted one is
thawed or ended, only an acquisition of higher priority on the same plane
preempts, and the garbage collection drops terminal leases only.
-/

namespace Inferenced.Arbiter
open Lib Lib.Runs HardwareTopology

variable {s : ArbiterState} {id : LeaseId}

/-! ### Hot-plug -/

def Rebooked (s : ArbiterState) (t : HardwareTopology) (leases : LeaseMap) (id : LeaseId) : Prop :=
  leases.get? id = s.leases.get? id ∨
  ∃ l, s.leases.get? id = some l ∧ l.isLive = true ∧ t.find? l.planeId = none ∧
    leases.get? id = some (l.withState .revoked)

def unplugged (t : HardwareTopology) (l : ComputeLease) : Bool :=
  l.isLive && (t.find? l.planeId).isNone

theorem bare_rebookLease (acc : HardwareTopology × LeaseMap) (l : ComputeLease) :
    (rebookLease acc l).1.bare = acc.1.bare := by
  obtain ⟨u, leases⟩ := acc
  simp only [rebookLease]
  split
  · split
    · exact bare_debitPlaneMemory _ _
    · rfl
  · split <;> rfl

theorem bare_updateTopology (s : ArbiterState) (order : IterOrder ComputeLease)
    (t : HardwareTopology) : (updateTopology s order t).topology.bare = t.bare := by
  have hfold : ∀ (ls : List ComputeLease) (acc : HardwareTopology × LeaseMap),
      (ls.foldl rebookLease acc).1.bare = acc.1.bare := by
    intro ls
    induction ls with
    | nil => exact fun acc => rfl
    | cons l ls ih => exact fun acc => (ih _).trans (bare_rebookLease acc l)
  exact hfold _ (t, s.leases)

theorem layout_rebookLease (acc : HardwareTopology × LeaseMap) (l : ComputeLease) :
    (rebookLease acc l).1.layout = acc.1.layout :=
  layout_of_bare (bare_rebookLease acc l)

theorem layout_updateTopology (s : ArbiterState) (order : IterOrder ComputeLease)
    (t : HardwareTopology) : (updateTopology s order t).topology.layout = t.layout :=
  layout_of_bare (bare_updateTopology s order t)

theorem rebookLease_leases {t : HardwareTopology} (acc : HardwareTopology × LeaseMap)
    (hlay : acc.1.layout = t.layout) (l : ComputeLease) :
    (rebookLease acc l).2 = if unplugged t l then acc.2.setState l.id .revoked else acc.2 := by
  obtain ⟨u, leases⟩ := acc
  have hfind : (u.find? l.planeId).isNone = (t.find? l.planeId).isNone := by
    rw [Bool.eq_iff_iff, Option.isNone_iff_eq_none, Option.isNone_iff_eq_none]
    exact find?_eq_none_congr hlay _
  simp only [rebookLease, unplugged, ← hfind]
  cases ha : l.isActive with
  | true =>
    rw [isActive_isLive ha]
    cases u.find? l.planeId <;> rfl
  | false =>
    have hlive : l.isLive = decide (l.state = .preempted) := by
      simp only [ComputeLease.isActive] at ha
      simp only [ComputeLease.isLive, LeaseState.isLive, ha, Bool.false_or]
      rfl
    rw [hlive]
    cases u.find? l.planeId <;> by_cases hp : l.state = .preempted <;> simp [hp]

theorem foldl_rebookLease_entries {t : HardwareTopology} (ls : List ComputeLease)
    (acc : HardwareTopology × LeaseMap) (hlay : acc.1.layout = t.layout) :
    (ls.foldl rebookLease acc).2.entries = acc.2.entries.map fun v =>
      if ls.any (fun l => decide (l.id = v.id) && unplugged t l) then v.withState .revoked else v := by
  induction ls generalizing acc with
  | nil => simp
  | cons l ls ih =>
    rw [List.foldl_cons, ih _ ((layout_rebookLease acc l).trans hlay), rebookLease_leases acc hlay]
    simp only [List.any_cons]
    by_cases hgone : unplugged t l = true
    · simp only [hgone, if_true, Bool.and_true, LeaseMap.setState, KeyedMap.modify, List.map_map]
      refine List.map_congr_left fun v _ => ?_
      by_cases hid : l.id = v.id
      · -- a second revocation of the same lease changes nothing
        simp [hid, ComputeLease.withState]
      · have hne : ¬ v.id = l.id := fun h => hid h.symm
        simp [hid, hne]
    · simp only [hgone, Bool.false_eq_true, if_false, Bool.and_false, Bool.false_or]

/-- `update_topology` revokes the live leases whose plane is gone and changes
no other. -/
theorem updateTopology_entries (s : ArbiterState) (order : IterOrder ComputeLease)
    (t : HardwareTopology) :
    (updateTopology s order t).leases.entries = s.leases.entries.map fun l =>
      if unplugged t l then l.withState .revoked else l := by
  show ((order.order s.leases.entries).foldl rebookLease (t, s.leases)).2.entries = _
  rw [foldl_rebookLease_entries _ (t, s.leases) rfl]
  refine List.map_congr_left fun v hv => ?_
  have hany : (order.order s.leases.entries).any (fun l => decide (l.id = v.id) && unplugged t l) =
      unplugged t v := by
    rw [Bool.eq_iff_iff, List.any_eq_true]
    simp only [(order.perm _).mem_iff, Bool.and_eq_true, decide_eq_true_eq]
    constructor
    · rintro ⟨l, hl, hid, hgone⟩
      rwa [List.inj_on_of_nodup_map s.leases.nodup hl hv hid] at hgone
    · exact fun hgone => ⟨v, hv, rfl, hgone⟩
  rw [hany]

theorem updateTopology_get? (s : ArbiterState) (order : IterOrder ComputeLease)
    (t : HardwareTopology) (id : LeaseId) :
    (updateTopology s order t).leases.get? id =
      (s.leases.get? id).map fun l => if unplugged t l then l.withState .revoked else l := by
  have hid : ∀ l : ComputeLease, (if unplugged t l then l.withState .revoked else l).id = l.id := by
    intro l
    split <;> rfl
  unfold KeyedMap.get?
  rw [updateTopology_entries, List.find?_map]
  simp only [Function.comp_def, hid]

theorem updateTopology_lease (s : ArbiterState) (order : IterOrder ComputeLease)
    (t : HardwareTopology) (id : LeaseId) : Rebooked s t (updateTopology s order t).leases id := by
  unfold Rebooked
  rw [updateTopology_get?]
  cases hl : s.leases.get? id with
  | none => exact Or.inl rfl
  | some l =>
    cases hgone : unplugged t l with
    | false => exact Or.inl (by simp [hgone])
    | true =>
      have hboth := hgone
      simp only [unplugged, Bool.and_eq_true, Option.isNone_iff_eq_none] at hboth
      exact Or.inr ⟨l, rfl, hboth.1, hboth.2, by simp [hgone]⟩

/-! ### One step -/

/-- All that can happen to the entry of `id` in one step. -/
inductive Change (s : ArbiterState) (op : ArbiterOp) (id : LeaseId) : Prop where
  | lease (lop : LeaseOp) (hop : op = .lease lop) (h : LeaseChange s lop id (step s op))
  | kept (h : (step s op).leases.get? id = s.leases.get? id)
  | unplugged (order : IterOrder ComputeLease) (t : HardwareTopology) (l : ComputeLease)
      (hop : op = .updateTopology order t) (hbefore : s.leases.get? id = some l)
      (hlive : l.isLive = true) (h : (step s op).leases.get? id = some (l.withState .revoked))

theorem step_change (s : ArbiterState) (op : ArbiterOp)
    (hfresh : ∀ n ∈ op.newIds, s.leases.get? n = none) (id : LeaseId) : Change s op id := by
  cases op with
  | lease lop => exact .lease lop rfl (stepLease_lease s lop hfresh id)
  | updateTopology order t =>
    rcases updateTopology_lease s order t id with h | ⟨l, hl, hlive, -, h⟩
    · exact .kept h
    · exact .unplugged order t l rfl hl hlive h

theorem Tracked.step {used : List LeaseId} (h : Tracked used s) (op : ArbiterOp)
    (hn : ∀ n ∈ op.newIds, n ∉ used) : Tracked (op.newIds ++ used) (step s op) := by
  cases op with
  | lease lop => exact h.stepLease lop hn
  | updateTopology order t =>
    intro id hid
    rcases updateTopology_lease s order t id with hs | ⟨l, hl, -, -, -⟩
    · exact h id (hs ▸ hid)
    · exact h id (by rw [hl]; simp)

theorem Change.live_kept {op : ArbiterOp} (h : Change s op id) {l : ComputeLease}
    (hl : s.leases.get? id = some l) (hlive : l.isLive = true) :
    ∃ st, (step s op).leases.get? id = some (l.withState st) := by
  cases h with
  | kept h => exact ⟨l.state, h.trans hl⟩
  | unplugged order t m hop hb _ h =>
    rw [hl] at hb
    cases hb
    exact ⟨.revoked, h⟩
  | lease lop hop h =>
    cases h with
    | same h => exact ⟨l.state, h.trans hl⟩
    | granted env req idx _ _ _ hb _ => rw [hl] at hb; cases hb
    | dropped env req m _ hb hdead _ =>
      rw [hl] at hb
      cases hb
      rw [hlive] at hdead
      cases hdead
    | moved m st hb _ h =>
      rw [hl] at hb
      cases hb
      exact ⟨st, h⟩

theorem Change.terminal_kept {op : ArbiterOp} (h : Change s op id) {l : ComputeLease}
    (hl : s.leases.get? id = some l) (hdead : l.isLive = false) :
    (step s op).leases.get? id = some l ∨ (step s op).leases.get? id = none := by
  cases h with
  | kept h => exact Or.inl (h.trans hl)
  | unplugged order t m hop hb hlive h =>
    rw [hl] at hb
    cases hb
    rw [hdead] at hlive
    cases hlive
  | lease lop hop h =>
    cases h with
    | same h => exact Or.inl (h.trans hl)
    | granted env req idx _ _ _ hb _ => rw [hl] at hb; cases hb
    | dropped env req m _ hb _ h => exact Or.inr h
    | moved m st hb hmove h =>
      rw [hl] at hb
      cases hb
      rw [hmove.isLive] at hdead
      cases hdead

theorem Change.absent_kept {op : ArbiterOp} (h : Change s op id)
    (hl : s.leases.get? id = none) (hid : id ∉ op.newIds) :
    (step s op).leases.get? id = none := by
  cases h with
  | kept h => exact h.trans hl
  | unplugged order t m hop hb _ h => rw [hl] at hb; cases hb
  | lease lop hop h =>
    subst hop
    cases h with
    | same h => exact h.trans hl
    | granted env req idx hop hnew _ _ _ =>
      subst hop hnew
      exact absurd (List.mem_cons_self ..) hid
    | dropped env req m _ hb _ h => exact h
    | moved m st hb hmove h => rw [hl] at hb; cases hb

theorem Change.live {op : ArbiterOp} (h : Change s op id) (hlive : Live (step s op) id) :
    Live s id ∨ id ∈ op.newIds := by
  obtain ⟨l', hl', hlive'⟩ := hlive
  cases hl : s.leases.get? id with
  | none =>
    by_contra hno
    rw [h.absent_kept hl fun hid => hno (Or.inr hid)] at hl'
    cases hl'
  | some l =>
    cases hdead : l.isLive with
    | true => exact Or.inl ⟨l, hl, hdead⟩
    | false =>
      rcases h.terminal_kept hl hdead with hkept | hgone
      · rw [hkept] at hl'
        cases hl'
        rw [hdead] at hlive'
        cases hlive'
      · rw [hgone] at hl'
        cases hl'

/-- How a lease leaves `Preempted`. -/
inductive LeavesPreempted (s : ArbiterState) (op : ArbiterOp) (l : ComputeLease) :
    LeaseState → Prop where
  | stays : LeavesPreempted s op l .preempted
  | thawed (hop : op = .lease (.thaw l.id)) (hok : (thawLease s l.id).result = .ok ()) :
      LeavesPreempted s op l .active
  | released (hop : op = .lease (.release l.id)) : LeavesPreempted s op l .expired
  | revoked (hop : op = .lease (.revoke l.id)) : LeavesPreempted s op l .revoked
  | unplugged (order : IterOrder ComputeLease) (t : HardwareTopology)
      (hop : op = .updateTopology order t) : LeavesPreempted s op l .revoked

theorem Change.preempted {op : ArbiterOp} (h : Change s op id) {l : ComputeLease}
    (hl : s.leases.get? id = some l) (hst : l.state = .preempted) :
    ∃ st, (step s op).leases.get? id = some (l.withState st) ∧ LeavesPreempted s op l st := by
  have hid : l.id = id := KeyedMap.get?_key hl
  have hsame : s.leases.get? id = some (l.withState .preempted) := by
    rw [hl, ← hst]
    rfl
  cases h with
  | kept h => exact ⟨_, h.trans hsame, .stays⟩
  | unplugged order t m hop hb _ h =>
    rw [hl] at hb
    cases hb
    exact ⟨_, h, .unplugged order t hop⟩
  | lease lop hop h =>
    subst hop
    cases h with
    | same h => exact ⟨_, h.trans hsame, .stays⟩
    | granted env req idx _ _ _ hb _ => rw [hl] at hb; cases hb
    | dropped env req m _ hb hdead _ =>
      rw [hl] at hb
      cases hb
      rw [ComputeLease.isLive, hst] at hdead
      cases hdead
    | moved m st hb hmove h =>
      rw [hl] at hb
      cases hb
      have hinactive : l.isActive = false := by rw [ComputeLease.isActive, hst]; rfl
      refine ⟨st, h, ?_⟩
      cases lop with
      | acquire env req => rw [hmove.1] at hinactive; cases hinactive
      | release j =>
        obtain ⟨rfl, -, rfl⟩ := hmove
        exact .released rfl
      | revoke j =>
        obtain ⟨rfl, -, rfl⟩ := hmove
        exact .revoked rfl
      | yield j => rw [hmove.2.1] at hinactive; cases hinactive
      | freeze j => rw [hmove.2.1] at hinactive; cases hinactive
      | thaw j =>
        obtain ⟨rfl, rfl, hfrom⟩ := hmove
        refine .thawed rfl ?_
        have hfit : ThawFits s.topology l := by
          rw [hst] at hfrom
          rcases hfrom with h | h | ⟨-, h⟩
          · cases h
          · cases h
          · exact h
        rcases thawLease_of_preempted (hid ▸ hl) hst with ⟨e, -, hno⟩ | ⟨-, he⟩
        · exact absurd hfit hno
        · rw [he]

/-- A lease enters `Preempted` only by an acquisition of strictly higher
priority that targets its plane. -/
theorem Change.enters_preempted {op : ArbiterOp} (h : Change s op id) {l : ComputeLease}
    (hl : (step s op).leases.get? id = some l) (hst : l.state = .preempted) :
    s.leases.get? id = some l ∨
    ∃ env req idx l₀, op = .lease (.acquire env req) ∧ s.leases.get? id = some l₀ ∧
      l = l₀.withState .preempted ∧ l.priority < req.priority ∧
      targetPlaneIdx s.topology req = .ok idx ∧ l.planeId = s.topology.planeIdAt idx := by
  cases h with
  | kept h => exact Or.inl (h ▸ hl)
  | unplugged order t m hop hb _ h =>
    rw [h] at hl
    cases hl
    cases hst
  | lease lop hop h =>
    subst hop
    cases h with
    | same h => exact Or.inl (h ▸ hl)
    | granted env req idx _ _ _ _ h =>
      rw [h] at hl
      cases hl
      cases hst
    | dropped env req m _ _ _ h => rw [h] at hl; cases hl
    | moved m st hb hmove h =>
      rw [h] at hl
      cases hl
      rw [ComputeLease.withState_state] at hst
      subst hst
      cases lop with
      | acquire env req =>
        obtain ⟨-, -, hlt, idx, ht, hp⟩ := hmove
        exact Or.inr ⟨env, req, idx, m, rfl, hb, rfl, hlt, ht, hp⟩
      | release j => exact absurd hmove.2.2 (by decide)
      | revoke j => exact absurd hmove.2.2 (by decide)
      | yield j => exact absurd hmove.2.2 (by decide)
      | freeze j => exact absurd hmove.2.2 (by decide)
      | thaw j => exact absurd hmove.2.1 (by decide)

/-! ### Garbage collection -/

def liveCount (leases : LeaseMap) : ℕ := (leases.entries.filter (·.isLive)).length

theorem len_collectGarbage (leases : LeaseMap) :
    (collectGarbage leases).len ≤ max 128 (liveCount (collectGarbage leases)) := by
  unfold collectGarbage
  split
  · refine le_max_of_le_right (Nat.le_of_eq ?_)
    simp only [liveCount, KeyedMap.retain, KeyedMap.len, List.filter_filter, Bool.and_self]
  · rename_i h
    exact le_max_of_le_left (not_lt.mp h)

theorem liveCount_insert {leases : LeaseMap} {l : ComputeLease} (hl : leases.get? l.id = none)
    (hlive : l.isLive = true) : liveCount (leases.insert l) = liveCount leases + 1 := by
  have hall : leases.entries.filter (fun x => decide (x.id ≠ l.id)) = leases.entries := by
    refine List.filter_eq_self.mpr fun x hx => ?_
    have := List.find?_eq_none.mp hl x hx
    simpa using this
  simp only [liveCount, KeyedMap.insert, hall, List.filter_cons, hlive, if_true, List.length_cons]

theorem len_acquireLease {env : CallEnv} {req : LeaseRequest} {lease : ComputeLease}
    (hfresh : s.leases.get? env.newId = none) (hok : (acquireLease s env req).result = .ok lease) :
    (acquireLease s env req).state.leases.len ≤
      max 129 (liveCount (acquireLease s env req).state.leases) := by
  rcases acquireLease_cases s env req with ⟨-, e, he⟩ | ⟨-, idx, e, -, -, he⟩ | ⟨idx, -, he⟩ <;>
    rw [he] at hok ⊢
  · cases hok
  · cases hok
  · have hnone : (collectGarbage (makeRoom s env req idx).leases).get? env.newId = none :=
      get?_collectGarbage_none (get?_makeRoom_none hfresh)
    have hlive := liveCount_insert (l := grantedLease s env req idx) hnone rfl
    have hlen := KeyedMap.len_insert_le (collectGarbage (makeRoom s env req idx).leases)
      (grantedLease s env req idx)
    have hgc := len_collectGarbage (makeRoom s env req idx).leases
    show (KeyedMap.insert _ (grantedLease s env req idx)).len ≤
      max 129 (liveCount (KeyedMap.insert _ (grantedLease s env req idx)))
    rw [hlive]
    omega

/-! ### Runs -/

/-- What one step may do to the leases. -/
structure LifeCycle (s : ArbiterState) (op : ArbiterOp) : Prop where
  terminal : ∀ id l, s.leases.get? id = some l → l.isLive = false →
    (step s op).leases.get? id = some l ∨ (step s op).leases.get? id = none
  preempted : ∀ id l, s.leases.get? id = some l → l.state = .preempted →
    ∃ st, (step s op).leases.get? id = some (l.withState st) ∧ LeavesPreempted s op l st
  entersPreempted : ∀ id l, (step s op).leases.get? id = some l → l.state = .preempted →
    s.leases.get? id = some l ∨
    ∃ env req idx l₀, op = .lease (.acquire env req) ∧ s.leases.get? id = some l₀ ∧
      l = l₀.withState .preempted ∧ l.priority < req.priority ∧
      targetPlaneIdx s.topology req = .ok idx ∧ l.planeId = s.topology.planeIdAt idx
  live : ∀ id l, s.leases.get? id = some l → l.isLive = true →
    ∃ st, (step s op).leases.get? id = some (l.withState st)
  bounded : ∀ env req lease, op = .lease (.acquire env req) →
    (acquireLease s env req).result = .ok lease →
    (step s op).leases.len ≤ max 129 (liveCount (step s op).leases)

theorem Tracked.lifeCycle {used : List LeaseId} (h : Tracked used s) (op : ArbiterOp)
    (hn : ∀ n ∈ op.newIds, n ∉ used) : LifeCycle s op := by
  have hfresh := h.fresh hn
  have hchange := step_change s op hfresh
  refine ⟨fun id l => (hchange id).terminal_kept, fun id l => (hchange id).preempted,
    fun id l => (hchange id).enters_preempted, fun id l => (hchange id).live_kept, ?_⟩
  rintro env req lease rfl hok
  exact len_acquireLease (hfresh _ (List.mem_cons_self ..)) hok

theorem Tracked.run {used : List LeaseId} (h : Tracked used s) (ops : List ArbiterOp)
    (hfresh : Fresh ArbiterOp.newIds used ops) :
    Tracked (usedAfter ArbiterOp.newIds used ops) (exec Arbiter.step s ops) :=
  exec_inv_fresh_all Tracked (fun _ _ op h hn => h.step op hn) used s ops h hfresh

theorem Tracked.gone_run {used : List LeaseId} (h : Tracked used s) (ops : List ArbiterOp)
    (hfresh : Fresh ArbiterOp.newIds used ops) (hid : id ∈ used) (hgone : s.leases.get? id = none) :
    (exec Arbiter.step s ops).leases.get? id = none := by
  refine (exec_inv_fresh_all
    (fun used s => Tracked used s ∧ id ∈ used ∧ s.leases.get? id = none) ?_ used s ops
    ⟨h, hid, hgone⟩ hfresh).2.2
  rintro used s op ⟨ht, hu, hnone⟩ hn
  refine ⟨ht.step op hn, List.mem_append_right _ hu, ?_⟩
  exact (step_change s op (ht.fresh hn) id).absent_kept hnone fun hmem => hn id hmem hu

theorem Tracked.terminal_run {used : List LeaseId} (h : Tracked used s) (ops : List ArbiterOp)
    (hfresh : Fresh ArbiterOp.newIds used ops) {l : ComputeLease}
    (hl : s.leases.get? id = some l) (hdead : l.isLive = false) :
    (exec Arbiter.step s ops).leases.get? id = some l ∨ (exec Arbiter.step s ops).leases.get? id = none := by
  refine (exec_inv_fresh_all (fun used s => Tracked used s ∧ id ∈ used ∧
    (s.leases.get? id = some l ∨ s.leases.get? id = none)) ?_ used s ops
    ⟨h, h id (by rw [hl]; simp), Or.inl hl⟩ hfresh).2.2
  rintro used s op ⟨ht, hu, hstate⟩ hn
  have hchange := step_change s op (ht.fresh hn) id
  refine ⟨ht.step op hn, List.mem_append_right _ hu, ?_⟩
  rcases hstate with hl | hnone
  · exact hchange.terminal_kept hl hdead
  · exact Or.inr (hchange.absent_kept hnone fun hmem => hn id hmem hu)

def EmergencyKept (s : ArbiterState) : Prop :=
  ∀ id l, s.leases.get? id = some l → l.priority = .emergencyTriage → l.state ≠ .preempted

theorem emergencyKept_run {used : List LeaseId} (h : Tracked used s) (hk : EmergencyKept s)
    (ops : List ArbiterOp) (hfresh : Fresh ArbiterOp.newIds used ops) :
    EmergencyKept (exec step s ops) := by
  refine (exec_inv_fresh_all (fun used s => Tracked used s ∧ EmergencyKept s) ?_ used s ops
    ⟨h, hk⟩ hfresh).2
  rintro used s op ⟨ht, hk⟩ hn
  refine ⟨ht.step op hn, fun id l hl hprio hst => ?_⟩
  rcases (step_change s op (ht.fresh hn) id).enters_preempted hl hst with
    hb | ⟨env, req, idx, l₀, -, -, -, hlt, -, -⟩
  · exact hk id l hb hprio hst
  · rw [hprio] at hlt
    exact LeasePriority.emergency_not_lt _ hlt

/-- Lease life cycle: for every run of lease operations and hot-plug events with
fresh ids, each step keeps to `LifeCycle`; a terminal lease keeps its exact
state until it is dropped; a lease that has been dropped never comes back; an
emergency lease is preempted in no state of the run. -/
theorem lease_life_cycle (T : HardwareTopology) (ops : List ArbiterOp)
    (hfresh : Fresh ArbiterOp.newIds [] ops) :
    Along step LifeCycle (new T) ops ∧
    (∀ as bs, as ++ bs <+: ops → ∀ id l, (exec step (new T) as).leases.get? id = some l →
      (l.state = .expired ∨ l.state = .revoked) →
      (exec step (new T) (as ++ bs)).leases.get? id = some l ∨
        (exec step (new T) (as ++ bs)).leases.get? id = none) ∧
    (∀ as bs cs, as ++ bs ++ cs <+: ops → ∀ id, (exec step (new T) as).leases.get? id ≠ none →
      (exec step (new T) (as ++ bs)).leases.get? id = none →
      (exec step (new T) (as ++ bs ++ cs)).leases.get? id = none) ∧
    (∀ as, as <+: ops → EmergencyKept (exec step (new T) as)) := by
  refine ⟨?_, ?_, ?_, ?_⟩
  · exact along_fresh (C := fun _ _ => True) Tracked (fun _ _ op h hn _ => h.step op hn)
      (fun _ _ op h hn _ => h.lifeCycle op hn) [] _ ops (tracked_new T) hfresh
      (along_of_forall ops (fun _ _ _ => trivial) _)
  · rintro as bs ⟨cs, rfl⟩ id l hl hst
    have hf := hfresh.of_append_left
    have hdead : l.isLive = false := by
      rcases hst with hst | hst <;> rw [ComputeLease.isLive, hst] <;> rfl
    rw [exec_append]
    exact ((tracked_new T).run as hf.of_append_left).terminal_run bs hf.of_append_right hl hdead
  · rintro as bs cs ⟨ds, rfl⟩ id hid hgone
    have hf := hfresh.of_append_left
    have hused : id ∈ usedAfter ArbiterOp.newIds [] (as ++ bs) := by
      have := (tracked_new T).run as hf.of_append_left.of_append_left id hid
      rw [mem_usedAfter] at this ⊢
      rw [drawn_append, List.mem_append]
      tauto
    rw [exec_append]
    exact ((tracked_new T).run (as ++ bs) hf.of_append_left).gone_run cs hf.of_append_right hused
      hgone
  · rintro as ⟨bs, rfl⟩
    refine emergencyKept_run (tracked_new T) (fun id l hl => ?_) as hfresh.of_append_left
    exact absurd hl (by rw [new, KeyedMap.get?_empty]; simp)

/-- A batch lease is preempted, then unplugged with its plane, and a thaw comes
too late. -/
def unplugRun : List ArbiterOp :=
  [.lease (.acquire (sampleEnv 0) (sampleRequest .batch 6 "gpu0")),
   .lease (.acquire (sampleEnv 1) (sampleRequest .interactive 8 "gpu0")),
   .updateTopology IterOrder.reversed (sampleTopology []), .lease (.thaw (sampleId 0))]

theorem lease_life_cycle_unplugRun :
    Along step LifeCycle (new (sampleTopology [samplePlane "gpu0" .discreteGpu 10 10])) unplugRun :=
  (lease_life_cycle _ unplugRun ⟨by decide, by decide⟩).1

end Inferenced.Arbiter
