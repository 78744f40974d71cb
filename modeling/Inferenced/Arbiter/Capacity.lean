import Inferenced.Arbiter.LifeCycle

/-!
# Capacities along runs

Under hot-plug the planes change, but every state shows the layout of a
topology that the arbiter was given. If all of those report no more available
memory than they have, and less than half of the `u64` range, then so does every
state, no lease below emergency holds more than such a plane has, and none of
the additions that make room for a request wraps around.
-/

namespace Inferenced.Arbiter
open Lib Lib.Runs HardwareTopology

variable {t T : HardwareTopology} {s : ArbiterState} {env : CallEnv} {req : LeaseRequest} {idx : ℕ}

def ArbiterOp.topologies : ArbiterOp → List HardwareTopology
  | .lease _ => []
  | .updateTopology _ t => [t]

def given (T : HardwareTopology) (ops : List ArbiterOp) : List HardwareTopology :=
  T :: ops.flatMap ArbiterOp.topologies

theorem layout_given (T : HardwareTopology) (ops : List ArbiterOp) :
    ∃ t ∈ given T ops, (exec step (new T) ops).topology.layout = t.layout := by
  induction ops using List.reverseRecOn with
  | nil => exact ⟨T, List.mem_cons_self .., rfl⟩
  | append_singleton ops op ih =>
    rw [exec_append]
    have hmono : ∀ t ∈ given T ops, t ∈ given T (ops ++ [op]) := by
      intro t ht
      simp only [given, List.flatMap_append, List.mem_cons, List.mem_append] at ht ⊢
      tauto
    cases op with
    | lease lop =>
      obtain ⟨t, ht, hlay⟩ := ih
      exact ⟨t, hmono t ht, (layout_stepLease _ _).trans hlay⟩
    | updateTopology order t =>
      refine ⟨t, ?_, layout_updateTopology _ _ _⟩
      simp [given, ArbiterOp.topologies]

/-! ### Capped planes -/

def PlaneCapped (p : ComputePlane) : Prop :=
  p.availableMemoryBytes ≤ p.totalMemoryBytes ∧ p.totalMemoryBytes.toNat < 2 ^ 63

def Capped (t : HardwareTopology) : Prop := ∀ p ∈ t.planes, PlaneCapped p

theorem PlaneCapped.debit {p : ComputePlane} (h : PlaneCapped p) (b : UInt64) :
    PlaneCapped (p.debit b) := by
  refine ⟨?_, h.2⟩
  have := h.1
  rw [UInt64.le_iff_toNat_le] at this ⊢
  simp only [ComputePlane.debit, toNat_saturatingSub]
  omega

theorem PlaneCapped.credit {p : ComputePlane} (h : PlaneCapped p) (b : UInt64) :
    PlaneCapped (p.credit b) := by
  refine ⟨?_, h.2⟩
  rw [UInt64.le_iff_toNat_le]
  simp only [ComputePlane.credit, toNat_cappedAdd]
  exact min_le_right _ _

theorem capped_modifyFirst {l : List ComputePlane} {q : ComputePlane → Bool}
    {f : ComputePlane → ComputePlane}
    (hf : ∀ p, PlaneCapped p → PlaneCapped (f p))
    (h : ∀ p ∈ l, PlaneCapped p) : ∀ p ∈ modifyFirst q f l, PlaneCapped p := by
  intro p hp
  rcases mem_modifyFirst hp with hp | ⟨x, hx, -, rfl⟩
  · exact h p hp
  · exact hf x (h x hx)

theorem Capped.restore (h : Capped t) (q : String) (b : UInt64) : Capped (restorePlaneMemory t q b) := by
  have hplane := capped_modifyFirst (q := fun p => decide (p.id = q)) (fun p hp => hp.credit b) h
  unfold restorePlaneMemory
  dsimp only
  split
  · exact capped_modifyFirst (fun p hp => hp.credit b) hplane
  · exact hplane

theorem Capped.debitPlane (h : Capped t) (q : String) (b : UInt64) : Capped (debitPlaneMemory t q b) := by
  have hplane := capped_modifyFirst (q := fun p => decide (p.id = q)) (fun p hp => hp.debit b) h
  unfold debitPlaneMemory
  dsimp only
  split
  · exact capped_modifyFirst (fun p hp => hp.debit b) hplane
  · exact hplane

theorem Capped.debitTarget (h : Capped t) (idx : ℕ) (b : UInt64) : Capped (debitTarget t idx b) := by
  have hplane : ∀ p ∈ t.planes.modify idx (·.debit b), PlaneCapped p := by
    intro p hp
    obtain ⟨j, hj⟩ := List.mem_iff_getElem?.mp hp
    rw [List.getElem?_modify] at hj
    obtain ⟨x, hx, rfl⟩ := Option.map_eq_some_iff.mp hj
    split
    · exact (h x (List.mem_of_getElem? hx)).debit b
    · exact h x (List.mem_of_getElem? hx)
  unfold Arbiter.debitTarget
  dsimp only
  split
  · exact capped_modifyFirst (fun p hp => hp.debit b) hplane
  · exact hplane

theorem Capped.makeRoom (h : Capped s.topology) : Capped (makeRoom s env req idx).topology :=
  makeRoom_rule (fun r => Capped r.topology) h fun _ _ hr _ _ _ => hr.restore _ _

theorem Capped.availableAt (h : Capped t) (idx : ℕ) : (t.availableAt idx).toNat < 2 ^ 63 := by
  unfold HardwareTopology.availableAt
  cases hp : t.planes[idx]? with
  | none => decide
  | some p =>
    obtain ⟨hle, hlt⟩ := h p (List.mem_of_getElem? hp)
    rw [UInt64.le_iff_toNat_le] at hle
    exact hle.trans_lt hlt

theorem Capped.stepLease (h : Capped s.topology) (op : LeaseOp) : Capped (stepLease s op).topology := by
  have hend : ∀ st id, Capped (endLease st s id).state.topology := by
    intro st id
    rcases endLease_cases st s id with ⟨r, he, -⟩ | ⟨l, -, -, he⟩ | ⟨l, -, -, he⟩ <;> rw [he]
    · exact h
    · exact h.restore _ _
    · exact h
  have hmark : ∀ st id, Capped (markLease st s id).state.topology := by
    intro st id
    rcases markLease_cases st s id with ⟨r, he, -⟩ | ⟨l, -, -, he⟩ <;> rw [he] <;> exact h
  cases op with
  | acquire env req =>
    show Capped (acquireLease s env req).state.topology
    rcases acquireLease_cases s env req with
      ⟨-, e, he⟩ | ⟨-, idx, e, -, -, he⟩ | ⟨idx, -, he⟩ <;> rw [he]
    · exact h
    · exact h.makeRoom
    · exact h.makeRoom.debitTarget idx _
  | release id => exact hend .expired id
  | revoke id => exact hend .revoked id
  | yield id => exact hmark .preempting id
  | freeze id => exact hmark .frozen id
  | thaw id =>
    show Capped (thawLease s id).state.topology
    rcases thawLease_cases s id with
      ⟨e, he, -⟩ | ⟨l, -, -, -, he⟩ | ⟨l, -, -, he⟩ | ⟨l, -, -, he⟩ <;> rw [he]
    · exact h
    · exact h.debitPlane _ _
    · exact h
    · exact h

theorem Capped.updateTopology (h : Capped t) (s : ArbiterState) (order : IterOrder ComputeLease) :
    Capped (updateTopology s order t).topology := by
  have hfold : ∀ (ls : List ComputeLease) (acc : HardwareTopology × LeaseMap),
      Capped acc.1 → Capped (ls.foldl rebookLease acc).1 := by
    intro ls
    induction ls with
    | nil => exact fun acc h => h
    | cons l ls ih =>
      refine fun acc h => ih _ ?_
      obtain ⟨u, leases⟩ := acc
      simp only [rebookLease]
      split
      · split
        · exact Capped.debitPlane h _ _
        · exact h
      · split <;> exact h
  exact hfold _ _ h

/-! ### Bounded leases -/

/-- Capped planes, and no active lease below emergency of `2 ^ 63` bytes or
more. -/
structure Bounded (s : ArbiterState) : Prop where
  capped : Capped s.topology
  leases : ∀ id l, s.leases.get? id = some l → l.isActive = true → l.priority ≠ .emergencyTriage →
    l.allocatedMemoryBytes.toNat < 2 ^ 63

theorem Bounded.stepLease (h : Bounded s) (op : LeaseOp)
    (hfresh : ∀ n ∈ op.newIds, s.leases.get? n = none) : Bounded (stepLease s op) := by
  refine ⟨h.capped.stepLease op, fun id l hl ha hne => ?_⟩
  rcases (stepLease_lease s op hfresh id).origin hl ha with
    ⟨l₀, hl₀, ha₀, hsame⟩ | ⟨env, req, idx, -, hadm, rfl⟩ | ⟨l₀, -, -, -, hfit, rfl⟩
  · rw [hsame] at hne ⊢
    exact h.leases id l₀ hl₀ ha₀ hne
  · have hroom : ¬ Exhausted s env req idx := fun hx => hne (hadm.room hx)
    rw [Exhausted, UInt64.lt_iff_toNat_lt, not_lt] at hroom
    exact hroom.trans_lt (h.capped.makeRoom.availableAt idx)
  · obtain ⟨⟨plane, hfind, hle⟩, -⟩ := hfit
    obtain ⟨hcap, hlt⟩ := h.capped plane (List.mem_of_find?_eq_some hfind)
    rw [UInt64.le_iff_toNat_le] at hle hcap
    exact (hle.trans hcap).trans_lt hlt

theorem Bounded.step (h : Bounded s) (op : ArbiterOp)
    (hfresh : ∀ n ∈ op.newIds, s.leases.get? n = none) (hgiven : ∀ t ∈ op.topologies, Capped t) :
    Bounded (step s op) := by
  cases op with
  | lease lop => exact h.stepLease lop hfresh
  | updateTopology order t =>
    refine ⟨(hgiven t (List.mem_singleton_self _)).updateTopology s order, fun id l hl ha hne => ?_⟩
    rcases updateTopology_lease s order t id with hs | ⟨l₀, -, -, -, hs⟩
    · exact h.leases id l (hs ▸ hl) ha hne
    · rw [show (Arbiter.step s (.updateTopology order t)).leases.get? id = _ from hs] at hl
      cases hl
      cases ha

theorem bounded_run (ops : List ArbiterOp) (hfresh : Fresh ArbiterOp.newIds [] ops)
    (hgiven : ∀ t ∈ given T ops, Capped t) : Bounded (exec step (new T) ops) := by
  have hops : Along Arbiter.step (fun _ op => ∀ t ∈ op.topologies, Capped t) (new T) ops :=
    along_of_forall ops (fun op hop _ t ht => hgiven t
      (List.mem_cons_of_mem _ (List.mem_flatMap.mpr ⟨op, hop, ht⟩))) _
  refine (exec_inv_fresh (fun used s => Tracked used s ∧ Bounded s)
    (fun _ _ op h hn hop => ⟨h.1.step op hn, h.2.step op (h.1.fresh hn) hop⟩) [] _ ops
    ⟨tracked_new T, hgiven T (List.mem_cons_self ..), fun id l hl => ?_⟩ hfresh hops).2
  exact absurd hl (by rw [new, KeyedMap.get?_empty]; simp)

/-! ### Making room -/

/-- No addition of the preemption loop reaches `2 ^ 64`. -/
def LoopFits (idx : ℕ) (target : String) (required : UInt64) : List LeaseId → Preemption → Prop
  | [], _ => True
  | pid :: rest, st =>
    if required ≤ st.topology.availableAt idx then True
    else match st.leases.get? pid with
      | some lease =>
        (∀ p ∈ st.topology.planes,
          p.availableMemoryBytes.toNat + lease.allocatedMemoryBytes.toNat < 2 ^ 64) ∧
        LoopFits idx target required rest (st.preempt target lease)
      | none => LoopFits idx target required rest st

theorem loopFits_of_bounded {target : String} {required : UInt64} (priority : LeasePriority)
    (ids : List LeaseId) (st : Preemption) (hn : ids.Nodup) (hcap : Capped st.topology)
    (hv : ∀ id ∈ ids, ∃ l, l.id = id ∧ Victim st.leases target priority l ∧
      l.allocatedMemoryBytes.toNat < 2 ^ 63) : LoopFits idx target required ids st := by
  induction ids generalizing st with
  | nil => exact trivial
  | cons id rest ih =>
    rw [List.nodup_cons] at hn
    obtain ⟨l, rfl, hl, hsmall⟩ := hv _ (List.mem_cons_self ..)
    rw [LoopFits]
    split
    · exact trivial
    · rw [hl.stored]
      refine ⟨fun p hp => ?_, ih _ hn.2 (hcap.restore _ _) fun j hj => ?_⟩
      · obtain ⟨hle, hlt⟩ := hcap p hp
        rw [UInt64.le_iff_toNat_le] at hle
        omega
      · obtain ⟨m, rfl, hm, hmsmall⟩ := hv j (List.mem_cons_of_mem _ hj)
        exact ⟨m, rfl, hm.preempt fun h => hn.1 (h ▸ hj), hmsmall⟩

/-- No addition that `acquire_lease` makes on plane `idx` reaches `2 ^ 64`. -/
def CreditsFit (s : ArbiterState) (env : CallEnv) (req : LeaseRequest) (idx : ℕ) : Prop :=
  LoopFits idx (s.topology.planeIdAt idx) req.requiredBytes
    (preemptable s.leases env.order (s.topology.planeIdAt idx) req.priority)
    ⟨s.topology, s.leases, []⟩

theorem Bounded.creditsFit (h : Bounded s) : CreditsFit s env req idx := by
  refine loopFits_of_bounded req.priority _ _ (nodup_preemptable _ _) h.capped fun id hid => ?_
  obtain ⟨l, hl, hv⟩ := mem_preemptable.mp hid
  refine ⟨l, hl, hv, h.leases l.id l hv.stored hv.active fun he => ?_⟩
  exact LeasePriority.emergency_not_lt req.priority (he ▸ hv.lower)

end Inferenced.Arbiter
