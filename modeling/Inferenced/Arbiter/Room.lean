import Inferenced.Arbiter.Planes

/-!
# What `acquire_lease` can do

The preemption loop only ever takes victims: active leases on the target plane
of a priority below the request's, while the plane is still short of memory.
`makeRoom_rule` is the one induction over the loop; `acquireLease_cases` lists
the ends of the call.
-/

namespace Inferenced.Arbiter
open Lib HardwareTopology

variable {s : ArbiterState} {env : CallEnv} {req : LeaseRequest} {idx : ℕ} {target : String}
  {required : UInt64} {priority : LeasePriority}

/-- `l` may be preempted by a request of priority `priority` on `target`. -/
structure Victim (leases : LeaseMap) (target : String) (priority : LeasePriority)
    (l : ComputeLease) : Prop where
  stored : leases.get? l.id = some l
  active : l.isActive = true
  onTarget : l.planeId = target
  lower : l.priority < priority

theorem mem_preemptable {leases : LeaseMap} {order : IterOrder ComputeLease} {id : LeaseId} :
    id ∈ preemptable leases order target priority ↔
      ∃ l, l.id = id ∧ Victim leases target priority l := by
  simp only [preemptable, (sortByKey_perm _ _).mem_iff, List.mem_map, List.mem_filter,
    (order.perm _).mem_iff, Bool.and_eq_true, decide_eq_true_eq]
  constructor
  · rintro ⟨l, ⟨hl, ⟨hp, ha⟩, hlt⟩, rfl⟩
    exact ⟨l, rfl, KeyedMap.get?_of_mem hl, ha, hp, hlt⟩
  · rintro ⟨l, rfl, hs, ha, hp, hlt⟩
    exact ⟨l, ⟨(KeyedMap.get?_eq_some.mp hs).1, ⟨hp, ha⟩, hlt⟩, rfl⟩

theorem nodup_preemptable (leases : LeaseMap) (order : IterOrder ComputeLease) :
    (preemptable leases order target priority).Nodup := by
  refine (sortByKey_perm _ _).nodup_iff.mpr ?_
  have hperm : ((order.order leases.entries).map (·.id)).Nodup :=
    ((order.perm leases.entries).map _).nodup_iff.mpr leases.nodup
  exact hperm.sublist (List.filter_sublist.map _)

theorem get?_setState (m : LeaseMap) (id : LeaseId) (st : LeaseState) (j : LeaseId) :
    (m.setState id st).get? j = if j = id then (m.get? j).map (·.withState st) else m.get? j :=
  KeyedMap.get?_modify m id _ _ j

theorem Victim.preempt {st : Preemption} {l m : ComputeLease}
    (h : Victim st.leases target priority m) (hne : m.id ≠ l.id) :
    Victim (st.preempt target l).leases target priority m := by
  refine ⟨?_, h.active, h.onTarget, h.lower⟩
  simp only [Preemption.preempt, get?_setState, hne, if_false, h.stored]

/-- Induction over the preemption loop: `P` holds at its end if one preemption
of a victim keeps it. The ids still to visit name victims of the start. -/
theorem preemptLoop_rule (P : Preemption → Prop) (start : LeaseMap)
    (hstep : ∀ st l, P st → Victim start target priority l → Victim st.leases target priority l →
      st.topology.availableAt idx < required → P (st.preempt target l))
    (ids : List LeaseId) (st : Preemption) (hn : ids.Nodup)
    (hv : ∀ id ∈ ids, ∃ l, l.id = id ∧ Victim start target priority l ∧
      Victim st.leases target priority l) (hp : P st) :
    P (preemptLoop idx target required ids st) := by
  induction ids generalizing st with
  | nil => exact hp
  | cons id rest ih =>
    rw [preemptLoop]
    split
    · exact hp
    · rename_i hshort
      rw [List.nodup_cons] at hn
      obtain ⟨l, rfl, hl₀, hl⟩ := hv _ (List.mem_cons_self ..)
      rw [hl.stored]
      refine ih _ hn.2 (fun j hj => ?_) (hstep st l hp hl₀ hl (by simpa using hshort))
      obtain ⟨m, rfl, hm₀, hm⟩ := hv j (List.mem_cons_of_mem _ hj)
      exact ⟨m, rfl, hm₀, hm.preempt fun h => hn.1 (h ▸ hj)⟩

theorem makeRoom_rule (P : Preemption → Prop)
    (hstart : P ⟨s.topology, s.leases, []⟩)
    (hstep : ∀ st l, P st → Victim s.leases (s.topology.planeIdAt idx) req.priority l →
      Victim st.leases (s.topology.planeIdAt idx) req.priority l →
      st.topology.availableAt idx < req.requiredBytes →
      P (st.preempt (s.topology.planeIdAt idx) l)) :
    P (makeRoom s env req idx) := by
  unfold makeRoom
  dsimp only
  split
  · refine preemptLoop_rule P s.leases hstep _ _ (nodup_preemptable _ _) (fun id hid => ?_) hstart
    obtain ⟨l, hl, hv⟩ := mem_preemptable.mp hid
    exact ⟨l, hl, hv, hv⟩
  · exact hstart

theorem layout_makeRoom : (makeRoom s env req idx).topology.layout = s.topology.layout :=
  makeRoom_rule (fun st => st.topology.layout = s.topology.layout) rfl fun st l h _ _ _ => by
    simp only [Preemption.preempt, layout_restorePlaneMemory, h]

theorem makeRoom_of_no_victim
    (h : ∀ l, ¬ Victim s.leases (s.topology.planeIdAt idx) req.priority l) :
    makeRoom s env req idx = ⟨s.topology, s.leases, []⟩ := by
  have hnil : preemptable s.leases env.order (s.topology.planeIdAt idx) req.priority = [] := by
    refine List.eq_nil_iff_forall_not_mem.mpr fun id hid => ?_
    obtain ⟨l, -, hl⟩ := mem_preemptable.mp hid
    exact h l hl
  unfold makeRoom
  simp only [hnil, preemptLoop, ite_self]

theorem makeRoom_of_room (env : CallEnv) (h : req.requiredBytes ≤ s.topology.availableAt idx) :
    makeRoom s env req idx = ⟨s.topology, s.leases, []⟩ :=
  if_neg (UInt64.not_lt.mpr h)

theorem preemptLoop_preempted {l : ComputeLease} (ids : List LeaseId) (st : Preemption)
    (h : st.leases.get? l.id = some (l.withState .preempted)) :
    (preemptLoop idx target required ids st).leases.get? l.id = some (l.withState .preempted) := by
  induction ids generalizing st with
  | nil => exact h
  | cons id rest ih =>
    rw [preemptLoop]
    split
    · exact h
    · cases hg : st.leases.get? id with
      | none => exact ih st h
      | some m =>
        refine ih _ ?_
        simp only [Preemption.preempt, get?_setState, h, Option.map_some]
        split <;> rfl

theorem preemptLoop_exhausted (ids : List LeaseId) (st : Preemption) (hn : ids.Nodup)
    (hx : (preemptLoop idx target required ids st).topology.availableAt idx < required)
    {l : ComputeLease} (hmem : l.id ∈ ids) (hl : st.leases.get? l.id = some l) :
    (preemptLoop idx target required ids st).leases.get? l.id = some (l.withState .preempted) := by
  induction ids generalizing st with
  | nil => cases hmem
  | cons id rest ih =>
    rw [List.nodup_cons] at hn
    rw [preemptLoop] at hx ⊢
    split at hx
    · rename_i hle
      exact absurd hx (UInt64.not_lt.mpr hle)
    · rename_i hshort
      rw [if_neg hshort]
      rcases List.mem_cons.mp hmem with rfl | hrest
      · rw [hl]
        refine preemptLoop_preempted rest _ ?_
        simp only [Preemption.preempt, get?_setState, if_true, hl, Option.map_some]
      · cases hg : st.leases.get? id with
        | none =>
          rw [hg] at hx
          exact ih st hn.2 hx hrest hl
        | some m =>
          rw [hg] at hx
          have hne : l.id ≠ m.id := fun h => hn.1 (KeyedMap.get?_key hg ▸ h ▸ hrest)
          refine ih _ hn.2 hx hrest ?_
          simp only [Preemption.preempt, get?_setState, hne, if_false, hl]

/-! ### The ends of the call -/

theorem findIdx?_lt {α : Type*} {p : α → Bool} {l : List α} {i : ℕ} (h : l.findIdx? p = some i) :
    i < l.length := by
  rw [List.findIdx?_eq_some_iff_findIdx_eq] at h
  exact h.1

theorem zipIdx_snd_lt {α : Type*} {l : List α} {x : α × ℕ} (h : x ∈ l.zipIdx) : x.2 < l.length := by
  obtain ⟨-, hlt, -⟩ := List.mem_zipIdx h
  omega

theorem targetPlaneIdx_lt {t : HardwareTopology} (h : targetPlaneIdx t req = .ok idx) :
    idx < t.planes.length := by
  unfold targetPlaneIdx at h
  split at h
  · split at h
    · rename_i hf
      cases h
      exact findIdx?_lt hf
    · cases h
  · split at h
    · split at h
      · rename_i hf
        cases h
        rcases Option.or_eq_some_iff.mp hf with hf | ⟨-, hf⟩
        · exact findIdx?_lt hf
        · rcases Option.or_eq_some_iff.mp hf with hf | ⟨-, hf⟩
          · exact findIdx?_lt hf
          · obtain ⟨x, hx, rfl⟩ := Option.map_eq_some_iff.mp hf
            exact zipIdx_snd_lt (maxByKey_mem hx)
      · cases h
    · split at h
      · rename_i hf
        cases h
        obtain ⟨x, hx, rfl⟩ := Option.map_eq_some_iff.mp hf
        exact zipIdx_snd_lt (List.mem_filter.mp (maxByKey_mem hx)).1
      · cases h

/-- The request is refused on plane `idx` although every victim was taken. -/
def Exhausted (s : ArbiterState) (env : CallEnv) (req : LeaseRequest) (idx : ℕ) : Prop :=
  (makeRoom s env req idx).topology.availableAt idx < req.requiredBytes

instance : Decidable (Exhausted s env req idx) := inferInstanceAs (Decidable (_ < _))

theorem Exhausted.preempted (h : Exhausted s env req idx) {l : ComputeLease}
    (hv : Victim s.leases (s.topology.planeIdAt idx) req.priority l) :
    (makeRoom s env req idx).leases.get? l.id = some (l.withState .preempted) := by
  unfold Exhausted makeRoom at h
  unfold makeRoom
  dsimp only at h ⊢
  split at h
  · rename_i hshort
    rw [if_pos hshort]
    exact preemptLoop_exhausted _ _ (nodup_preemptable _ _) h (mem_preemptable.mpr ⟨l, rfl, hv⟩)
      hv.stored
  · rename_i hroom
    exact absurd h hroom

/-- The request is granted on plane `idx`: the pressure gate lets it pass, it
targets `idx`, and there is room or the grant is forced. -/
structure Admitted (s : ArbiterState) (env : CallEnv) (req : LeaseRequest) (idx : ℕ) : Prop where
  gate : env.psi.level = .critical → req.priority = .emergencyTriage
  target : targetPlaneIdx s.topology req = .ok idx
  room : Exhausted s env req idx → req.priority = .emergencyTriage

/-- The grant takes memory that is not there. -/
def ForcedGrant (s : ArbiterState) (env : CallEnv) (req : LeaseRequest) : Prop :=
  ∃ idx, Admitted s env req idx ∧ Exhausted s env req idx

theorem acquireLease_of_admitted (h : Admitted s env req idx) :
    acquireLease s env req = grant s (makeRoom s env req idx) env req idx := by
  unfold acquireLease
  rw [if_neg fun hc => hc.2 (h.gate hc.1), h.target]
  dsimp only
  rw [if_neg fun hc => hc.2 (h.room hc.1)]

/-- The call is refused before it looks for room: by the pressure gate or for
want of a plane. -/
def Barred (s : ArbiterState) (env : CallEnv) (req : LeaseRequest) : Prop :=
  (env.psi.level = .critical ∧ req.priority ≠ .emergencyTriage) ∨
    ∃ e, targetPlaneIdx s.topology req = .error e

theorem Barred.not_admitted (h : Barred s env req) (idx : ℕ) : ¬ Admitted s env req idx := by
  intro hadm
  rcases h with hg | ⟨e, he⟩
  · exact hg.2 (hadm.gate hg.1)
  · have := hadm.target
    rw [he] at this
    cases this

/-- The three ends of `acquire_lease`: refused before the loop, refused after
it, granted. -/
theorem acquireLease_cases (s : ArbiterState) (env : CallEnv) (req : LeaseRequest) :
    (Barred s env req ∧ ∃ e, acquireLease s env req = { result := .error e, state := s }) ∨
    ((¬ Barred s env req ∧ ∀ idx, ¬ Admitted s env req idx) ∧
      ∃ idx e, targetPlaneIdx s.topology req = .ok idx ∧ Exhausted s env req idx ∧
      acquireLease s env req =
        { result := .error e
          state := { s with
            topology := (makeRoom s env req idx).topology
            leases := (makeRoom s env req idx).leases } }) ∨
    (∃ idx, Admitted s env req idx ∧
      acquireLease s env req = grant s (makeRoom s env req idx) env req idx) := by
  by_cases hg : env.psi.level = .critical ∧ req.priority ≠ .emergencyTriage
  · refine Or.inl ⟨Or.inl hg, .busSaturation (busSaturationMessage env.psi), ?_⟩
    unfold acquireLease
    rw [if_pos hg]
  · cases ht : targetPlaneIdx s.topology req with
    | error e =>
      refine Or.inl ⟨Or.inr ⟨e, ht⟩, e, ?_⟩
      unfold acquireLease
      rw [if_neg hg, ht]
    | ok idx =>
      by_cases hx : Exhausted s env req idx ∧ req.priority ≠ .emergencyTriage
      · refine Or.inr (Or.inl ⟨⟨?_, fun j h => ?_⟩, idx, .resourceExhaustion
          (s.topology.planeIdAt idx) req.requiredBytes
          ((makeRoom s env req idx).topology.availableAt idx), rfl, hx.1, ?_⟩)
        · rintro (h | ⟨e, he⟩)
          · exact hg h
          · rw [ht] at he
            cases he
        · have := h.target
          rw [ht] at this
          cases this
          exact hx.2 (h.room hx.1)
        · unfold acquireLease
          rw [if_neg hg, ht]
          exact if_pos hx
      · have hadm : Admitted s env req idx := by
          refine ⟨fun hc => ?_, ht, fun hex => ?_⟩
          · by_contra hne
            exact hg ⟨hc, hne⟩
          · by_contra hne
            exact hx ⟨hex, hne⟩
        exact Or.inr (Or.inr ⟨idx, hadm, acquireLease_of_admitted hadm⟩)

/-! ### The other operations -/

theorem endLease_cases (final : LeaseState) (s : ArbiterState) (id : LeaseId) :
    (∃ r, endLease final s id = { result := r, state := s } ∧
      ∀ l, s.leases.get? id = some l → l.isLive = false) ∨
    (∃ l, s.leases.get? id = some l ∧ l.isActive = true ∧
      endLease final s id =
        { result := .ok ()
          state := { s with
            leases := s.leases.setState id final
            topology := restorePlaneMemory s.topology l.planeId l.allocatedMemoryBytes } }) ∨
    (∃ l, s.leases.get? id = some l ∧ l.state = .preempted ∧
      endLease final s id =
        { result := .ok (), state := { s with leases := s.leases.setState id final } }) := by
  unfold endLease
  cases hl : s.leases.get? id with
  | none => exact Or.inl ⟨_, rfl, fun l h => by cases h⟩
  | some l =>
    dsimp only
    cases hlive : l.isLive with
    | false =>
      refine Or.inl ⟨.ok (), rfl, fun m hm => ?_⟩
      cases hm
      exact hlive
    | true =>
      cases hact : l.isActive with
      | true => exact Or.inr (Or.inl ⟨l, rfl, hact, rfl⟩)
      | false =>
        refine Or.inr (Or.inr ⟨l, rfl, ?_, rfl⟩)
        simp only [ComputeLease.isActive] at hact
        simpa only [ComputeLease.isLive, LeaseState.isLive, hact, Bool.false_or, beq_iff_eq]
          using hlive

theorem markLease_cases (mark : LeaseState) (s : ArbiterState) (id : LeaseId) :
    (∃ r, markLease mark s id = { result := r, state := s } ∧
      ∀ l, s.leases.get? id = some l → l.isActive = false) ∨
    (∃ l, s.leases.get? id = some l ∧ l.isActive = true ∧
      markLease mark s id =
        { result := .ok (), state := { s with leases := s.leases.setState id mark } }) := by
  unfold markLease
  cases hl : s.leases.get? id with
  | none => exact Or.inl ⟨_, rfl, fun l h => by cases h⟩
  | some l =>
    dsimp only
    cases hact : l.isActive with
    | false =>
      refine Or.inl ⟨.ok (), rfl, fun m hm => ?_⟩
      cases hm
      exact hact
    | true => exact Or.inr ⟨l, rfl, hact, rfl⟩

/-- A preempted lease finds room for a thaw: on its plane and, for a UMA
plane, on the CPU plane. -/
def ThawFits (t : HardwareTopology) (l : ComputeLease) : Prop :=
  (∃ plane, t.find? l.planeId = some plane ∧ l.allocatedMemoryBytes ≤ plane.availableMemoryBytes) ∧
    cpuShortage t (t.isUma l.planeId) l.allocatedMemoryBytes = none

theorem thawLease_cases (s : ArbiterState) (id : LeaseId) :
    (∃ e, thawLease s id = { result := .error e, state := s } ∧
      ∀ l, s.leases.get? id = some l → l.state = .preempted ∧ ¬ ThawFits s.topology l) ∨
    (∃ l, s.leases.get? id = some l ∧ l.state = .preempted ∧ ThawFits s.topology l ∧
      thawLease s id =
        { result := .ok ()
          state := { s with
            topology := debitPlaneMemory s.topology l.planeId l.allocatedMemoryBytes
            leases := s.leases.setState id .active } }) ∨
    (∃ l, s.leases.get? id = some l ∧ (l.state = .frozen ∨ l.state = .preempting) ∧
      thawLease s id =
        { result := .ok (), state := { s with leases := s.leases.setState id .active } }) ∨
    (∃ l, s.leases.get? id = some l ∧
      (l.state = .active ∨ l.state = .revoked ∨ l.state = .expired) ∧
      thawLease s id = { result := .ok (), state := s }) := by
  unfold thawLease
  cases hl : s.leases.get? id with
  | none => exact Or.inl ⟨_, rfl, fun l h => by cases h⟩
  | some l =>
    dsimp only
    by_cases hp : l.state = .preempted
    · rw [if_pos hp]
      cases hf : s.topology.find? l.planeId with
      | none =>
        refine Or.inl ⟨_, rfl, fun m hm => ?_⟩
        cases hm
        exact ⟨hp, fun h => by simp [ThawFits, hf] at h⟩
      | some plane =>
        dsimp only
        by_cases hshort : plane.availableMemoryBytes < l.allocatedMemoryBytes
        · rw [if_pos hshort]
          refine Or.inl ⟨_, rfl, fun m hm => ?_⟩
          cases hm
          refine ⟨hp, fun h => ?_⟩
          obtain ⟨⟨q, hq, hle⟩, -⟩ := h
          rw [hf] at hq
          cases hq
          exact absurd hshort (UInt64.not_lt.mpr hle)
        · rw [if_neg hshort]
          cases hc : cpuShortage s.topology (s.topology.isUma l.planeId) l.allocatedMemoryBytes with
          | some cpu =>
            refine Or.inl ⟨_, rfl, fun m hm => ?_⟩
            cases hm
            exact ⟨hp, fun h => by simp [ThawFits, hc] at h⟩
          | none =>
            exact Or.inr (Or.inl ⟨l, rfl, hp, ⟨⟨plane, hf, UInt64.not_lt.mp hshort⟩, hc⟩, rfl⟩)
    · rw [if_neg hp]
      by_cases hz : l.state = .frozen ∨ l.state = .preempting
      · rw [if_pos hz]
        exact Or.inr (Or.inr (Or.inl ⟨l, rfl, hz, rfl⟩))
      · rw [if_neg hz]
        refine Or.inr (Or.inr (Or.inr ⟨l, rfl, ?_, rfl⟩))
        cases hst : l.state <;> simp_all

theorem thawLease_of_preempted {l : ComputeLease} {id : LeaseId} (hl : s.leases.get? id = some l)
    (hst : l.state = .preempted) :
    (∃ e, thawLease s id = { result := .error e, state := s } ∧ ¬ ThawFits s.topology l) ∨
    (ThawFits s.topology l ∧ thawLease s id =
      { result := .ok ()
        state := { s with
          topology := debitPlaneMemory s.topology l.planeId l.allocatedMemoryBytes
          leases := s.leases.setState id .active } }) := by
  rcases thawLease_cases s id with
    ⟨e, h, hno⟩ | ⟨m, hm, -, hfit, h⟩ | ⟨m, hm, hm', -⟩ | ⟨m, hm, hm', -⟩
  · exact Or.inl ⟨e, h, (hno l hl).2⟩
  all_goals
    rw [hl] at hm
    cases hm
  · exact Or.inr ⟨hfit, h⟩
  · rw [hst] at hm'
    rcases hm' with h | h <;> cases h
  · rw [hst] at hm'
    rcases hm' with h | h | h <;> cases h

theorem layout_stepLease (s : ArbiterState) (op : LeaseOp) :
    (stepLease s op).topology.layout = s.topology.layout := by
  have hend : ∀ st id, (endLease st s id).state.topology.layout = s.topology.layout := by
    intro st id
    rcases endLease_cases st s id with ⟨r, h, -⟩ | ⟨l, -, -, h⟩ | ⟨l, -, -, h⟩ <;> rw [h]
    exact layout_restorePlaneMemory _ _
  have hmark : ∀ st id, (markLease st s id).state.topology.layout = s.topology.layout := by
    intro st id
    rcases markLease_cases st s id with ⟨r, h, -⟩ | ⟨l, -, -, h⟩ <;> rw [h]
  cases op with
  | acquire env req =>
    show (acquireLease s env req).state.topology.layout = s.topology.layout
    rcases acquireLease_cases s env req with
      ⟨-, e, h⟩ | ⟨-, idx, e, -, -, h⟩ | ⟨idx, -, h⟩ <;> rw [h]
    · exact layout_makeRoom
    · simp only [grant, layout_debitTarget, layout_makeRoom]
  | release id => exact hend .expired id
  | revoke id => exact hend .revoked id
  | yield id => exact hmark .preempting id
  | freeze id => exact hmark .frozen id
  | thaw id =>
    show (thawLease s id).state.topology.layout = s.topology.layout
    rcases thawLease_cases s id with ⟨e, h, -⟩ | ⟨l, -, -, -, h⟩ | ⟨l, -, -, h⟩ | ⟨l, -, -, h⟩ <;> rw [h]
    exact layout_debitPlaneMemory _ _

end Inferenced.Arbiter
