import Inferenced.Arbiter.Leases

/-!
# Who is preempted, and when

The preemption loop (arbiter.rs:103-113) works through the list of possible
victims, lowest priority first, and stops once there is room. What it takes is a
prefix of that list, whatever the order in which the hash map has yielded the
victims of equal priority: every victim is taken while the target is still
short, and nobody is taken before somebody of a lower priority.
-/

namespace Inferenced.Arbiter
open Lib HardwareTopology

variable {s : ArbiterState} {env : CallEnv} {req : LeaseRequest} {idx : ℕ} {target : String}
  {required : UInt64}

def preemptAll (st : Preemption) (target : String) (vs : List ComputeLease) : Preemption :=
  vs.foldl (·.preempt target ·) st

theorem toFreeze_preemptAll (st : Preemption) (vs : List ComputeLease) :
    (preemptAll st target vs).toFreeze = st.toFreeze ++ vs := by
  induction vs generalizing st with
  | nil => exact (List.append_nil _).symm
  | cons v vs ih => exact (ih (st.preempt target v)).trans (List.append_assoc ..)

theorem get?_preemptAll (st : Preemption) (vs : List ComputeLease) (id : LeaseId) :
    (preemptAll st target vs).leases.get? id = (st.leases.get? id).map fun l =>
      if id ∈ vs.map (·.id) then l.withState .preempted else l := by
  induction vs generalizing st with
  | nil =>
    simp only [List.map_nil, List.not_mem_nil, if_false, Option.map_id']
    rfl
  | cons v vs ih =>
    refine (ih (st.preempt target v)).trans ?_
    simp only [Preemption.preempt, get?_setState, List.map_cons, List.mem_cons]
    by_cases hv : id = v.id
    · simp only [hv, if_true, true_or, Option.map_map]
      refine congrArg (Option.map · _) (funext fun l => ?_)
      simp only [Function.comp_apply]
      split <;> rfl
    · simp only [hv, if_false, false_or]

theorem get?_preemptAll_cases {st : Preemption} {vs : List ComputeLease} {id : LeaseId}
    {l : ComputeLease} (hvs : ∀ v ∈ vs, st.leases.get? v.id = some v)
    (hl : (preemptAll st target vs).leases.get? id = some l) :
    (st.leases.get? id = some l ∧ id ∉ vs.map (·.id)) ∨
      ∃ v ∈ vs, v.id = id ∧ l = v.withState .preempted := by
  rw [get?_preemptAll] at hl
  obtain ⟨l₀, hl₀, rfl⟩ := Option.map_eq_some_iff.mp hl
  by_cases hid : id ∈ vs.map (·.id)
  · rw [if_pos hid]
    obtain ⟨v, hv, rfl⟩ := List.mem_map.mp hid
    obtain rfl : l₀ = v := Option.some.inj (hl₀.symm.trans (hvs v hv))
    exact Or.inr ⟨l₀, hv, rfl, rfl⟩
  · rw [if_neg hid]
    exact Or.inl ⟨hl₀, hid⟩

/-- A possible victim that is not taken stands behind those that are. -/
theorem weight_le_of_not_taken {ls : List ComputeLease} {k : ℕ} {v l : ComputeLease}
    (hsorted : ls.Pairwise fun a b => a.priority.weight ≤ b.priority.weight) (hv : v ∈ ls.take k)
    (hl : l ∈ ls) (hnot : l.id ∉ (ls.take k).map (·.id)) : v.priority.weight ≤ l.priority.weight := by
  rw [← List.take_append_drop k ls] at hl
  rcases List.mem_append.mp hl with hl | hl
  · exact absurd (List.mem_map_of_mem hl) hnot
  · rw [← List.take_append_drop k ls, List.pairwise_append] at hsorted
    exact hsorted.2.2 v hv l hl

theorem preemptLoop_prefix (idx : ℕ) (target : String) (required : UInt64) (ls : List ComputeLease)
    (st : Preemption) (hn : (ls.map (·.id)).Nodup)
    (hst : ∀ l ∈ ls, st.leases.get? l.id = some l) :
    ∃ k, preemptLoop idx target required (ls.map (·.id)) st = preemptAll st target (ls.take k) ∧
      ∀ j < (ls.take k).length,
        (preemptAll st target ((ls.take k).take j)).topology.availableAt idx < required := by
  induction ls generalizing st with
  | nil => exact ⟨0, rfl, fun j hj => absurd hj (Nat.not_lt_zero j)⟩
  | cons l ls ih =>
    rw [List.map_cons, preemptLoop]
    by_cases hroom : required ≤ st.topology.availableAt idx
    · rw [if_pos hroom]
      exact ⟨0, rfl, fun j hj => absurd hj (Nat.not_lt_zero j)⟩
    · rw [if_neg hroom, hst l (List.mem_cons_self ..)]
      rw [List.map_cons, List.nodup_cons] at hn
      have hrest : ∀ m ∈ ls, (st.preempt target l).leases.get? m.id = some m := by
        intro m hm
        have hne : m.id ≠ l.id := fun h => hn.1 (h ▸ List.mem_map_of_mem hm)
        simp only [Preemption.preempt, get?_setState, if_neg hne]
        exact hst m (List.mem_cons_of_mem _ hm)
      obtain ⟨k, hloop, hshort⟩ := ih (st.preempt target l) hn.2 hrest
      refine ⟨k + 1, hloop, fun j hj => ?_⟩
      cases j with
      | zero => exact UInt64.not_le.mp hroom
      | succ j => exact hshort j (by simpa using hj)

/-! ### The list of possible victims -/

theorem exists_map_eq {α β : Type*} {f : α → β} {P : α → Prop} (bs : List β)
    (h : ∀ b ∈ bs, ∃ a, f a = b ∧ P a) : ∃ as : List α, bs = as.map f ∧ ∀ a ∈ as, P a := by
  induction bs with
  | nil => exact ⟨[], rfl, fun a ha => absurd ha List.not_mem_nil⟩
  | cons b bs ih =>
    obtain ⟨a, rfl, ha⟩ := h b (List.mem_cons_self ..)
    obtain ⟨as, rfl, has⟩ := ih fun b hb => h b (List.mem_cons_of_mem _ hb)
    exact ⟨a :: as, rfl, List.forall_mem_cons.mpr ⟨ha, has⟩⟩

theorem preemptable_eq (leases : LeaseMap) (order : IterOrder ComputeLease) (target : String)
    (priority : LeasePriority) :
    ∃ ls : List ComputeLease, preemptable leases order target priority = ls.map (·.id) ∧
      (∀ l ∈ ls, Victim leases target priority l) ∧
      (∀ l, Victim leases target priority l → l ∈ ls) ∧
      ls.Pairwise fun a b => a.priority.weight ≤ b.priority.weight := by
  obtain ⟨ls, hids, hls⟩ := exists_map_eq (preemptable leases order target priority)
    fun id hid => mem_preemptable.mp hid
  refine ⟨ls, hids, hls, fun l hl => ?_, ?_⟩
  · have hmem : l.id ∈ ls.map (·.id) := hids ▸ mem_preemptable.mpr ⟨l, rfl, hl⟩
    obtain ⟨m, hm, hid⟩ := List.mem_map.mp hmem
    have hsame := (hls m hm).stored
    rw [hid, hl.stored] at hsame
    rwa [Option.some.inj hsame]
  · have hsorted : (ls.map (·.id)).Pairwise fun a b => priorityKey leases a ≤ priorityKey leases b :=
      hids ▸ sortByKey_sorted ..
    refine (List.pairwise_map.mp hsorted).imp_of_mem fun ha hb hle => ?_
    simpa [priorityKey, (hls _ ha).stored, (hls _ hb).stored] using hle

theorem makeRoom_prefix (s : ArbiterState) (env : CallEnv) (req : LeaseRequest) (idx : ℕ) :
    ∃ (ls : List ComputeLease) (k : ℕ),
      (makeRoom s env req idx = preemptAll ⟨s.topology, s.leases, []⟩ (s.topology.planeIdAt idx)
        (ls.take k)) ∧
      (∀ j < (ls.take k).length, (preemptAll ⟨s.topology, s.leases, []⟩ (s.topology.planeIdAt idx)
        ((ls.take k).take j)).topology.availableAt idx < req.requiredBytes) ∧
      (∀ l ∈ ls, Victim s.leases (s.topology.planeIdAt idx) req.priority l) ∧
      (∀ l, Victim s.leases (s.topology.planeIdAt idx) req.priority l → l ∈ ls) ∧
      ls.Pairwise fun a b => a.priority.weight ≤ b.priority.weight := by
  obtain ⟨ls, hids, hls, hall, hsorted⟩ :=
    preemptable_eq s.leases env.order (s.topology.planeIdAt idx) req.priority
  have hn : (ls.map (·.id)).Nodup := hids ▸ nodup_preemptable ..
  unfold makeRoom
  dsimp only
  split
  · obtain ⟨k, hloop, hshort⟩ := preemptLoop_prefix idx (s.topology.planeIdAt idx) req.requiredBytes ls
      ⟨s.topology, s.leases, []⟩ hn fun l hl => (hls l hl).stored
    exact ⟨ls, k, by rw [hids, hloop], hshort, hls, hall, hsorted⟩
  · exact ⟨ls, 0, rfl, fun j hj => absurd hj (Nat.not_lt_zero j), hls, hall, hsorted⟩

/-! ### The selection of an acquisition -/

/-- What an acquisition that targets the plane at `idx` does to other leases:
`victims` are the leases that it preempts, in order. -/
structure Selection (s : ArbiterState) (env : CallEnv) (req : LeaseRequest) (idx : ℕ)
    (victims : List ComputeLease) : Prop where
  /-- The states of the loop are those after the first victims. -/
  loop : makeRoom s env req idx =
    preemptAll ⟨s.topology, s.leases, []⟩ (s.topology.planeIdAt idx) victims
  becomes : ∀ id l, (acquireLease s env req).state.leases.get? id = some l → l.state = .preempted →
    s.leases.get? id = some l ∨ ∃ v ∈ victims, v.id = id ∧ l = v.withState .preempted
  victim : ∀ v ∈ victims, Victim s.leases (s.topology.planeIdAt idx) req.priority v
  lowest : ∀ v ∈ victims, ∀ id l, (acquireLease s env req).state.leases.get? id = some l →
    l.planeId = s.topology.planeIdAt idx → l.priority < v.priority → l.isActive = false
  short : ∀ j < victims.length, (preemptAll ⟨s.topology, s.leases, []⟩ (s.topology.planeIdAt idx)
    (victims.take j)).topology.availableAt idx < req.requiredBytes

/-- A lease of the map after an acquisition that has a target: the new one, or
one of the map once room has been made. -/
theorem acquireLease_get? (hgate : env.psi.level = .critical → req.priority = .emergencyTriage)
    (htarget : targetPlaneIdx s.topology req = .ok idx) {id : LeaseId} {l : ComputeLease}
    (hl : (acquireLease s env req).state.leases.get? id = some l) :
    l = grantedLease s env req idx ∨ (makeRoom s env req idx).leases.get? id = some l := by
  by_cases hadm : Admitted s env req idx
  · rw [acquireLease_of_admitted hadm, get?_grant] at hl
    split at hl
    · exact Or.inl (Option.some.inj hl).symm
    · rcases get?_collectGarbage (makeRoom s env req idx).leases id with h | ⟨m, -, -, h⟩
      · exact Or.inr (h.symm.trans hl)
      · rw [h] at hl
        cases hl
  · rcases acquireLease_cases s env req with ⟨hbar, -⟩ | ⟨-, i, e, hi, -, he⟩ | ⟨i, hi, -⟩
    · rcases hbar with hg | ⟨e, he⟩
      · exact absurd (hgate hg.1) hg.2
      · rw [htarget] at he
        cases he
    · rw [htarget] at hi
      cases hi
      rw [he] at hl
      exact Or.inr hl
    · have hsame := hi.target
      rw [htarget] at hsame
      cases hsame
      exact absurd hi hadm

/-- Victims are taken from the lowest priority on, and only as long as the target
is short of memory. -/
theorem victims_selected (s : ArbiterState) (env : CallEnv) (req : LeaseRequest) (idx : ℕ)
    (hgate : env.psi.level = .critical → req.priority = .emergencyTriage)
    (htarget : targetPlaneIdx s.topology req = .ok idx) :
    Selection s env req idx (makeRoom s env req idx).toFreeze := by
  obtain ⟨ls, k, hroom, hshort, hls, hall, hsorted⟩ := makeRoom_prefix s env req idx
  have hvictims : (makeRoom s env req idx).toFreeze = ls.take k := by
    rw [hroom, toFreeze_preemptAll]
    rfl
  have hstored : ∀ v ∈ ls.take k, s.leases.get? v.id = some v :=
    fun v hv => (hls v (List.mem_of_mem_take hv)).stored
  rw [hvictims]
  refine ⟨hroom, fun id l hl hpre => ?_, fun v hv => hls v (List.mem_of_mem_take hv),
    fun v hv id l hl honto hlower => ?_, hshort⟩
  · rcases acquireLease_get? hgate htarget hl with rfl | hl
    · cases hpre
    · rw [hroom] at hl
      exact (get?_preemptAll_cases hstored hl).imp_left And.left
  · by_contra hactive
    rw [Bool.not_eq_false] at hactive
    have hvlower := (hls v (List.mem_of_mem_take hv)).lower
    rw [LeasePriority.lt_def] at hlower hvlower
    rcases acquireLease_get? hgate htarget hl with rfl | hl
    · -- the new lease outranks every victim
      have hnew : (grantedLease s env req idx).priority = req.priority := rfl
      rw [hnew] at hlower
      omega
    · rw [hroom] at hl
      rcases get?_preemptAll_cases hstored hl with ⟨hl₀, hnot⟩ | ⟨w, -, -, rfl⟩
      · have hid : l.id = id := KeyedMap.get?_key hl₀
        have hvict : Victim s.leases (s.topology.planeIdAt idx) req.priority l :=
          ⟨hid ▸ hl₀, hactive, honto, by rw [LeasePriority.lt_def]; omega⟩
        have hle := weight_le_of_not_taken hsorted hv (hall l hvict) (hid ▸ hnot)
        omega
      · cases hactive

def crowdedGpu : ArbiterState :=
  [LeaseOp.acquire (sampleEnv 0) (sampleRequest .interactive 4 "gpu0"),
   .acquire (sampleEnv 1) (sampleRequest .batch 3 "gpu0"),
   .acquire (sampleEnv 2) (sampleRequest .batch 3 "gpu0")].foldl stepLease
    (new (sampleTopology [samplePlane "gpu0" .discreteGpu 12 12]))

theorem victims_selected_crowdedGpu :
    Selection crowdedGpu (sampleEnv 3) (sampleRequest .emergencyTriage 9 "gpu0") 0
        (makeRoom crowdedGpu (sampleEnv 3) (sampleRequest .emergencyTriage 9 "gpu0") 0).toFreeze ∧
      (makeRoom crowdedGpu (sampleEnv 3) (sampleRequest .emergencyTriage 9 "gpu0") 0).toFreeze.map
        (·.priority) = [.batch, .batch, .interactive] :=
  ⟨victims_selected crowdedGpu (sampleEnv 3) (sampleRequest .emergencyTriage 9 "gpu0") 0
    (fun _ => rfl) (by decide), by decide⟩

end Inferenced.Arbiter
