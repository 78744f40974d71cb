import Inferenced.Varlink.Reclaim

/-!
# Units left frozen

`acquire_lease` freezes the cgroup of every victim (arbiter.rs:125-128). The
only caller of `thaw_cgroup` is the preemption coordinator, which no request
handler uses: Thaw, ReleaseLease and the reclaim loop change the lease and leave
the cgroup as it is. A frozen unit therefore stays covered by a suspended lease
exactly as long as no step takes the last one away.
-/

namespace Inferenced.Varlink
open Lib Lib.Runs Arbiter HardwareTopology

variable {parseUuid : String → Option LeaseId} {d : Daemon} {s : ArbiterState}
  {env : CallEnv} {req : LeaseRequest} {id : LeaseId} {l : ComputeLease} {used : List LeaseId}

/-- The workload of the lease is meant to stand still. -/
def Suspended (l : ComputeLease) : Prop := l.state = .preempted ∨ l.state = .frozen

def HeldFrozen (s : ArbiterState) (unit : String) : Prop :=
  ∃ id l, s.leases.get? id = some l ∧ l.clientUnit = some unit ∧ Suspended l

/-- Every unit that the daemon has frozen has a suspended lease. -/
def NoneLeftFrozen (d : Daemon) : Prop := ∀ unit ∈ d.frozen, HeldFrozen d.arbiter unit

/-- The operation takes the suspended lease `l` out of its state. -/
def Resumes (s : ArbiterState) (l : ComputeLease) : LeaseOp → Prop
  | .acquire _ _ | .freeze _ => False
  | .release id | .revoke id => l.id = id
  | .yield id => l.id = id ∧ l.state = .frozen
  | .thaw id => l.id = id ∧ (l.state = .frozen ∨ l.state = .preempted ∧ ThawFits s.topology l)

/-- The step does not take the last suspended lease of a frozen unit out of its
state. -/
def KeepsSuspended (parseUuid : String → Option LeaseId) (d : Daemon) (op : DaemonOp) : Prop :=
  ∀ o, d.leaseOp parseUuid op = some o → ∀ unit ∈ d.frozen,
    ∀ id l, d.arbiter.leases.get? id = some l → l.clientUnit = some unit → Suspended l →
      Resumes d.arbiter l o →
      ∃ id' l', id' ≠ id ∧ d.arbiter.leases.get? id' = some l' ∧ l'.clientUnit = some unit ∧
        Suspended l'

theorem Suspended.isLive (h : Suspended l) : l.isLive = true := by
  rcases h with h | h <;> rw [ComputeLease.isLive, h] <;> rfl

/-! ### One operation on a suspended lease -/

theorem suspended_kept {op : LeaseOp} (hfresh : ∀ n ∈ op.newIds, s.leases.get? n = none)
    (hl : s.leases.get? id = some l) (hs : Suspended l) (hno : ¬ Resumes s l op) :
    ∃ l', (stepLease s op).leases.get? id = some l' ∧ l'.clientUnit = l.clientUnit ∧
      Suspended l' := by
  cases stepLease_lease s op hfresh id with
  | same h => exact ⟨l, h.trans hl, rfl, hs⟩
  | granted env req idx _ _ _ hb _ => rw [hl] at hb; cases hb
  | dropped env req m _ hb hdead _ =>
    rw [hl] at hb
    cases hb
    rw [hs.isLive] at hdead
    cases hdead
  | moved m st hb hmove h =>
    rw [hl] at hb
    cases hb
    refine ⟨_, h, rfl, ?_⟩
    cases op with
    | acquire env req => exact Or.inl hmove.2.1
    | freeze j => exact Or.inr hmove.2.2
    | release j => exact absurd hmove.1 hno
    | revoke j => exact absurd hmove.1 hno
    | yield j =>
      refine absurd ⟨hmove.1, ?_⟩ hno
      rcases hs with hs | hs
      · have ha := hmove.2.1
        rw [ComputeLease.isActive, hs] at ha
        cases ha
      · exact hs
    | thaw j =>
      obtain ⟨hid, -, hst | hst | hst⟩ := hmove
      · exact absurd ⟨hid, Or.inl hst⟩ hno
      · rcases hs with hs | hs <;> rw [hst] at hs <;> cases hs
      · exact absurd ⟨hid, Or.inr hst⟩ hno

theorem resumes_touches_one {op : LeaseOp} (hl : s.leases.get? id = some l)
    (hres : Resumes s l op) {j : LeaseId} (hne : j ≠ id) :
    (stepLease s op).leases.get? j = s.leases.get? j := by
  have hid : l.id = id := KeyedMap.get?_key hl
  have hfresh : ∀ n ∈ op.newIds, s.leases.get? n = none := by
    intro n hn
    cases op with
    | acquire env req => cases hres
    | _ => cases hn
  cases stepLease_lease s op hfresh j with
  | same h => exact h
  | granted env req idx hop _ _ _ _ => subst hop; cases hres
  | dropped env req m hop _ _ _ => subst hop; cases hres
  | moved m st hb hmove h =>
    have hm : m.id = j := KeyedMap.get?_key hb
    -- both operate on the lease that the operation names
    have htarget : m.id = l.id := by
      cases op with
      | acquire env req => cases hres
      | freeze k => cases hres
      | release k => exact hmove.1.trans hres.symm
      | revoke k => exact hmove.1.trans hres.symm
      | yield k => exact hmove.1.trans hres.1.symm
      | thaw k => exact hmove.1.trans hres.1.symm
    exact absurd (hm.symm.trans (htarget.trans hid)) hne

theorem get?_setState_self {leases : LeaseMap} {st : LeaseState} (hl : leases.get? id = some l) :
    (leases.setState id st).get? id = some (l.withState st) := by
  rw [get?_setState, if_pos rfl, hl]
  rfl

theorem resumes_ends {op : LeaseOp} (hl : s.leases.get? id = some l)
    (hres : Resumes s l op) {l' : ComputeLease} (hl' : (stepLease s op).leases.get? id = some l') :
    ¬ Suspended l' := by
  have hid : l.id = id := KeyedMap.get?_key hl
  -- the state after an operation that writes `st` into the lease
  have hwrite : ∀ st : LeaseState, ¬ Suspended (l.withState st) →
      (stepLease s op).leases.get? id = some (l.withState st) → ¬ Suspended l' := by
    intro st hst h
    rw [h] at hl'
    cases hl'
    exact hst
  cases op with
  | acquire env req => cases hres
  | freeze j => cases hres
  | release j =>
    obtain rfl : id = j := hid.symm.trans hres
    exact fun h => not_live_endLease .expired rfl s id ⟨l', hl', h.isLive⟩
  | revoke j =>
    obtain rfl : id = j := hid.symm.trans hres
    exact fun h => not_live_endLease .revoked rfl s id ⟨l', hl', h.isLive⟩
  | yield j =>
    obtain rfl : id = j := hid.symm.trans hres.1
    refine hwrite .preempting (by rintro (h | h) <;> cases h) ?_
    rcases markLease_cases .preempting s id with ⟨r, -, hno⟩ | ⟨m, hm, -, h⟩
    · have := hno l hl
      rw [ComputeLease.isActive, hres.2] at this
      cases this
    · show (markLease .preempting s id).state.leases.get? id = _
      rw [h]
      exact get?_setState_self hl
  | thaw j =>
    obtain rfl : id = j := hid.symm.trans hres.1
    refine hwrite .active (by rintro (h | h) <;> cases h) ?_
    show (thawLease s id).state.leases.get? id = _
    rcases hres.2 with hst | ⟨hst, hfit⟩
    · rcases thawLease_cases s id with
        ⟨e, -, hno⟩ | ⟨m, hm, hp, -, -⟩ | ⟨m, hm, -, h⟩ | ⟨m, hm, hm', -⟩
      · have := (hno l hl).1
        rw [hst] at this
        cases this
      all_goals
        rw [hl] at hm
        cases hm
      · rw [hst] at hp
        cases hp
      · rw [h]
        exact get?_setState_self hl
      · rw [hst] at hm'
        rcases hm' with h | h | h <;> cases h
    · rcases thawLease_of_preempted hl hst with ⟨e, -, hno⟩ | ⟨-, h⟩
      · exact absurd hfit hno
      · rw [h]
        exact get?_setState_self hl

/-! ### One step of the daemon -/

theorem mem_frozenUnits {victims : List ComputeLease} {unit : String} :
    unit ∈ frozenUnits (freezeEffects victims) ↔ ∃ v ∈ victims, v.clientUnit = some unit := by
  simp only [frozenUnits, freezeEffects, List.mem_filterMap, List.mem_flatMap, List.mem_append,
    Option.mem_toList, Option.map_eq_some_iff]
  constructor
  · rintro ⟨e, ⟨v, hv, ⟨pid, -, rfl⟩ | ⟨u, hu, rfl⟩⟩, he⟩
    · cases he
    · cases he
      exact ⟨v, hv, hu⟩
  · rintro ⟨v, hv, hu⟩
    exact ⟨_, ⟨v, hv, Or.inr ⟨unit, hu, rfl⟩⟩, rfl⟩

/-- A call that freezes a unit grants its request, and the unit is that of a
victim. -/
theorem frozen_victim {unit : String} (h : unit ∈ frozenUnits (acquireLease s env req).effects) :
    ∃ idx v, acquireLease s env req = grant s (makeRoom s env req idx) env req idx ∧
      Victim s.leases (s.topology.planeIdAt idx) req.priority v ∧
      (makeRoom s env req idx).leases.get? v.id = some (v.withState .preempted) ∧
      v.clientUnit = some unit := by
  rcases acquireLease_cases s env req with ⟨-, e, he⟩ | ⟨-, idx, e, -, -, he⟩ | ⟨idx, -, he⟩
  · rw [he] at h
    cases h
  · rw [he] at h
    cases h
  · rw [he] at h
    obtain ⟨v, hv, hunit⟩ := mem_frozenUnits.mp h
    obtain ⟨hvictim, hget⟩ := makeRoom_toFreeze s env req idx v hv
    exact ⟨idx, v, he, hvictim, hget, hunit⟩

theorem acquire_victim (hfresh : s.leases.get? env.newId = none) {unit : String}
    (h : unit ∈ frozenUnits (acquireLease s env req).effects) :
    ∃ v, s.leases.get? v.id = some v ∧ v.isActive = true ∧ v.clientUnit = some unit ∧
      (acquireLease s env req).state.leases.get? v.id = some (v.withState .preempted) := by
  obtain ⟨idx, v, he, hvictim, hget, hunit⟩ := frozen_victim h
  refine ⟨v, hvictim.stored, hvictim.active, hunit, ?_⟩
  have hne : v.id ≠ env.newId := by
    intro hid
    have := hvictim.stored
    rw [hid, hfresh] at this
    cases this
  rw [he, get?_grant, if_neg hne]
  rcases get?_collectGarbage (makeRoom s env req idx).leases v.id with hgc | ⟨m, hm, hdead, -⟩
  · exact hgc.trans hget
  · rw [hget] at hm
    cases hm
    cases hdead

theorem op_freezes {op : LeaseOp} (hfresh : ∀ n ∈ op.newIds, s.leases.get? n = none)
    {unit : String} (h : unit ∈ frozenUnits (opEffects s (some op))) :
    HeldFrozen (stepLease s op) unit := by
  cases op with
  | acquire env req =>
    obtain ⟨v, -, -, hunit, hget⟩ := acquire_victim (hfresh _ (List.mem_singleton_self _)) h
    exact ⟨v.id, _, hget, hunit, Or.inl rfl⟩
  | release j => cases h
  | revoke j => cases h
  | yield j => cases h
  | freeze j => cases h
  | thaw j => cases h

theorem noneLeftFrozen_step_iff {op : DaemonOp} (hacc : Accounted used d)
    (hn : ∀ n ∈ op.newIds, n ∉ used) (hp : NoneLeftFrozen d) :
    NoneLeftFrozen (step parseUuid d op) ↔ KeepsSuspended parseUuid d op := by
  have hfresh : ∀ o, d.leaseOp parseUuid op = some o →
    ∀ n ∈ o.newIds, d.arbiter.leases.get? n = none := hacc.fresh hn
  obtain ⟨hbooks, hfrozen⟩ := step_books parseUuid d op
  unfold NoneLeftFrozen HeldFrozen KeepsSuspended
  rw [hfrozen, hbooks.leases]
  cases ho : d.leaseOp parseUuid op with
  | none =>
    refine iff_of_true (fun unit hunit => ?_) fun o h => by cases h
    rcases List.mem_append.mp hunit with hunit | hunit
    · exact hp unit hunit
    · cases hunit
  | some o =>
    have hnew := hfresh o ho
    constructor
    · intro hafter o' ho' unit hunit id l hl hclient hs hres
      cases ho'
      obtain ⟨j, m, hm, hmu, hms⟩ := hafter unit (List.mem_append_left _ hunit)
      have hne : j ≠ id := by
        rintro rfl
        exact resumes_ends hl hres hm hms
      exact ⟨j, m, hne, (resumes_touches_one hl hres hne).symm.trans hm, hmu, hms⟩
    · intro hkeep unit hunit
      rcases List.mem_append.mp hunit with hunit | hunit
      · obtain ⟨id, l, hl, hclient, hs⟩ := hp unit hunit
        by_cases hres : Resumes d.arbiter l o
        · obtain ⟨j, m, hne, hm, hmu, hms⟩ := hkeep o rfl unit hunit id l hl hclient hs hres
          exact ⟨j, m, (resumes_touches_one hl hres hne).trans hm, hmu, hms⟩
        · obtain ⟨l', hl', hclient', hs'⟩ := suspended_kept hnew hl hs hres
          exact ⟨id, l', hl', hclient'.trans hclient, hs'⟩
      · exact op_freezes hnew hunit

/-! ### Runs -/

/-- The daemon leaves no unit frozen: in every state of a run each unit that has
been frozen has a suspended lease, if and only if no step of the run releases,
reclaims or thaws the last suspended lease of a frozen unit. -/
theorem none_left_frozen_iff (parseUuid : String → Option LeaseId) (T : HardwareTopology)
    (ops : List DaemonOp) (hfresh : Fresh DaemonOp.newIds [] ops) :
    (∀ bs, bs <+: ops → NoneLeftFrozen (exec (step parseUuid) (start T) bs)) ↔
      Along (step parseUuid) (KeepsSuspended parseUuid) (start T) ops :=
  inv_iff_along (D := fun _ _ => True) Accounted NoneLeftFrozen
    (fun _ _ op h hn _ _ => h.step op hn) (fun _ _ _ h hn _ hp => noneLeftFrozen_step_iff h hn hp)
    [] _ ops (accounted_start T) (fun _ h => by cases h) hfresh
    (along_of_forall ops (fun _ _ _ => trivial) _)

/-- The ids of the two leases of the runs below, as the wire writes them. -/
def sampleUuid (text : String) : Option LeaseId :=
  [sampleId 0, sampleId 1].find? fun id => decide (id.toString = text)

def batchPeer : PeerInfo := PeerInfo.ofCgroup 42 1000 1000 "/ai-batch.slice/job.service"

def chatPeer : PeerInfo := PeerInfo.ofCgroup 43 1000 1000 "/ai-interactive.slice/chat.service"

/-- An interactive client preempts a batch client, whose slice is frozen, and
then releases its lease. -/
def preemptionRun : List DaemonOp :=
  [.accept (some batchPeer), .accept (some chatPeer),
   sampleFrame 0 0 "AcquireLease" [("memory_bytes", .posInt 6)] true,
   sampleFrame 1 1 "AcquireLease" [("memory_bytes", .posInt 8)] true,
   sampleFrame 1 2 "ReleaseLease" [("lease_id", .string (sampleId 1).toString)] true]

theorem preemptionRun_keeps :
    Along (step sampleUuid) (KeepsSuspended sampleUuid) (start gpuTopology) preemptionRun := by
  have hnone : ∀ {unit : String} {P : Prop}, unit ∈ ([] : List String) → P :=
    fun h => absurd h List.not_mem_nil
  refine ⟨fun _ _ _ hunit => hnone hunit, fun _ _ _ hunit => hnone hunit, fun _ _ _ hunit => hnone hunit,
    fun _ _ _ hunit => hnone hunit, ?_, trivial⟩
  -- the lease that is released is the active one
  intro o ho unit _ id l hl _ hsuspended hresumes
  cases ho
  have hid : id = sampleId 1 := (KeyedMap.get?_key hl).symm.trans hresumes
  rw [hid] at hl
  cases hl
  rcases hsuspended with h | h <;> cases h

theorem none_left_frozen_iff_preemptionRun :
    Along (step sampleUuid) (KeepsSuspended sampleUuid) (start gpuTopology) preemptionRun ∧
      ∀ bs, bs <+: preemptionRun → NoneLeftFrozen (exec (step sampleUuid) (start gpuTopology) bs) :=
  ⟨preemptionRun_keeps, (none_left_frozen_iff sampleUuid gpuTopology preemptionRun
    ⟨by decide, by decide⟩).mpr preemptionRun_keeps⟩

def thawRun : List DaemonOp :=
  preemptionRun ++ [sampleFrame 0 3 "Thaw" [("lease_id", .string (sampleId 0).toString)] true]

/-- The lease of the batch client is active again and its slice is still
frozen. -/
theorem thawed_unit_stays_frozen :
    Fresh DaemonOp.newIds [] thawRun ∧
      ((exec (step sampleUuid) (start gpuTopology) thawRun).arbiter.leases.get? (sampleId 0)).map
        (·.state) = some .active ∧
      (exec (step sampleUuid) (start gpuTopology) thawRun).frozen = ["ai-batch.slice"] ∧
      ¬ NoneLeftFrozen (exec (step sampleUuid) (start gpuTopology) thawRun) := by
  have hnone : ∀ l ∈ (exec (step sampleUuid) (start gpuTopology) thawRun).arbiter.leases.entries,
      l.state ≠ .preempted ∧ l.state ≠ .frozen := by decide
  refine ⟨⟨by decide, by decide⟩, by decide, by decide, fun h => ?_⟩
  obtain ⟨id, l, hl, -, hs⟩ := h "ai-batch.slice" (by decide)
  have hl' := hnone l (KeyedMap.get?_eq_some.mp hl).1
  rcases hs with hs | hs
  · exact hl'.1 hs
  · exact hl'.2 hs

end Inferenced.Varlink
