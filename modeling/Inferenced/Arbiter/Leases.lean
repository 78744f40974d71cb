import Inferenced.Arbiter.Accounts

/-!
# What an operation does to one lease

`stepLease_lease` is the single statement about lease states: an operation
leaves a lease alone, grants it, drops it as garbage, or moves its state by one
of the transitions of `Moves`. Everything about the life of a lease is derived
from it, and so is the bookkeeping of fresh ids.
-/

namespace Inferenced.Arbiter
open Lib HardwareTopology

variable {s : ArbiterState} {env : CallEnv} {req : LeaseRequest} {idx : ℕ} {id : LeaseId}

def grantedLease (s : ArbiterState) (env : CallEnv) (req : LeaseRequest) (idx : ℕ) : ComputeLease :=
  ComputeLease.new env.newId (s.topology.planeIdAt idx) req.requiredBytes req.priority
    req.clientUnit req.clientPid

/-- State transitions of a lease `l` to `st` under an operation. -/
def Moves (s : ArbiterState) (l : ComputeLease) (st : LeaseState) : LeaseOp → Prop
  | .acquire _ req => l.isActive = true ∧ st = .preempted ∧ l.priority < req.priority ∧
      ∃ idx, targetPlaneIdx s.topology req = .ok idx ∧ l.planeId = s.topology.planeIdAt idx
  | .release id => l.id = id ∧ l.isLive = true ∧ st = .expired
  | .revoke id => l.id = id ∧ l.isLive = true ∧ st = .revoked
  | .yield id => l.id = id ∧ l.isActive = true ∧ st = .preempting
  | .freeze id => l.id = id ∧ l.isActive = true ∧ st = .frozen
  | .thaw id => l.id = id ∧ st = .active ∧ (l.state = .frozen ∨ l.state = .preempting ∨
      l.state = .preempted ∧ ThawFits s.topology l)

theorem Moves.isLive {l : ComputeLease} {st : LeaseState} {op : LeaseOp} (h : Moves s l st op) :
    l.isLive = true := by
  cases op with
  | acquire env req => exact isActive_isLive h.1
  | release j => exact h.2.1
  | revoke j => exact h.2.1
  | yield j => exact isActive_isLive h.2.1
  | freeze j => exact isActive_isLive h.2.1
  | thaw j =>
    obtain ⟨-, -, hst | hst | ⟨hst, -⟩⟩ := h <;> rw [ComputeLease.isLive, hst] <;> rfl

/-- The four things an operation can do to the entry of `id`. -/
inductive LeaseChange (s : ArbiterState) (op : LeaseOp) (id : LeaseId) (after : ArbiterState) :
    Prop where
  | same (h : after.leases.get? id = s.leases.get? id)
  | granted (env : CallEnv) (req : LeaseRequest) (idx : ℕ) (hop : op = .acquire env req)
      (hid : id = env.newId) (hadm : Admitted s env req idx) (hbefore : s.leases.get? id = none)
      (h : after.leases.get? id = some (grantedLease s env req idx))
  | dropped (env : CallEnv) (req : LeaseRequest) (l : ComputeLease) (hop : op = .acquire env req)
      (hbefore : s.leases.get? id = some l) (hdead : l.isLive = false)
      (h : after.leases.get? id = none)
  | moved (l : ComputeLease) (st : LeaseState) (hbefore : s.leases.get? id = some l)
      (hmove : Moves s l st op) (h : after.leases.get? id = some (l.withState st))

theorem makeRoom_lease (s : ArbiterState) (env : CallEnv) (req : LeaseRequest) (idx : ℕ)
    (id : LeaseId) :
    (makeRoom s env req idx).leases.get? id = s.leases.get? id ∨
    ∃ l, l.id = id ∧ Victim s.leases (s.topology.planeIdAt idx) req.priority l ∧
      (makeRoom s env req idx).leases.get? id = some (l.withState .preempted) := by
  refine makeRoom_rule (fun r => r.leases.get? id = s.leases.get? id ∨
    ∃ l, l.id = id ∧ Victim s.leases (s.topology.planeIdAt idx) req.priority l ∧
      r.leases.get? id = some (l.withState .preempted)) (Or.inl rfl) ?_
  intro r l hr hv₀ hv _
  simp only [Preemption.preempt, get?_setState]
  by_cases hid : id = l.id
  · subst hid
    refine Or.inr ⟨l, rfl, hv₀, ?_⟩
    simp only [if_true, hv.stored, Option.map_some]
  · simpa only [if_neg hid] using hr

theorem makeRoom_toFreeze (s : ArbiterState) (env : CallEnv) (req : LeaseRequest) (idx : ℕ) :
    ∀ v ∈ (makeRoom s env req idx).toFreeze,
      Victim s.leases (s.topology.planeIdAt idx) req.priority v ∧
        (makeRoom s env req idx).leases.get? v.id = some (v.withState .preempted) := by
  refine makeRoom_rule (fun r => ∀ v ∈ r.toFreeze,
    Victim s.leases (s.topology.planeIdAt idx) req.priority v ∧
      r.leases.get? v.id = some (v.withState .preempted)) (fun v hv => by cases hv) ?_
  intro r l hr hv₀ hv _ v hmem
  simp only [Preemption.preempt, get?_setState] at hmem ⊢
  rcases List.mem_append.mp hmem with hmem | hmem
  · obtain ⟨hvictim, hget⟩ := hr v hmem
    refine ⟨hvictim, ?_⟩
    rw [hget]
    split <;> rfl
  · obtain rfl := List.mem_singleton.mp hmem
    refine ⟨hv₀, ?_⟩
    rw [if_pos rfl, hv.stored]
    rfl

theorem get?_collectGarbage (leases : LeaseMap) (id : LeaseId) :
    (collectGarbage leases).get? id = leases.get? id ∨
    ∃ l, leases.get? id = some l ∧ l.isLive = false ∧ (collectGarbage leases).get? id = none := by
  unfold collectGarbage
  split
  · rw [KeyedMap.get?_retain]
    cases h : leases.get? id with
    | none => exact Or.inl rfl
    | some l =>
      cases hl : l.isLive with
      | true => exact Or.inl (Option.filter_some_pos hl)
      | false => exact Or.inr ⟨l, rfl, hl, Option.filter_some_neg hl⟩
  · exact Or.inl rfl

theorem get?_grant (s : ArbiterState) (room : Preemption) (env : CallEnv) (req : LeaseRequest)
    (idx : ℕ) (j : LeaseId) :
    (grant s room env req idx).state.leases.get? j =
      if j = env.newId then some (grantedLease s env req idx)
      else (collectGarbage room.leases).get? j :=
  KeyedMap.get?_insert _ _ j

theorem acquireLease_id {lease : ComputeLease} (h : (acquireLease s env req).result = .ok lease) :
    lease.id = env.newId := by
  rcases acquireLease_cases s env req with ⟨-, e, he⟩ | ⟨-, idx, e, -, -, he⟩ | ⟨idx, -, he⟩ <;>
    rw [he] at h <;> cases h
  rfl

theorem acquireLease_lease (hfresh : s.leases.get? env.newId = none) (id : LeaseId) :
    LeaseChange s (.acquire env req) id (acquireLease s env req).state := by
  -- the entry of `id` once room has been made on the target plane
  have hroom : ∀ idx, targetPlaneIdx s.topology req = .ok idx →
      LeaseChange s (.acquire env req) id
        { s with leases := (makeRoom s env req idx).leases } := by
    intro idx ht
    rcases makeRoom_lease s env req idx id with h | ⟨l, rfl, hv, h⟩
    · exact .same h
    · exact .moved l .preempted hv.stored ⟨hv.active, rfl, hv.lower, idx, ht, hv.onTarget⟩ h
  rcases acquireLease_cases s env req with ⟨-, e, h⟩ | ⟨-, idx, e, ht, -, h⟩ | ⟨idx, hadm, h⟩ <;>
    rw [h]
  · exact .same rfl
  · cases hroom idx ht with
    | same h => exact .same h
    | granted env req idx hop hid hadm hb h => exact .granted env req idx hop hid hadm hb h
    | dropped env req l hop hb hd h => exact .dropped env req l hop hb hd h
    | moved l st hb hm h => exact .moved l st hb hm h
  · have hins := fun j => get?_grant s (makeRoom s env req idx) env req idx j
    by_cases hid : id = env.newId
    · exact .granted env req idx rfl hid hadm (hid ▸ hfresh) (by rw [hins, if_pos hid])
    · have hget := hins id
      rw [if_neg hid] at hget
      rcases get?_collectGarbage (makeRoom s env req idx).leases id with hgc | ⟨l, hl, hdead, hgc⟩
      · rw [hgc] at hget
        rcases makeRoom_lease s env req idx id with h | ⟨l, rfl, hv, h⟩
        · exact .same (hget.trans h)
        · exact .moved l .preempted hv.stored
            ⟨hv.active, rfl, hv.lower, idx, hadm.target, hv.onTarget⟩ (hget.trans h)
      · rw [hgc] at hget
        rcases makeRoom_lease s env req idx id with h | ⟨m, rfl, hv, h⟩
        · exact .dropped env req l rfl (h ▸ hl) hdead hget
        · -- a lease preempted by this very call is live
          rw [h] at hl
          cases hl
          cases hdead

theorem endLease_lease (final : LeaseState) (s : ArbiterState) (j id : LeaseId) :
    (endLease final s j).state.leases.get? id = s.leases.get? id ∨
    ∃ l, id = j ∧ s.leases.get? id = some l ∧ l.isLive = true ∧
      (endLease final s j).state.leases.get? id = some (l.withState final) := by
  have hset : ∀ l, s.leases.get? j = some l → l.isLive = true →
      (s.leases.setState j final).get? id = s.leases.get? id ∨
      ∃ l, id = j ∧ s.leases.get? id = some l ∧ l.isLive = true ∧
        (s.leases.setState j final).get? id = some (l.withState final) := by
    intro l hl hlive
    rw [get?_setState]
    by_cases hid : id = j
    · subst hid
      exact Or.inr ⟨l, rfl, hl, hlive, by rw [if_pos rfl, hl]; rfl⟩
    · exact Or.inl (if_neg hid)
  rcases endLease_cases final s j with ⟨r, h, -⟩ | ⟨l, hl, ha, h⟩ | ⟨l, hl, hp, h⟩ <;> rw [h]
  · exact Or.inl rfl
  · exact hset l hl (isActive_isLive ha)
  · exact hset l hl (preempted_isLive hp)

theorem markLease_lease (mark : LeaseState) (s : ArbiterState) (j id : LeaseId) :
    (markLease mark s j).state.leases.get? id = s.leases.get? id ∨
    ∃ l, id = j ∧ s.leases.get? id = some l ∧ l.isActive = true ∧
      (markLease mark s j).state.leases.get? id = some (l.withState mark) := by
  rcases markLease_cases mark s j with ⟨r, h, -⟩ | ⟨l, hl, ha, h⟩ <;> rw [h]
  · exact Or.inl rfl
  · show (s.leases.setState j mark).get? id = _ ∨ _
    rw [get?_setState]
    by_cases hid : id = j
    · subst hid
      exact Or.inr ⟨l, rfl, hl, ha, by rw [if_pos rfl, hl]; rfl⟩
    · exact Or.inl (if_neg hid)

theorem thawLease_lease (s : ArbiterState) (j id : LeaseId) :
    LeaseChange s (.thaw j) id (thawLease s j).state := by
  have hset : ∀ l t, s.leases.get? j = some l →
      (l.state = .frozen ∨ l.state = .preempting ∨ l.state = .preempted ∧ ThawFits s.topology l) →
      LeaseChange s (.thaw j) id { s with topology := t, leases := s.leases.setState j .active } := by
    intro l t hl hst
    by_cases hid : id = j
    · subst hid
      refine .moved l .active hl ⟨KeyedMap.get?_key hl, rfl, hst⟩ ?_
      rw [get?_setState, if_pos rfl, hl]
      rfl
    · refine .same ?_
      rw [get?_setState, if_neg hid]
  rcases thawLease_cases s j with ⟨e, h, -⟩ | ⟨l, hl, hp, hfit, h⟩ | ⟨l, hl, hst, h⟩ | ⟨l, -, -, h⟩ <;>
    rw [h]
  · exact .same rfl
  · exact hset l _ hl (Or.inr (Or.inr ⟨hp, hfit⟩))
  · exact hset l s.topology hl (hst.imp_right Or.inl)
  · exact .same rfl

/-- An operation that draws only ids not in use leaves a lease alone, grants
it, drops it as garbage, or moves it by one transition. -/
theorem stepLease_lease (s : ArbiterState) (op : LeaseOp)
    (hfresh : ∀ n ∈ op.newIds, s.leases.get? n = none) (id : LeaseId) :
    LeaseChange s op id (stepLease s op) := by
  cases op with
  | acquire env req =>
    exact acquireLease_lease (hfresh env.newId (List.mem_cons_self ..)) id
  | release j =>
    rcases endLease_lease .expired s j id with h | ⟨l, rfl, hl, hlive, h⟩
    · exact .same h
    · exact .moved l .expired hl ⟨KeyedMap.get?_key hl, hlive, rfl⟩ h
  | revoke j =>
    rcases endLease_lease .revoked s j id with h | ⟨l, rfl, hl, hlive, h⟩
    · exact .same h
    · exact .moved l .revoked hl ⟨KeyedMap.get?_key hl, hlive, rfl⟩ h
  | yield j =>
    rcases markLease_lease .preempting s j id with h | ⟨l, rfl, hl, ha, h⟩
    · exact .same h
    · exact .moved l .preempting hl ⟨KeyedMap.get?_key hl, ha, rfl⟩ h
  | freeze j =>
    rcases markLease_lease .frozen s j id with h | ⟨l, rfl, hl, ha, h⟩
    · exact .same h
    · exact .moved l .frozen hl ⟨KeyedMap.get?_key hl, ha, rfl⟩ h
  | thaw j => exact thawLease_lease s j id

/-- Where an active lease comes from: it was active before, it has been granted
by this operation, or it has been thawed after a preemption. -/
theorem LeaseChange.origin {op : LeaseOp} {after : ArbiterState}
    (h : LeaseChange s op id after) {l : ComputeLease} (hl : after.leases.get? id = some l)
    (ha : l.isActive = true) :
    (∃ l₀, s.leases.get? id = some l₀ ∧ l₀.isActive = true ∧ l = l₀.withState l.state) ∨
    (∃ env req idx, op = .acquire env req ∧ Admitted s env req idx ∧
      l = grantedLease s env req idx) ∨
    (∃ l₀, op = .thaw id ∧ s.leases.get? id = some l₀ ∧ l₀.state = .preempted ∧
      ThawFits s.topology l₀ ∧ l = l₀.withState .active) := by
  cases h with
  | same h => exact Or.inl ⟨l, h ▸ hl, ha, rfl⟩
  | granted env req idx hop hid hadm hb h =>
    rw [h] at hl
    cases hl
    exact Or.inr (Or.inl ⟨env, req, idx, hop, hadm, rfl⟩)
  | dropped env req l₀ hop hb hdead h => rw [h] at hl; cases hl
  | moved l₀ st hb hmove h =>
    rw [h] at hl
    cases hl
    rw [ComputeLease.withState_isActive] at ha
    cases op with
    | acquire env req => rw [hmove.2.1] at ha; cases ha
    | release j => rw [hmove.2.2] at ha; cases ha
    | revoke j => rw [hmove.2.2] at ha; cases ha
    | yield j => exact Or.inl ⟨l₀, hb, hmove.2.1, rfl⟩
    | freeze j => exact Or.inl ⟨l₀, hb, hmove.2.1, rfl⟩
    | thaw j =>
      obtain ⟨hid, rfl, hst | hst | ⟨hst, hfit⟩⟩ := hmove
      · exact Or.inl ⟨l₀, hb, by rw [ComputeLease.isActive, hst]; rfl, rfl⟩
      · exact Or.inl ⟨l₀, hb, by rw [ComputeLease.isActive, hst]; rfl, rfl⟩
      · have : j = id := hid.symm.trans (KeyedMap.get?_key hb)
        exact Or.inr (Or.inr ⟨l₀, this ▸ rfl, hb, hst, hfit, rfl⟩)

/-- `l` was a lease of `s` under `id`, live if it is live now. -/
def Descends (s : ArbiterState) (id : LeaseId) (l : ComputeLease) : Prop :=
  ∃ l₀, s.leases.get? id = some l₀ ∧ l = l₀.withState l.state ∧ (l.isLive = true → l₀.isLive = true)

theorem Descends.of_same {leases : LeaseMap} {l : ComputeLease}
    (h : leases.get? id = s.leases.get? id) (hl : leases.get? id = some l) : Descends s id l :=
  ⟨l, h ▸ hl, rfl, fun h => h⟩

theorem Descends.of_moved {leases : LeaseMap} {l l₀ : ComputeLease} {st : LeaseState}
    (hl₀ : s.leases.get? id = some l₀) (hlive : l₀.isLive = true)
    (h : leases.get? id = some (l₀.withState st)) (hl : leases.get? id = some l) :
    Descends s id l := by
  rw [h] at hl
  cases hl
  exact ⟨l₀, hl₀, rfl, fun _ => hlive⟩

theorem makeRoom_descends {idx : ℕ} {l : ComputeLease}
    (hl : (makeRoom s env req idx).leases.get? id = some l) : Descends s id l := by
  rcases makeRoom_lease s env req idx id with h | ⟨l₀, rfl, hv, h⟩
  · exact .of_same h hl
  · exact .of_moved hv.stored (isActive_isLive hv.active) h hl

/-- Where a lease of the map comes from, whether or not the drawn id is new: it
was there before, or it has been granted by this operation. -/
theorem stepLease_origin {op : LeaseOp} {l : ComputeLease}
    (hl : (stepLease s op).leases.get? id = some l) :
    Descends s id l ∨
      ∃ env req idx, op = .acquire env req ∧ Admitted s env req idx ∧ l = grantedLease s env req idx := by
  cases op with
  | acquire env req =>
    simp only [stepLease] at hl
    rcases acquireLease_cases s env req with ⟨-, e, he⟩ | ⟨-, idx, e, -, -, he⟩ | ⟨idx, hadm, he⟩
    · rw [he] at hl
      exact Or.inl (.of_same rfl hl)
    · rw [he] at hl
      exact Or.inl (makeRoom_descends hl)
    · rw [he, get?_grant] at hl
      split at hl
      · cases hl
        exact Or.inr ⟨env, req, idx, rfl, hadm, rfl⟩
      · rcases get?_collectGarbage (makeRoom s env req idx).leases id with hgc | ⟨m, -, -, hgc⟩
        · exact Or.inl (makeRoom_descends (hgc ▸ hl))
        · rw [hgc] at hl
          cases hl
  | release j =>
    rcases endLease_lease .expired s j id with h | ⟨l₀, -, hl₀, hlive, h⟩
    · exact Or.inl (.of_same h hl)
    · exact Or.inl (.of_moved hl₀ hlive h hl)
  | revoke j =>
    rcases endLease_lease .revoked s j id with h | ⟨l₀, -, hl₀, hlive, h⟩
    · exact Or.inl (.of_same h hl)
    · exact Or.inl (.of_moved hl₀ hlive h hl)
  | yield j =>
    rcases markLease_lease .preempting s j id with h | ⟨l₀, -, hl₀, ha, h⟩
    · exact Or.inl (.of_same h hl)
    · exact Or.inl (.of_moved hl₀ (isActive_isLive ha) h hl)
  | freeze j =>
    rcases markLease_lease .frozen s j id with h | ⟨l₀, -, hl₀, ha, h⟩
    · exact Or.inl (.of_same h hl)
    · exact Or.inl (.of_moved hl₀ (isActive_isLive ha) h hl)
  | thaw j =>
    cases thawLease_lease s j id with
    | same h => exact Or.inl (.of_same h hl)
    | granted env req idx hop => cases hop
    | dropped env req m hop => cases hop
    | moved l₀ st hb hmove h => exact Or.inl (.of_moved hb hmove.isLive h hl)

/-! ### Live leases -/

/-- `id` holds memory or may get it back. -/
def Live (s : ArbiterState) (id : LeaseId) : Prop := ∃ l, s.leases.get? id = some l ∧ l.isLive = true

theorem not_live_endLease (final : LeaseState) (hfinal : final.isLive = false) (s : ArbiterState)
    (id : LeaseId) : ¬ Live (endLease final s id).state id := by
  rintro ⟨l, hl, hlive⟩
  rcases endLease_cases final s id with ⟨r, h, hdead⟩ | ⟨m, hm, -, h⟩ | ⟨m, hm, -, h⟩
  · rw [h] at hl
    rw [hdead l hl] at hlive
    cases hlive
  all_goals
    rw [h] at hl
    simp only [get?_setState, if_true, hm, Option.map_some, Option.some.injEq] at hl
    rw [← hl, ComputeLease.withState_isLive, hfinal] at hlive
    cases hlive

theorem endLease_of_not_live (final : LeaseState) (h : ¬ Live s id) :
    (endLease final s id).state = s := by
  rcases endLease_cases final s id with ⟨r, he, -⟩ | ⟨l, hl, ha, -⟩ | ⟨l, hl, hp, -⟩
  · rw [he]
  · exact absurd ⟨l, hl, isActive_isLive ha⟩ h
  · exact absurd ⟨l, hl, preempted_isLive hp⟩ h

/-! ### Ids in use -/

def Tracked (used : List LeaseId) (s : ArbiterState) : Prop :=
  ∀ id, s.leases.get? id ≠ none → id ∈ used

theorem tracked_new (t : HardwareTopology) : Tracked [] (new t) :=
  fun id h => absurd (KeyedMap.get?_empty id) h

theorem Tracked.fresh {used : List LeaseId} (h : Tracked used s) {names : List LeaseId}
    (hn : ∀ n ∈ names, n ∉ used) : ∀ n ∈ names, s.leases.get? n = none := by
  intro n hmem
  by_contra hne
  exact hn n hmem (h n hne)

theorem Tracked.stepLease {used : List LeaseId} (h : Tracked used s) (op : LeaseOp)
    (hn : ∀ n ∈ op.newIds, n ∉ used) : Tracked (op.newIds ++ used) (stepLease s op) := by
  intro id hid
  rw [List.mem_append]
  cases stepLease_lease s op (h.fresh hn) id with
  | same hs => exact Or.inr (h id (hs ▸ hid))
  | granted env req idx hop hnew _ _ _ =>
    subst hop
    exact Or.inl (hnew ▸ List.mem_cons_self ..)
  | dropped env req l _ _ _ hnone => exact absurd hnone hid
  | moved l st hb _ _ => exact Or.inr (h id (by rw [hb]; simp))

end Inferenced.Arbiter
