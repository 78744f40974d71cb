import Inferenced.Arbiter.Conservation
import Inferenced.Varlink.Connections

/-!
# Reclaim on disconnect

The list of a connection task over-approximates its live leases: a granted
lease is put on the list in the step that grants it, and leaves the list only
when a release of it has succeeded, whether asked for by the client or made by
the reclaim loop; whatever other clients do to it, a lease that is no longer
live never becomes live again. A finished task has an empty list.
-/

namespace Inferenced.Varlink
open Lib Lib.Runs Arbiter HardwareTopology

variable {parseUuid : String → Option LeaseId} {d : Daemon} {op : DaemonOp} {s : ArbiterState}
  {id : LeaseId} {T : HardwareTopology} {used : List LeaseId}

/-! ### Live leases -/

theorem live_stepLease {lop : LeaseOp} (hfresh : ∀ n ∈ lop.newIds, s.leases.get? n = none)
    (h : Live (stepLease s lop) id) : Live s id ∨ id ∈ grantedIds s (some lop) := by
  obtain ⟨l, hl, hlive⟩ := h
  cases stepLease_lease s lop hfresh id with
  | same hs => exact Or.inl ⟨l, hs ▸ hl, hlive⟩
  | granted env req idx hop hid hadm _ _ =>
    subst hop hid
    refine Or.inr ?_
    simp only [grantedIds, acquireLease_of_admitted hadm]
    exact List.mem_singleton_self _
  | dropped env req l₀ _ _ _ hs => rw [hs] at hl; cases hl
  | moved l₀ st hb hmove _ => exact Or.inl ⟨l₀, hb, hmove.isLive⟩

theorem live_stepOption {lop : Option LeaseOp}
    (hfresh : ∀ o, lop = some o → ∀ n ∈ o.newIds, s.leases.get? n = none)
    (h : Live (stepOption s lop) id) : Live s id ∨ id ∈ grantedIds s lop := by
  cases lop with
  | none => exact Or.inl h
  | some o => exact live_stepLease (hfresh o rfl) h

theorem SameBooks.live {s' : ArbiterState} (h : SameBooks s s') : Live s id ↔ Live s' id := by
  unfold Live
  rw [h.leases]

/-! ### The invariant -/

/-- What the connections know of the live leases. -/
structure Accounted (used : List LeaseId) (d : Daemon) : Prop where
  tracked : Tracked used d.arbiter
  listed : ∀ (i : ℕ) c, d.conns[i]? = some c → ∀ id ∈ c.granted, Live d.arbiter id →
    id ∈ c.activeLeases
  drawn : ∀ (i : ℕ) c, d.conns[i]? = some c → ∀ id ∈ c.granted, id ∈ used
  finished : ∀ (i : ℕ) c, d.conns[i]? = some c → c.phase = .finished → c.activeLeases = []
  owned : ∀ id, Live d.arbiter id → ∃ (i : ℕ) (c : Conn), d.conns[i]? = some c ∧ id ∈ c.granted

theorem accounted_start (T : HardwareTopology) : Accounted [] (start T) := by
  refine ⟨tracked_new T, fun i c h => ?_, fun i c h => ?_, fun i c h => ?_, fun id h => ?_⟩
  · cases h
  · cases h
  · cases h
  · obtain ⟨l, hl, -⟩ := h
    exact absurd hl (by rw [start, new, KeyedMap.get?_empty]; simp)

theorem grantedIds_subset_listAfter {lop : Option LeaseOp} {active : List LeaseId}
    (h : id ∈ grantedIds s lop) : id ∈ listAfter s active lop := by
  cases lop with
  | none => cases h
  | some o =>
    cases o with
    | acquire env req => exact List.mem_append_right _ h
    | release j => cases h
    | revoke j => cases h
    | yield j => cases h
    | freeze j => cases h
    | thaw j => cases h

theorem mem_listAfter {lop : Option LeaseOp} {active : List LeaseId} (h : id ∈ active)
    (hlive : Live (stepOption s lop) id) : id ∈ listAfter s active lop := by
  cases lop with
  | none => exact List.mem_append_left _ h
  | some o =>
    cases o with
    | release j =>
      simp only [listAfter]
      split
      · refine List.mem_filter.mpr ⟨h, decide_eq_true fun hj => ?_⟩
        subst hj
        exact not_live_endLease .expired rfl s id hlive
      · exact h
    | acquire env req => exact List.mem_append_left _ h
    | revoke j => exact List.mem_append_left _ h
    | yield j => exact List.mem_append_left _ h
    | freeze j => exact List.mem_append_left _ h
    | thaw j => exact List.mem_append_left _ h

theorem Accounted.fresh (h : Accounted used d) (hn : ∀ n ∈ op.newIds, n ∉ used) :
    ∀ o, d.leaseOp parseUuid op = some o → ∀ n ∈ o.newIds, d.arbiter.leases.get? n = none :=
  fun _ ho => h.tracked.fresh fun n hmem => hn n (newIds_leaseOp ho n hmem)

theorem mem_grantedIds {lop : Option LeaseOp} (h : id ∈ grantedIds s lop) :
    ∃ o, lop = some o ∧ id ∈ o.newIds := by
  cases lop with
  | none => cases h
  | some o =>
    cases o with
    | acquire env req =>
      refine ⟨_, rfl, ?_⟩
      simp only [grantedIds] at h
      split at h
      · rename_i lease hok
        rw [List.mem_singleton.mp h, acquireLease_id hok]
        exact List.mem_singleton_self _
      · cases h
    | release j => cases h
    | revoke j => cases h
    | yield j => cases h
    | freeze j => cases h
    | thaw j => cases h

theorem Accounted.tracked_step (h : Accounted used d) (hn : ∀ n ∈ op.newIds, n ∉ used) :
    Tracked (op.newIds ++ used) (step parseUuid d op).arbiter := by
  intro j hj
  rw [(step_books parseUuid d op).1.leases] at hj
  cases ho : d.leaseOp parseUuid op with
  | none =>
    rw [ho] at hj
    exact List.mem_append_right _ (h.tracked j hj)
  | some o =>
    rw [ho] at hj
    have hsub := newIds_leaseOp ho
    rcases List.mem_append.mp (h.tracked.stepLease o (fun n hmem => hn n (hsub n hmem)) j hj) with
      hmem | hmem
    · exact List.mem_append_left _ (hsub j hmem)
    · exact List.mem_append_right _ hmem

theorem Accounted.step (h : Accounted used d) (op : DaemonOp) (hn : ∀ n ∈ op.newIds, n ∉ used) :
    Accounted (op.newIds ++ used) (step parseUuid d op) := by
  have hfresh : ∀ o, d.leaseOp parseUuid op = some o →
      ∀ n ∈ o.newIds, d.arbiter.leases.get? n = none := h.fresh hn
  have hbooks : SameBooks (Varlink.step parseUuid d op).arbiter _ := (step_books parseUuid d op).1
  have hnew : ∀ id, id ∈ grantedIds d.arbiter (d.leaseOp parseUuid op) → id ∈ op.newIds := by
    intro id hid
    obtain ⟨o, ho, hmem⟩ := mem_grantedIds hid
    exact newIds_leaseOp ho id hmem
  -- a lease of an old connection that is live after the step was live before
  have hold : ∀ id, id ∈ used → Live (Varlink.step parseUuid d op).arbiter id → Live d.arbiter id := by
    intro id hid hlive
    rcases live_stepOption hfresh (hbooks.live.mp hlive) with hlive | hgranted
    · exact hlive
    · exact absurd hid (hn id (hnew id hgranted))
  refine ⟨h.tracked_step hn, fun i c' hc' id hid hlive => ?_, fun i c' hc' id hid => ?_,
    fun i c' hc' hphase => ?_, fun id hlive => ?_⟩
  · cases step_conn hc' with
    | kept hc => exact h.listed i c' hc id hid (hold id (h.drawn i c' hc id hid) hlive)
    | opened _ hgranted _ => rw [hgranted] at hid; cases hid
    | ended c hc hgranted hlist _ =>
      rw [hgranted] at hid
      rw [hlist]
      exact h.listed i c hc id hid (hold id (h.drawn i c hc id hid) hlive)
    | handled c hc hgranted hlist _ =>
      rw [hgranted] at hid
      rw [hlist]
      rcases List.mem_append.mp hid with hid | hid
      · exact mem_listAfter (h.listed i c hc id hid (hold id (h.drawn i c hc id hid) hlive))
          (hbooks.live.mp hlive)
      · exact grantedIds_subset_listAfter hid
    | reclaimed c j hc hop hgranted hlist _ =>
      rw [hgranted] at hid
      have hmem := h.listed i c hc id hid (hold id (h.drawn i c hc id hid) hlive)
      rw [hlist] at hmem
      rcases List.mem_cons.mp hmem with rfl | hmem
      · have hrel := hbooks.live.mp hlive
        rw [hop] at hrel
        exact absurd hrel (not_live_endLease .expired rfl _ _)
      · exact hmem
  · cases step_conn hc' with
    | kept hc => exact List.mem_append_right _ (h.drawn i c' hc id hid)
    | opened _ hgranted _ => rw [hgranted] at hid; cases hid
    | ended c hc hgranted _ _ => exact List.mem_append_right _ (h.drawn i c hc id (hgranted ▸ hid))
    | handled c hc hgranted _ _ =>
      rw [hgranted] at hid
      rcases List.mem_append.mp hid with hid | hid
      · exact List.mem_append_right _ (h.drawn i c hc id hid)
      · exact List.mem_append_left _ (hnew id hid)
    | reclaimed c j hc _ hgranted _ _ =>
      exact List.mem_append_right _ (h.drawn i c hc id (hgranted ▸ hid))
  · cases step_conn hc' with
    | kept hc => exact h.finished i c' hc hphase
    | opened _ _ hserving => rw [hserving] at hphase; cases hphase
    | ended c hc _ _ hempty => exact hempty hphase
    | handled c hc _ _ hne => exact absurd hphase hne
    | reclaimed c j hc _ _ _ hne => exact absurd hphase hne
  · rcases live_stepOption hfresh (hbooks.live.mp hlive) with hlive | hgranted
    · obtain ⟨i, c, hc, hid⟩ := h.owned id hlive
      obtain ⟨c', hc', hlater⟩ := step_grows parseUuid op hc
      exact ⟨i, c', hc', hlater.granted id hid⟩
    · exact step_records hgranted

/-! ### Memory -/

theorem balanced_congr {s' : ArbiterState} (h : SameBooks s s') (hb : Balanced T used s') :
    Balanced T used s := by
  refine ⟨⟨fun j hj => hb.tracked j (h.leases ▸ hj), h.topology ▸ hb.layout⟩, fun p hp => ?_⟩
  unfold accountOf
  rw [h.topology, h.leases]
  exact hb.exact p hp

def NoForcedGrant (parseUuid : String → Option LeaseId) (d : Daemon) (op : DaemonOp) : Prop :=
  ∀ o, d.leaseOp parseUuid op = some o → Unforced d.arbiter o

theorem noForcedGrant_of_nonEmergency
    (h : (d.leaseOp parseUuid op).all (fun o => decide o.NonEmergency) = true) :
    NoForcedGrant parseUuid d op := by
  intro o ho
  rw [ho] at h
  exact LeaseOp.NonEmergency.unforced (of_decide_eq_true h) d.arbiter

theorem balanced_step (hw : T.WellFormed) (h : Accounted used d) (hb : Balanced T used d.arbiter)
    (op : DaemonOp) (hn : ∀ n ∈ op.newIds, n ∉ used) (hforced : NoForcedGrant parseUuid d op) :
    Balanced T (op.newIds ++ used) (step parseUuid d op).arbiter := by
  have htracked : Tracked (op.newIds ++ used) (step parseUuid d op).arbiter := h.tracked_step hn
  have hbooks : SameBooks (step parseUuid d op).arbiter _ := (step_books parseUuid d op).1
  cases ho : d.leaseOp parseUuid op with
  | none =>
    rw [ho] at hbooks
    have hb' := balanced_congr hbooks hb
    exact ⟨⟨htracked, hb'.layout⟩, hb'.exact⟩
  | some o =>
    rw [ho] at hbooks
    have hb' := balanced_congr hbooks (hb.stepLease hw o
      (fun n hmem => hn n (newIds_leaseOp ho n hmem)) (hforced o ho))
    exact ⟨⟨htracked, hb'.layout⟩, hb'.exact⟩

/-- Disconnect reclaims everything: for every interleaving of any number of
clients, no lease ever granted on a connection whose task has finished is live;
and once every task has finished after a run without forced grants, every plane
of a topology without UMA planes is back at its initial availability. -/
theorem disconnect_reclaims (parseUuid : String → Option LeaseId) (T : HardwareTopology)
    (ops : List DaemonOp) (hfresh : Fresh DaemonOp.newIds [] ops) :
    (∀ (i : ℕ) c, (exec (step parseUuid) (start T) ops).conns[i]? = some c → c.phase = .finished →
      ∀ id ∈ c.granted, ∀ l,
        (exec (step parseUuid) (start T) ops).arbiter.leases.get? id = some l → l.isLive = false) ∧
    (T.WellFormed → (∀ q ∈ T.planes, q.kind ≠ .integratedUma) →
      Along (step parseUuid) (NoForcedGrant parseUuid) (start T) ops →
      (∀ (i : ℕ) c, (exec (step parseUuid) (start T) ops).conns[i]? = some c →
        c.phase = .finished) →
      ∀ p ∈ T.planes, ∃ q,
        (exec (step parseUuid) (start T) ops).arbiter.topology.find? p.id = some q ∧
          q.availableMemoryBytes = p.availableMemoryBytes) := by
  have hacc : Accounted (usedAfter DaemonOp.newIds [] ops) (exec (step parseUuid) (start T) ops) :=
    exec_inv_fresh_all Accounted (fun _ _ op h hn => h.step op hn) [] _ ops (accounted_start T)
      hfresh
  have hdead : ∀ (i : ℕ) c, (exec (step parseUuid) (start T) ops).conns[i]? = some c →
      c.phase = .finished → ∀ id ∈ c.granted,
      ¬ Live (exec (step parseUuid) (start T) ops).arbiter id := by
    intro i c hc hphase id hid hlive
    have hmem := hacc.listed i c hc id hid hlive
    rw [hacc.finished i c hc hphase] at hmem
    cases hmem
  refine ⟨fun i c hc hphase id hid l hl => ?_, fun hw huma hforced hdone p hp => ?_⟩
  · cases hlive : l.isLive with
    | false => rfl
    | true => exact absurd ⟨l, hl, hlive⟩ (hdead i c hc hphase id hid)
  · have hbal : Balanced T (usedAfter DaemonOp.newIds [] ops)
        (exec (step parseUuid) (start T) ops).arbiter :=
      (exec_inv_fresh (fun used d => Accounted used d ∧ Balanced T used d.arbiter)
        (fun _ _ op h hn hop => ⟨h.1.step op hn, balanced_step hw h.1 h.2 op hn hop⟩)
        [] _ ops ⟨accounted_start T, balanced_new T⟩ hfresh hforced).2
    obtain ⟨q, hq, -, hidle⟩ := hbal.plane hw hp (sole_of_no_uma huma p.id)
    refine ⟨q, hq, hidle fun l hl _ => ?_⟩
    cases ha : l.isActive with
    | false => rfl
    | true =>
      obtain ⟨i, c, hc, hid⟩ := hacc.owned l.id ⟨l, KeyedMap.get?_of_mem hl, isActive_isLive ha⟩
      exact absurd ⟨l, KeyedMap.get?_of_mem hl, isActive_isLive ha⟩ (hdead i c hc (hdone i c hc) l.id hid)

def sampleFrame (conn n : ℕ) (method : String) (fields : List (String × Json)) (written : Bool) :
    DaemonOp :=
  .frame conn (some { method := "io.syntrop.Inference1." ++ method, parameters := some (.object fields) })
    { toCallEnv := sampleEnv n, modelOrder := IterOrder.stored, now := 0 } written

/-- Two clients on one GPU: the second preempts the lease of the first, loses
its reply and is reclaimed; the first gets a malformed frame through and is
reclaimed while its lease is still preempted. -/
def clientRun : List DaemonOp :=
  [.accept none, .accept none,
   sampleFrame 0 0 "AcquireLease" [("priority", .string "Batch"), ("memory_bytes", .posInt 6)] true,
   sampleFrame 1 1 "AcquireLease" [("memory_bytes", .posInt 8)] false,
   .reclaim 1,
   .frame 0 none { toCallEnv := sampleEnv 2, modelOrder := IterOrder.stored, now := 0 } true,
   .reclaim 0, .reclaim 1, .reclaim 0]

theorem disconnect_reclaims_clientRun :
    ∃ q, (exec (step fun _ => none) (start gpuTopology) clientRun).arbiter.topology.find? "gpu0" =
        some q ∧ q.availableMemoryBytes = 10 := by
  have hforced : Along (step fun _ => none) (NoForcedGrant fun _ => none) (start gpuTopology)
      clientRun :=
    Along.imp (fun _ _ h => noForcedGrant_of_nonEmergency h) _ _
      (by decide : Along (step fun _ => none)
        (fun d op => (d.leaseOp (fun _ => none) op).all (fun o => decide o.NonEmergency) = true)
        (start gpuTopology) clientRun)
  have hdone : ∀ c ∈ (exec (step fun _ => none) (start gpuTopology) clientRun).conns,
      c.phase = .finished := by decide
  exact (disconnect_reclaims (fun _ => none) gpuTopology clientRun ⟨by decide, by decide⟩).2
    gpuTopology_wellFormed (by decide) hforced (fun i c hc => hdone c (List.mem_of_getElem? hc))
    (samplePlane "gpu0" .discreteGpu 10 10) (by decide)

end Inferenced.Varlink
