import Inferenced.Arbiter.LifeCycle
import Inferenced.Gateway

/-!
# Leases of dropped handlers

The lease of a request is released by the handler, or by the task that the
handler has spawned. The task is safe: nobody drops it. The chat handler and
the handler of a request that is not streamed hold the lease across the await
of `release_lease` (handlers.rs:82, 151), and a handler that is dropped there
leaves the lease behind.
-/

namespace Inferenced.Gateway
open Lib Lib.Runs Arbiter Varlink

variable {g : GatewayState} {op : GatewayOp} {id : LeaseId} {used : List LeaseId}

def HandlerState.Ended : HandlerState → Prop
  | .completed _ | .dropped => True
  | _ => False

/-- The lease that the handler or its task is going to release. -/
def HandlerState.owed : HandlerState → List LeaseId
  | .awaitRelease _ lease => [lease]
  | .streaming _ task => [task.lease]
  | _ => []

/-- No lease of a request that has ended is live. -/
def NoLeak (g : GatewayState) : Prop :=
  ∀ (i : ℕ) h, g.handlers[i]? = some h → h.state.Ended → ∀ id ∈ h.granted, ¬ Live g.arbiter id

/-- The step does not drop a handler that waits for the release of a live
lease. -/
def DropsNoHolder (g : GatewayState) (op : GatewayOp) : Prop :=
  ∀ i h job lease, op = .cancel i → g.handlers[i]? = some h → h.state = .awaitRelease job lease →
    ¬ Live g.arbiter lease

/-! ### What a step does to the arbiter -/

/-- The operation that a handler performs when it runs on. -/
def HandlerState.arbiterOp (env : PollEnv) : HandlerState → Option ArbiterOp
  | .awaitAcquire job bytes psi =>
    some (.lease (.acquire { env.toCallEnv with psi } (job.leaseRequest bytes)))
  | .awaitRelease _ lease => some (.lease (.release lease))
  | _ => none

def HandlerState.taskOp : HandlerState → Option ArbiterOp
  | .streaming _ task =>
    match task.phase with
    | .awaitRelease => some (.lease (.release task.lease))
    | _ => none
  | _ => none

def GatewayState.arbiterOp (g : GatewayState) : GatewayOp → Option ArbiterOp
  | .poll i env => (g.handlers[i]?).bind (·.state.arbiterOp env)
  | .pollTask i _ _ => (g.handlers[i]?).bind (·.state.taskOp)
  | .other op => some op
  | _ => none

def after (s : ArbiterState) (op : Option ArbiterOp) : ArbiterState := op.elim s (Arbiter.step s)

theorem poll_leases (s : ArbiterState) (env : PollEnv) (h : Handler) :
    (h.poll s env).1.leases = (after s (h.state.arbiterOp env)).leases := by
  unfold Handler.poll HandlerState.arbiterOp
  cases h.state with
  | awaitModel job =>
    dsimp only
    split <;> rfl
  | _ => rfl

theorem pollTask_leases (s : ArbiterState) (createdAt : String) (delivered : Bool) (h : Handler) :
    (h.pollTask s createdAt delivered).1.leases = (after s h.state.taskOp).leases := by
  unfold Handler.pollTask HandlerState.taskOp
  cases h.state with
  | streaming response task =>
    dsimp only
    cases task.phase <;> rfl
  | _ => rfl

theorem step_leases (g : GatewayState) (op : GatewayOp) :
    (step g op).arbiter.leases = (after g.arbiter (g.arbiterOp op)).leases := by
  cases op with
  | request authorization endpoint => rfl
  | poll i env =>
    simp only [step, GatewayState.arbiterOp]
    cases g.handlers[i]? with
    | none => rfl
    | some h => exact poll_leases g.arbiter env h
  | pollTask i createdAt delivered =>
    simp only [step, GatewayState.arbiterOp]
    cases g.handlers[i]? with
    | none => rfl
    | some h => exact pollTask_leases g.arbiter createdAt delivered h
  | cancel i =>
    simp only [step]
    cases g.handlers[i]? <;> rfl
  | other op => rfl
  | setRegistry registry => rfl

theorem newIds_arbiterOp {o : ArbiterOp} (h : g.arbiterOp op = some o) :
    ∀ n ∈ o.newIds, n ∈ op.newIds := by
  cases op with
  | poll i env =>
    obtain ⟨b, -, hb⟩ := Option.bind_eq_some_iff.mp h
    cases hs : b.state with
    | awaitAcquire job bytes psi =>
      rw [hs] at hb
      cases hb
      exact fun n hn => hn
    | awaitRelease job lease =>
      rw [hs] at hb
      cases hb
      exact fun n hn => by cases hn
    | _ => rw [hs] at hb; cases hb
  | pollTask i createdAt delivered =>
    obtain ⟨b, -, hb⟩ := Option.bind_eq_some_iff.mp h
    cases hs : b.state with
    | streaming response task =>
      rw [hs, HandlerState.taskOp] at hb
      split at hb
      · cases hb
        exact fun n hn => by cases hn
      · cases hb
    | _ => rw [hs] at hb; cases hb
  | other op =>
    cases h
    exact fun n hn => hn
  | request authorization endpoint => cases h
  | cancel i => cases h
  | setRegistry registry => cases h

/-! ### What a step does to a handler -/

/-- All that can happen to handler `i` in one step. -/
inductive HandlerChange (g : GatewayState) (op : GatewayOp) (i : ℕ) (h' : Handler) : Prop where
  | kept (h : g.handlers[i]? = some h')
  | arrived (hgranted : h'.granted = []) (howed : h'.state.owed = [])
  | advanced (h : Handler) (hh : g.handlers[i]? = some h) (hrun : ¬ h.state.Ended)
      (hrun' : ¬ h'.state.Ended) (hgranted : h'.granted = h.granted)
      (howed : h'.state.owed = h.state.owed)
  | acquired (h : Handler) (lease : LeaseId) (hh : g.handlers[i]? = some h) (hrun : ¬ h.state.Ended)
      (hnone : h.state.owed = []) (hrun' : ¬ h'.state.Ended)
      (hgranted : h'.granted = h.granted ++ [lease]) (howed : h'.state.owed = [lease])
      (hnew : lease ∈ op.newIds)
  | emptyHanded (h : Handler) (hh : g.handlers[i]? = some h) (hrun : ¬ h.state.Ended)
      (hnone : h.state.owed = []) (hended : h'.state.Ended) (hgranted : h'.granted = h.granted)
  | released (h : Handler) (lease : LeaseId) (hh : g.handlers[i]? = some h)
      (hrun : ¬ h.state.Ended) (howed : h.state.owed = [lease]) (hended : h'.state.Ended)
      (hgranted : h'.granted = h.granted)
      (hop : g.arbiterOp op = some (.lease (.release lease)))
  | dropped (h : Handler) (job : Job) (lease : LeaseId) (hop : op = .cancel i)
      (hh : g.handlers[i]? = some h) (hstate : h.state = .awaitRelease job lease)
      (hended : h'.state.Ended) (hgranted : h'.granted = h.granted)

theorem poll_change {i : ℕ} {env : PollEnv} {h : Handler} (hh : g.handlers[i]? = some h) :
    HandlerChange g (.poll i env) i (h.poll g.arbiter env).2 := by
  obtain ⟨state, granted⟩ := h
  cases state with
  | awaitModel job =>
    simp only [Handler.poll]
    split
    · exact .emptyHanded _ hh id rfl trivial rfl
    · exact .advanced _ hh id id rfl rfl
  | awaitAcquire job bytes psi =>
    simp only [Handler.poll]
    cases hr : (acquireLease g.arbiter { env.toCallEnv with psi } (job.leaseRequest bytes)).result with
    | error e => exact .emptyHanded _ hh id rfl trivial rfl
    | ok lease =>
      have hid := acquireLease_id hr
      have hnew : lease.id ∈ (GatewayOp.poll i env).newIds := List.mem_singleton.mpr hid
      unfold Handler.acquired
      cases job.answer with
      | stream prompt => exact .acquired _ lease.id hh id rfl id rfl rfl hnew
      | chat => exact .acquired _ lease.id hh id rfl id rfl rfl hnew
      | whole prompt => exact .acquired _ lease.id hh id rfl id rfl rfl hnew
  | awaitRelease job lease =>
    refine .released _ lease hh id rfl trivial rfl ?_
    simp only [GatewayState.arbiterOp, hh, Option.bind_some, HandlerState.arbiterOp]
  | streaming response task => exact .kept hh
  | completed response => exact .kept hh
  | dropped => exact .kept hh

theorem send_lease (t : StreamTask) (createdAt : String) (delivered : Bool) :
    (t.send createdAt delivered).lease = t.lease := by
  unfold StreamTask.send
  split
  · split <;> rfl
  · rfl
  · rfl

theorem pollTask_change {i : ℕ} {createdAt : String} {delivered : Bool} {h : Handler}
    (hh : g.handlers[i]? = some h) :
    HandlerChange g (.pollTask i createdAt delivered) i
      (h.pollTask g.arbiter createdAt delivered).2 := by
  obtain ⟨state, granted⟩ := h
  cases state with
  | streaming response task =>
    simp only [Handler.pollTask]
    have hsend : HandlerChange g (.pollTask i createdAt delivered) i
        { state := .streaming response (task.send createdAt delivered), granted } :=
      .advanced _ hh id id rfl (congrArg (fun l => [l]) (send_lease task createdAt delivered))
    cases hp : task.phase with
    | awaitRelease =>
      refine .released _ task.lease hh id rfl trivial rfl ?_
      simp only [GatewayState.arbiterOp, hh, Option.bind_some, HandlerState.taskOp, hp]
    | sending token rest => exact hsend
    | sendingFinal => exact hsend
  | _ => exact .kept hh

theorem cancel_change {i : ℕ} {h : Handler} (hh : g.handlers[i]? = some h) :
    HandlerChange g (.cancel i) i h.cancel := by
  obtain ⟨state, granted⟩ := h
  cases state with
  | awaitModel job => exact .emptyHanded _ hh id rfl trivial rfl
  | awaitAcquire job bytes psi => exact .emptyHanded _ hh id rfl trivial rfl
  | awaitRelease job lease => exact .dropped _ job lease rfl hh rfl trivial rfl
  | streaming response task => exact .kept hh
  | completed response => exact .kept hh
  | dropped => exact .kept hh

theorem step_handler {i : ℕ} {h' : Handler} (h : (step g op).handlers[i]? = some h') :
    HandlerChange g op i h' := by
  have hset : ∀ {j : ℕ} {out : ArbiterState × Handler}, HandlerChange g op j out.2 →
      (g.update j out).handlers[i]? = some h' → HandlerChange g op i h' := by
    intro j out hchange h
    rcases getElem?_set_cases h with ⟨rfl, rfl⟩ | h
    · exact hchange
    · exact .kept h
  cases op with
  | request authorization endpoint =>
    simp only [step] at h
    rcases lt_or_ge i g.handlers.length with hi | hi
    · rw [List.getElem?_append_left hi] at h
      exact .kept h
    · rw [List.getElem?_append_right hi, List.getElem?_singleton] at h
      split at h
      · obtain rfl := Option.some.inj h
        unfold GatewayState.arrive
        split
        · exact .arrived rfl rfl
        · exact .arrived rfl rfl
      · cases h
  | poll j env =>
    simp only [step] at h
    cases hj : g.handlers[j]? with
    | none => rw [hj] at h; exact .kept h
    | some b => rw [hj] at h; exact hset (poll_change hj) h
  | pollTask j createdAt delivered =>
    simp only [step] at h
    cases hj : g.handlers[j]? with
    | none => rw [hj] at h; exact .kept h
    | some b => rw [hj] at h; exact hset (pollTask_change hj) h
  | cancel j =>
    simp only [step] at h
    cases hj : g.handlers[j]? with
    | none => rw [hj] at h; exact .kept h
    | some b => rw [hj] at h; exact hset (cancel_change hj) h
  | other op => exact .kept h
  | setRegistry registry => exact .kept h

/-! ### The invariant -/

/-- What the handlers know of the leases acquired for them. -/
structure Ledger (used : List LeaseId) (g : GatewayState) : Prop where
  tracked : Tracked used g.arbiter
  drawn : ∀ (i : ℕ) h, g.handlers[i]? = some h → ∀ id ∈ h.granted, id ∈ used
  owed : ∀ (i : ℕ) h, g.handlers[i]? = some h → ¬ h.state.Ended → h.granted = h.state.owed

theorem ledger_start (T : HardwareTopology) (apiToken : Option String) :
    Ledger [] (start T apiToken) := by
  refine ⟨tracked_new T, fun i h hh => ?_, fun i h hh => ?_⟩
  · cases hh
  · cases hh

theorem Ledger.fresh (h : Ledger used g) (hn : ∀ n ∈ op.newIds, n ∉ used) :
    ∀ o, g.arbiterOp op = some o → ∀ n ∈ o.newIds, g.arbiter.leases.get? n = none :=
  fun _ ho => h.tracked.fresh fun n hmem => hn n (newIds_arbiterOp ho n hmem)

theorem Ledger.tracked_step (h : Ledger used g) (hn : ∀ n ∈ op.newIds, n ∉ used) :
    Tracked (op.newIds ++ used) (step g op).arbiter := by
  intro j hj
  rw [step_leases] at hj
  cases ho : g.arbiterOp op with
  | none =>
    rw [ho] at hj
    exact List.mem_append_right _ (h.tracked j hj)
  | some o =>
    rw [ho] at hj
    have hsub := newIds_arbiterOp ho
    rcases List.mem_append.mp (h.tracked.step o (fun n hmem => hn n (hsub n hmem)) j hj) with
      hmem | hmem
    · exact List.mem_append_left _ (hsub j hmem)
    · exact List.mem_append_right _ hmem

theorem Ledger.live_before (h : Ledger used g) (hn : ∀ n ∈ op.newIds, n ∉ used) (hid : id ∈ used)
    (hlive : Live (step g op).arbiter id) : Live g.arbiter id := by
  unfold Live at hlive
  rw [step_leases] at hlive
  cases ho : g.arbiterOp op with
  | none =>
    rw [ho] at hlive
    exact hlive
  | some o =>
    rw [ho] at hlive
    rcases (step_change g.arbiter o (h.fresh hn o ho) id).live hlive with hbefore | hnew
    · exact hbefore
    · exact absurd hid (hn id (newIds_arbiterOp ho id hnew))

theorem Ledger.step (h : Ledger used g) (op : GatewayOp) (hn : ∀ n ∈ op.newIds, n ∉ used) :
    Ledger (op.newIds ++ used) (step g op) := by
  refine ⟨h.tracked_step hn, fun i h' hh' id hid => ?_, fun i h' hh' hrun => ?_⟩
  · have hold : ∀ b, g.handlers[i]? = some b → id ∈ b.granted → id ∈ op.newIds ++ used :=
      fun b hb hmem => List.mem_append_right _ (h.drawn i b hb id hmem)
    cases step_handler hh' with
    | kept hh => exact hold h' hh hid
    | arrived hgranted _ => rw [hgranted] at hid; cases hid
    | advanced b hb _ _ hgranted _ => exact hold b hb (hgranted ▸ hid)
    | acquired b lease hb _ _ _ hgranted _ hnew =>
      rw [hgranted] at hid
      rcases List.mem_append.mp hid with hid | hid
      · exact hold b hb hid
      · rw [List.mem_singleton.mp hid]
        exact List.mem_append_left _ hnew
    | emptyHanded b hb _ _ _ hgranted => exact hold b hb (hgranted ▸ hid)
    | released b lease hb _ _ _ hgranted _ => exact hold b hb (hgranted ▸ hid)
    | dropped b job lease _ hb _ _ hgranted => exact hold b hb (hgranted ▸ hid)
  · cases step_handler hh' with
    | kept hh => exact h.owed i h' hh hrun
    | arrived hgranted howed => rw [hgranted, howed]
    | advanced b hb hrunb _ hgranted howed => rw [hgranted, howed, h.owed i b hb hrunb]
    | acquired b lease hb hrunb hnone _ hgranted howed _ =>
      rw [hgranted, howed, h.owed i b hb hrunb, hnone]
      rfl
    | emptyHanded b hb _ _ hended _ => exact absurd hended hrun
    | released b lease hb _ _ hended _ _ => exact absurd hended hrun
    | dropped b job lease _ hb _ hended _ => exact absurd hended hrun

/-- A step leaks no lease if and only if it does not drop a handler that waits
for the release of a live one. -/
theorem noLeak_step_iff (hledger : Ledger used g) (hn : ∀ n ∈ op.newIds, n ∉ used)
    (hp : NoLeak g) : NoLeak (step g op) ↔ DropsNoHolder g op := by
  constructor
  · intro hafter i h job lease hop hh hstate hlive
    subst hop
    have hstep : step g (.cancel i) = g.update i (g.arbiter, h.cancel) := by
      simp only [step, hh]
    have hcancel : h.cancel = { h with state := .dropped } := by
      rw [Handler.cancel, hstate]
    rw [hstep, hcancel] at hafter
    have howed := hledger.owed i h hh (by rw [hstate]; exact fun h => h)
    rw [hstate] at howed
    exact hafter i _ ((getElem?_set_of_getElem? hh hh).trans (congrArg some (if_pos rfl))) trivial
      lease (by rw [howed]; exact List.mem_singleton_self _) hlive
  · intro hdrop i h' hh' hended id hid hlive
    cases step_handler hh' with
    | kept hh =>
      exact hp i h' hh hended id hid (hledger.live_before hn (hledger.drawn i h' hh id hid) hlive)
    | arrived hgranted _ => rw [hgranted] at hid; cases hid
    | advanced b hb _ hrun' _ _ => exact hrun' hended
    | acquired b lease hb _ _ hrun' _ _ _ => exact hrun' hended
    | emptyHanded b hb hrun hnone _ hgranted =>
      rw [hgranted, hledger.owed i b hb hrun, hnone] at hid
      cases hid
    | released b lease hb hrun howed _ hgranted hop =>
      rw [hgranted, hledger.owed i b hb hrun, howed, List.mem_singleton] at hid
      subst hid
      unfold Live at hlive
      rw [step_leases, hop] at hlive
      exact not_live_endLease .expired rfl g.arbiter id hlive
    | dropped b job lease hop hb hstate _ hgranted =>
      have hrun : ¬ b.state.Ended := by rw [hstate]; exact fun h => h
      have hbefore := hledger.live_before hn
        (hledger.drawn i b hb id (hgranted ▸ hid)) hlive
      rw [hgranted, hledger.owed i b hb hrun, hstate] at hid
      rw [List.mem_singleton.mp hid] at hbefore
      exact hdrop i b job lease hop hb hstate hbefore

/-- The gateway leaks no lease: in every state of a run no lease of a request
whose handler and task have ended is live, if and only if the server never drops
a handler that waits for the release of its live lease. -/
theorem gateway_leaks_no_lease_iff (T : HardwareTopology) (apiToken : Option String)
    (ops : List GatewayOp) (hfresh : Fresh GatewayOp.newIds [] ops) :
    (∀ bs, bs <+: ops → NoLeak (exec step (start T apiToken) bs)) ↔
      Along step DropsNoHolder (start T apiToken) ops :=
  inv_iff_along (D := fun _ _ => True) Ledger NoLeak (fun _ _ op h hn _ _ => h.step op hn)
    (fun _ _ _ h hn _ hp => noLeak_step_iff h hn hp) [] _ ops (ledger_start T apiToken)
    (fun i h hh => by cases hh) hfresh (along_of_forall ops (fun _ _ _ => trivial) _)

def largeGpu : HardwareTopology :=
  sampleTopology [samplePlane "gpu0" .discreteGpu 1073741824 1073741824]

def samplePoll (i n : ℕ) : GatewayOp :=
  .poll i { toCallEnv := sampleEnv n, createdAt := "2026-01-01T00:00:00+00:00", chatId := "0" }

/-- A chat request that is dropped while it waits for memory, next to a streamed
answer whose client goes away after the first chunk. -/
def disconnectRun : List GatewayOp :=
  [.request none (.chatCompletions "llama3.2:1b"), .request none (.ollamaGenerate (.object [])),
   samplePoll 0 0, samplePoll 1 1, samplePoll 1 2, .cancel 0, .cancel 1,
   .pollTask 1 "" true, .pollTask 1 "" false, .pollTask 1 "" false, .pollTask 1 "" false]

theorem disconnectRun_drops : Along step DropsNoHolder (start largeGpu none) disconnectRun := by
  refine ⟨?_, ?_, ?_, ?_, ?_, ?_, ?_, ?_, ?_, ?_, ?_, trivial⟩
  all_goals
    intro i h job lease hop hi hstate
    cases hop
  -- neither of the two handlers waits for a release
  · cases hi
    cases hstate
  · cases hi
    cases hstate

theorem gateway_leaks_no_lease_iff_disconnectRun :
    Along step DropsNoHolder (start largeGpu none) disconnectRun ∧
      ∀ bs, bs <+: disconnectRun → NoLeak (exec step (start largeGpu none) bs) :=
  ⟨disconnectRun_drops, (gateway_leaks_no_lease_iff largeGpu none disconnectRun
    ⟨by decide, by decide⟩).mpr disconnectRun_drops⟩

/-- A chat request that is dropped while it waits for the lock of its
release. -/
def droppedRun : List GatewayOp :=
  [.request none (.chatCompletions "llama3.2:1b"), samplePoll 0 0, samplePoll 0 1, .cancel 0]

/-- The handler has ended and its lease still holds half of the GPU. -/
theorem dropped_handler_leaks :
    Fresh GatewayOp.newIds [] droppedRun ∧
      ((exec step (start largeGpu none) droppedRun).arbiter.leases.get? (sampleId 1)).map
        (·.state) = some .active ∧
      ¬ NoLeak (exec step (start largeGpu none) droppedRun) := by
  refine ⟨⟨by decide, by decide⟩, by decide, fun h => ?_⟩
  obtain ⟨l, hl⟩ : ∃ l, (exec step (start largeGpu none) droppedRun).arbiter.leases.get?
      (sampleId 1) = some l ∧ l.isLive = true := ⟨_, rfl, rfl⟩
  exact h 0 { state := .dropped, granted := [sampleId 1] } rfl trivial (sampleId 1)
    (List.mem_singleton_self _) ⟨l, hl⟩

end Inferenced.Gateway
