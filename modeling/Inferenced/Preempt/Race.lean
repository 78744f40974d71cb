import Inferenced.Arbiter.Leases
import Inferenced.Lib.Runs
import Inferenced.Preempt

/-!
# Tier 2 against a concurrent release

The last poll, the stop of the client and the change of the lease to `Frozen`
are three steps of `preempt_lease` (preempt.rs:109-156) with no lock across
them, and nothing is looked at again in between. A stopped client ends with a
frozen lease if and only if no release or revocation falls between the last poll
and the return.
-/

namespace Inferenced.Preempt
open Lib Lib.Runs Arbiter

variable {kernel : Kernel} {deadlineMs : UInt64} {id : LeaseId} {c : Call} {op : CallOp}

def Stopped (c : Call) : Prop := c.effects.any Effect.isStop = true

def LeaseActive (id : LeaseId) (c : Call) : Prop :=
  ∃ l, c.shared.arbiter.leases.get? id = some l ∧ l.isActive = true

def LeaseFrozen (id : LeaseId) (c : Call) : Prop :=
  ∃ l, c.shared.arbiter.leases.get? id = some l ∧ l.state = .frozen

def Pc.isReturned : Pc → Bool
  | .returned _ => true
  | _ => false

/-- What a step may do: the client is stopped only while its lease is active,
and when the call of a stopped client returns, it returns `Ok` and the lease is
frozen. -/
def StopsFrozen (kernel : Kernel) (deadlineMs : UInt64) (id : LeaseId) (c : Call) (op : CallOp) :
    Prop :=
  (¬ Stopped c → Stopped (step kernel deadlineMs id c op) → LeaseActive id c) ∧
  ∀ r, c.pc.isReturned = false → (step kernel deadlineMs id c op).pc = .returned r →
    Stopped (step kernel deadlineMs id c op) →
    r = .ok () ∧ LeaseFrozen id (step kernel deadlineMs id c op)

/-- The call of a client that the kernel can stop is past its last poll. -/
def InWindow (kernel : Kernel) (c : Call) : Prop :=
  (∃ lease, c.pc = .escalating lease ∧ kernel.stops lease ≠ []) ∨ c.pc = .freezeLease true ∨
    c.pc = .updateRecord true

/-- The condition on a step, for a client that the kernel can stop: the lease is
active when the deadline is found to have passed, and from there to the return
nobody releases or revokes it. -/
def Undisturbed (kernel : Kernel) (id : LeaseId) (c : Call) : CallOp → Prop
  | .task expired => ∀ lease, c.pc = .waiting lease → expired = true → kernel.stops lease ≠ [] →
      LeaseActive id c
  | .release | .revoke => ¬ InWindow kernel c
  | .recordRevoked => True

/-! ### Steps of the arbiter -/

theorem LeaseFrozen.active (h : LeaseFrozen id c) : LeaseActive id c := by
  obtain ⟨l, hl, hst⟩ := h
  exact ⟨l, hl, by rw [ComputeLease.isActive, hst]; rfl⟩

theorem LeaseActive.freeze (h : LeaseActive id c) :
    (freezeLease c.shared.arbiter id).result = .ok () ∧
      ∃ l, (freezeLease c.shared.arbiter id).state.leases.get? id = some l ∧ l.state = .frozen := by
  obtain ⟨l, hl, ha⟩ := h
  rcases markLease_cases .frozen c.shared.arbiter id with ⟨r, -, hno⟩ | ⟨m, hm, -, he⟩
  · have := hno l hl
    rw [ha] at this
    cases this
  · rw [show freezeLease c.shared.arbiter id = _ from he]
    refine ⟨rfl, m.withState .frozen, ?_, rfl⟩
    show (LeaseMap.setState _ id .frozen).get? id = _
    rw [get?_setState, if_pos rfl, hm]
    rfl

theorem freeze_inactive (h : ¬ LeaseActive id c) (l : ComputeLease)
    (hl : (freezeLease c.shared.arbiter id).state.leases.get? id = some l) : l.isActive = false := by
  rcases markLease_cases .frozen c.shared.arbiter id with ⟨r, he, -⟩ | ⟨m, hm, ha, -⟩
  · rw [show freezeLease c.shared.arbiter id = _ from he] at hl
    cases ha : l.isActive with
    | false => rfl
    | true => exact absurd ⟨l, hl, ha⟩ h
  · exact absurd ⟨m, hm, ha⟩ h

theorem not_active_end (final : LeaseState) (hfinal : final.isLive = false) (s : ArbiterState)
    (id : LeaseId) : ¬ ∃ l, (endLease final s id).state.leases.get? id = some l ∧ l.isActive = true := by
  rintro ⟨l, hl, ha⟩
  exact not_live_endLease final hfinal s id ⟨l, hl, isActive_isLive ha⟩

theorem step_ended (kernel : Kernel) (deadlineMs : UInt64) (id : LeaseId) (c : Call)
    (hop : op = .release ∨ op = .revoke) :
    (step kernel deadlineMs id c op).pc = c.pc ∧
      (Stopped (step kernel deadlineMs id c op) ↔ Stopped c) ∧
      ¬ LeaseActive id (step kernel deadlineMs id c op) := by
  rcases hop with rfl | rfl
  · exact ⟨rfl, Iff.rfl, not_active_end .expired rfl c.shared.arbiter id⟩
  · exact ⟨rfl, Iff.rfl, not_active_end .revoked rfl c.shared.arbiter id⟩

theorem stops_isStop {lease : ComputeLease} {e : Effect} (h : e ∈ kernel.stops lease) :
    e.isStop = true := by
  rcases List.mem_append.mp h with h | h
  all_goals
    rw [Option.mem_toList, Option.map_eq_some_iff] at h
    obtain ⟨x, -, rfl⟩ := h
    rfl

theorem stopped_append (kernel : Kernel) (lease : ComputeLease) (hno : ¬ Stopped c) :
    (c.effects ++ kernel.stops lease).any Effect.isStop = true ↔ kernel.stops lease ≠ [] := by
  simp only [Stopped, Bool.not_eq_true] at hno
  rw [List.any_append, hno, Bool.false_or]
  constructor
  · rintro h he
    rw [he] at h
    cases h
  · intro hne
    obtain ⟨e, he⟩ := List.exists_mem_of_ne_nil _ hne
    exact List.any_eq_true.mpr ⟨e, he, stops_isStop he⟩

/-! ### Undisturbed steps -/

/-- The invariant of undisturbed runs. -/
def Ready (kernel : Kernel) (id : LeaseId) (c : Call) : Prop :=
  match c.pc with
  | .escalating lease => ¬ Stopped c ∧ (kernel.stops lease ≠ [] → LeaseActive id c)
  | .freezeLease frozen => (Stopped c ↔ frozen = true) ∧ (frozen = true → LeaseActive id c)
  | .updateRecord frozen => (Stopped c ↔ frozen = true) ∧ (frozen = true → LeaseFrozen id c)
  | .returned _ => True
  | _ => ¬ Stopped c

theorem stopsFrozen_of_not_stopped (h : ¬ Stopped (step kernel deadlineMs id c op)) :
    StopsFrozen kernel deadlineMs id c op :=
  ⟨fun _ hs => absurd hs h, fun _ _ _ hs => absurd hs h⟩

theorem not_stopped_task (kernel : Kernel) (deadlineMs : UInt64) (id : LeaseId) (expired : Bool)
    (hno : ¬ Stopped c)
    (hpc : ∀ lease, c.pc ≠ .escalating lease) :
    ¬ Stopped (step kernel deadlineMs id c (.task expired)) := by
  obtain ⟨sh, pc, effects⟩ := c
  have hsame : ∀ fx : List Effect, fx.any Effect.isStop = false →
      ¬ (effects ++ fx).any Effect.isStop = true := by
    intro fx hfx
    simp only [Stopped, Bool.not_eq_true] at hno
    simp [List.any_append, hno, hfx]
  cases pc with
  | escalating lease => exact absurd rfl (hpc lease)
  | getLease =>
    simp only [step, taskStep, Stopped]
    split
    · exact hsame [] rfl
    · split <;> exact hsame [] rfl
  | yieldLease lease =>
    simp only [step, taskStep, Stopped]
    split
    · exact hsame [] rfl
    · refine hsame _ ?_
      cases lease.clientPid <;> rfl
  | waiting lease =>
    simp only [step, taskStep, Stopped]
    split
    · exact hsame [] rfl
    · split <;> exact hsame [] rfl
  | freezeLease frozen =>
    simp only [step, taskStep, Stopped]
    split <;> exact hsame [] rfl
  | insertRecord lease => exact hsame [] rfl
  | yielded => exact hsame [] rfl
  | updateRecord frozen => exact hsame [] rfl
  | returned r => exact hsame [] rfl

theorem freezeLease_task {sh : Shared} {effects : List Effect} (expired : Bool)
    (hstopped : Stopped ⟨sh, .freezeLease true, effects⟩)
    (hactive : LeaseActive id ⟨sh, .freezeLease true, effects⟩) :
    StopsFrozen kernel deadlineMs id ⟨sh, .freezeLease true, effects⟩ (.task expired) ∧
      Ready kernel id (step kernel deadlineMs id ⟨sh, .freezeLease true, effects⟩ (.task expired)) := by
  obtain ⟨hok, l, hl, hst⟩ := hactive.freeze
  dsimp only at hok hl
  have hstep : step kernel deadlineMs id ⟨sh, .freezeLease true, effects⟩ (.task expired) =
      { shared := { sh with arbiter := (Arbiter.freezeLease sh.arbiter id).state }
        pc := .updateRecord true, effects := effects ++ [] } := by
    simp only [step, taskStep, hok]
  rw [StopsFrozen, hstep]
  refine ⟨⟨fun hno _ => absurd hstopped hno, fun r _ hr => by cases hr⟩, ?_⟩
  refine ⟨iff_of_true ?_ rfl, fun _ => ⟨l, hl, hst⟩⟩
  rw [Stopped, List.append_nil]
  exact hstopped

theorem Ready.task {expired : Bool} (h : Ready kernel id c)
    (hu : Undisturbed kernel id c (.task expired)) :
    StopsFrozen kernel deadlineMs id c (.task expired) ∧
      Ready kernel id (step kernel deadlineMs id c (.task expired)) := by
  have hearly : ¬ Stopped c → (∀ lease, c.pc ≠ .escalating lease) →
      StopsFrozen kernel deadlineMs id c (.task expired) ∧
        ¬ Stopped (step kernel deadlineMs id c (.task expired)) := fun hno hpc =>
    ⟨stopsFrozen_of_not_stopped (not_stopped_task _ _ _ _ hno hpc), not_stopped_task _ _ _ _ hno hpc⟩
  obtain ⟨sh, pc, effects⟩ := c
  cases pc with
  | getLease =>
    obtain ⟨hp, hno⟩ := hearly h fun _ => by simp
    refine ⟨hp, ?_⟩
    simp only [step, taskStep] at hno ⊢
    split at hno
    · trivial
    · split at hno
      · rename_i hinactive
        rw [if_pos hinactive]
        trivial
      · rename_i hactive
        rw [if_neg hactive]
        exact hno
  | yieldLease lease =>
    obtain ⟨hp, hno⟩ := hearly h fun _ => by simp
    refine ⟨hp, ?_⟩
    simp only [step, taskStep] at hno ⊢
    split at hno
    · trivial
    · exact hno
  | insertRecord lease =>
    obtain ⟨hp, hno⟩ := hearly h fun _ => by simp
    exact ⟨hp, hno⟩
  | waiting lease =>
    obtain ⟨hp, hno⟩ := hearly h fun _ => by simp
    refine ⟨hp, ?_⟩
    simp only [step, taskStep] at hno ⊢
    cases expired with
    | true => exact ⟨hno, fun hstops => hu lease rfl rfl hstops⟩
    | false =>
      cases hy : hasYielded (sh.arbiter.leases.get? id) with
      | true =>
        simp only [hy, Bool.false_eq_true, if_false, if_true] at hno ⊢
        exact hno
      | false =>
        simp only [hy, Bool.false_eq_true, if_false] at hno ⊢
        exact hno
  | yielded =>
    obtain ⟨hp, -⟩ := hearly h fun _ => by simp
    exact ⟨hp, trivial⟩
  | escalating lease =>
    obtain ⟨hno, hactive⟩ := h
    have hstop := stopped_append kernel lease hno
    refine ⟨⟨fun _ hs => hactive (hstop.mp hs), fun r _ hr => by cases hr⟩, ?_, fun hf => ?_⟩
    · simp only [Stopped, step, taskStep, Bool.not_eq_true', List.isEmpty_eq_false_iff]
      exact hstop
    · refine hactive fun he => ?_
      simp [he] at hf
  | freezeLease frozen =>
    obtain ⟨hstop, hactive⟩ := h
    cases frozen with
    | false =>
      have hno : ¬ Stopped (⟨sh, .freezeLease false, effects⟩ : Call) := by simp [hstop]
      obtain ⟨hp, hno'⟩ := hearly hno fun _ => by simp
      refine ⟨hp, ?_⟩
      simp only [step, taskStep] at hno' ⊢
      split at hno'
      · trivial
      · exact ⟨iff_of_false hno' Bool.false_ne_true, fun hf => by cases hf⟩
    | true =>
      exact freezeLease_task expired (hstop.mpr rfl) (hactive rfl)
  | updateRecord frozen =>
    obtain ⟨hstop, hfrozen⟩ := h
    refine ⟨⟨fun hno hs => absurd (by simpa [step, taskStep, Stopped] using hs) hno,
      fun r _ hr hs => ?_⟩, trivial⟩
    have hbefore : Stopped (⟨sh, .updateRecord frozen, effects⟩ : Call) := by
      simpa [step, taskStep, Stopped] using hs
    obtain ⟨l, hl, hst⟩ := hfrozen (hstop.mp hbefore)
    cases hr
    exact ⟨rfl, l, hl, hst⟩
  | returned r =>
    refine ⟨⟨fun hno hs => absurd (by simpa [step, taskStep, Stopped] using hs) hno,
      fun r hr => by cases hr⟩, trivial⟩

theorem Ready.ended (h : Ready kernel id c) (hop : op = .release ∨ op = .revoke)
    (hu : Undisturbed kernel id c op) : Ready kernel id (step kernel deadlineMs id c op) := by
  have hout : ¬ InWindow kernel c := by rcases hop with rfl | rfl <;> exact hu
  obtain ⟨hpc, hstopped, -⟩ :=
    step_ended kernel deadlineMs id c hop
  unfold Ready at h ⊢
  rw [hpc, hstopped]
  cases hc : c.pc with
  | escalating lease =>
    rw [hc] at h
    exact ⟨h.1, fun hstops => absurd (Or.inl ⟨lease, hc, hstops⟩) hout⟩
  | freezeLease frozen =>
    rw [hc] at h
    exact ⟨h.1, fun hf => absurd (Or.inr (Or.inl (hf ▸ hc))) hout⟩
  | updateRecord frozen =>
    rw [hc] at h
    exact ⟨h.1, fun hf => absurd (Or.inr (Or.inr (hf ▸ hc))) hout⟩
  | _ =>
    rw [hc] at h
    exact h

theorem Ready.next (h : Ready kernel id c) (hu : Undisturbed kernel id c op) :
    StopsFrozen kernel deadlineMs id c op ∧ Ready kernel id (step kernel deadlineMs id c op) := by
  -- the other tasks neither stop the client nor return from the call
  have hother : (step kernel deadlineMs id c op).effects = c.effects →
      (step kernel deadlineMs id c op).pc = c.pc → StopsFrozen kernel deadlineMs id c op := by
    intro he hp
    refine ⟨fun hno hs => absurd (by rwa [Stopped, he] at hs) hno, fun r hr hret => ?_⟩
    rw [hp] at hret
    rw [hret] at hr
    cases hr
  cases op with
  | task expired => exact h.task hu
  | release => exact ⟨hother rfl rfl, h.ended (Or.inl rfl) hu⟩
  | revoke => exact ⟨hother rfl rfl, h.ended (Or.inr rfl) hu⟩
  | recordRevoked => exact ⟨hother rfl rfl, h⟩

/-! ### Disturbed runs -/

/-- A stopped client, or one that is going to be stopped, whose lease cannot
become frozen any more. -/
def Doomed (kernel : Kernel) (id : LeaseId) (c : Call) : Prop :=
  match c.pc with
  | .escalating lease => kernel.stops lease ≠ [] ∧ ¬ Stopped c ∧ ¬ LeaseActive id c
  | .freezeLease _ => Stopped c ∧ ¬ LeaseActive id c
  | .updateRecord _ => Stopped c ∧ ¬ LeaseFrozen id c
  | _ => False

theorem Doomed.task {expired : Bool} (h : Doomed kernel id c)
    (hp : StopsFrozen kernel deadlineMs id c (.task expired)) :
    Doomed kernel id (step kernel deadlineMs id c (.task expired)) := by
  obtain ⟨sh, pc, effects⟩ := c
  cases pc with
  | escalating lease =>
    obtain ⟨hstops, hno, hinactive⟩ := h
    exact absurd (hp.1 hno ((stopped_append kernel lease hno).mpr hstops)) hinactive
  | freezeLease frozen =>
    obtain ⟨hstopped, hinactive⟩ := h
    have hkeeps := freeze_inactive hinactive
    dsimp only at hkeeps
    cases hres : (Arbiter.freezeLease sh.arbiter id).result with
    | error e =>
      have hret := hp.2 (.error e) rfl
      simp only [step, taskStep, hres, Stopped, List.append_nil] at hret
      exact absurd (hret trivial hstopped).1 (by simp)
    | ok u =>
      simp only [step, taskStep, hres]
      refine ⟨by simpa [Stopped] using hstopped, ?_⟩
      rintro ⟨l, hl, hst⟩
      have := hkeeps l hl
      rw [ComputeLease.isActive, hst] at this
      cases this
  | updateRecord frozen =>
    obtain ⟨hstopped, hnot⟩ := h
    have hret := hp.2 (.ok ()) rfl rfl
    exact absurd (hret (by simpa [step, taskStep, Stopped] using hstopped)).2 hnot
  | _ => exact h.elim

theorem Doomed.next (h : Doomed kernel id c) (hp : StopsFrozen kernel deadlineMs id c op) :
    Doomed kernel id (step kernel deadlineMs id c op) := by
  have hended : op = .release ∨ op = .revoke →
      Doomed kernel id (step kernel deadlineMs id c op) := by
    intro hop
    obtain ⟨hpc, hstopped, hnot⟩ :=
      step_ended kernel deadlineMs id c hop
    unfold Doomed at h ⊢
    rw [hpc, hstopped]
    cases hc : c.pc with
    | escalating lease =>
      rw [hc] at h
      exact ⟨h.1, h.2.1, hnot⟩
    | freezeLease frozen =>
      rw [hc] at h
      exact ⟨h.1, hnot⟩
    | updateRecord frozen =>
      rw [hc] at h
      exact ⟨h.1, fun hf => hnot hf.active⟩
    | _ =>
      rw [hc] at h
      exact h
  cases op with
  | task expired => exact h.task hp
  | release => exact hended (Or.inl rfl)
  | revoke => exact hended (Or.inr rfl)
  | recordRevoked => exact h

theorem Doomed.not_returned (h : Doomed kernel id c) : c.pc.isReturned = false := by
  unfold Doomed at h
  cases hc : c.pc with
  | returned r => rw [hc] at h; exact h.elim
  | _ => rfl

theorem Doomed.run (h : Doomed kernel id c) (ops : List CallOp)
    (hp : Along (step kernel deadlineMs id) (StopsFrozen kernel deadlineMs id) c ops) :
    (exec (step kernel deadlineMs id) c ops).pc.isReturned = false := by
  induction ops generalizing c with
  | nil => exact h.not_returned
  | cons op ops ih => exact ih (h.next hp.1) hp.2

/-- The first disturbance dooms the client. -/
theorem Ready.doomed (deadlineMs : UInt64) (h : Ready kernel id c) (hu : ¬ Undisturbed kernel id c op) :
    Doomed kernel id (step kernel deadlineMs id c op) := by
  have hended : op = .release ∨ op = .revoke → InWindow kernel c →
      Doomed kernel id (step kernel deadlineMs id c op) := by
    intro hop hin
    obtain ⟨hpc, hstopped, hnot⟩ :=
      step_ended kernel deadlineMs id c hop
    unfold Ready at h
    unfold Doomed
    rw [hpc, hstopped]
    rcases hin with ⟨lease, hc, hstops⟩ | hc | hc <;> rw [hc] at h ⊢
    · exact ⟨hstops, h.1, hnot⟩
    · exact ⟨h.1.mpr rfl, hnot⟩
    · exact ⟨h.1.mpr rfl, fun hf => hnot hf.active⟩
  cases op with
  | task expired =>
    simp only [Undisturbed, not_forall] at hu
    obtain ⟨lease, hpc, rfl, hstops, hinactive⟩ := hu
    obtain ⟨sh, pc, effects⟩ := c
    cases hpc
    have hno := not_stopped_task kernel deadlineMs id true h fun _ => by simp
    exact ⟨hstops, hno, hinactive⟩
  | release => exact hended (Or.inl rfl) (not_not.mp hu)
  | revoke => exact hended (Or.inr rfl) (not_not.mp hu)
  | recordRevoked => exact absurd trivial hu

/-! ### Runs -/

theorem stopsFrozen_of_undisturbed (h : Ready kernel id c) (ops : List CallOp)
    (hu : Along (step kernel deadlineMs id) (Undisturbed kernel id) c ops) :
    Along (step kernel deadlineMs id) (StopsFrozen kernel deadlineMs id) c ops := by
  induction ops generalizing c with
  | nil => exact trivial
  | cons op ops ih => exact ⟨(h.next hu.1).1, ih (h.next hu.1).2 hu.2⟩

theorem undisturbed_of_stopsFrozen (h : Ready kernel id c) (ops : List CallOp)
    (hdone : (exec (step kernel deadlineMs id) c ops).pc.isReturned = true)
    (hp : Along (step kernel deadlineMs id) (StopsFrozen kernel deadlineMs id) c ops) :
    Along (step kernel deadlineMs id) (Undisturbed kernel id) c ops := by
  induction ops generalizing c with
  | nil => exact trivial
  | cons op ops ih =>
    by_cases hu : Undisturbed kernel id c op
    · exact ⟨hu, ih (h.next hu).2 hdone hp.2⟩
    · have hnever := (h.doomed deadlineMs hu).run ops hp.2
      exact absurd (hdone.symm.trans hnever) (by decide)

/-- Tier 2 only hits leases that end up frozen: take any interleaving of one call
of `preempt_lease` with releases and revocations of its lease, in any state of
the arbiter and with any answers of the kernel and the clock. If no release or
revocation falls between the last poll and the return, a stopped client ends
with a frozen lease; and in the runs in which the call returns, only then. -/
theorem stops_frozen_iff (kernel : Kernel) (deadlineMs : UInt64) (id : LeaseId) (shared : Shared)
    (ops : List CallOp) :
    (Along (step kernel deadlineMs id) (Undisturbed kernel id) { shared } ops →
      Along (step kernel deadlineMs id) (StopsFrozen kernel deadlineMs id) { shared } ops) ∧
    ((exec (step kernel deadlineMs id) { shared } ops).pc.isReturned = true →
      Along (step kernel deadlineMs id) (StopsFrozen kernel deadlineMs id) { shared } ops →
      Along (step kernel deadlineMs id) (Undisturbed kernel id) { shared } ops) := by
  have hready : Ready kernel id { shared } := by
    show ¬ Stopped _
    simp [Stopped]
  exact ⟨stopsFrozen_of_undisturbed hready ops, undisturbed_of_stopsFrozen hready ops⟩

def batchLease : LeaseRequest :=
  { sampleRequest .batch 10 "gpu0" with clientUnit := some "worker.service", clientPid := some 7 }

def batchShared : Shared :=
  { arbiter := (acquireLease (new (sampleTopology [samplePlane "gpu0" .discreteGpu 10 10]))
      (sampleEnv 0) batchLease).state
    records := KeyedMap.empty }

def obedientKernel : Kernel := ⟨fun _ => true, fun _ => true⟩

/-- The client polls as active once, the deadline passes, and nobody releases
the lease. -/
def quietCall : List CallOp :=
  [.task false, .task false, .task false, .task false, .task true, .task false, .task false,
   .task false]

theorem stops_frozen_iff_quietCall :
    Along (step obedientKernel 250 (sampleId 0)) (StopsFrozen obedientKernel 250 (sampleId 0))
      { shared := batchShared } quietCall := by
  have hwait : Undisturbed obedientKernel (sampleId 0)
      (exec (step obedientKernel 250 (sampleId 0)) { shared := batchShared } (quietCall.take 4))
      (.task true) := fun _ _ _ _ => ⟨_, rfl, by decide⟩
  refine (stops_frozen_iff obedientKernel 250 (sampleId 0) batchShared quietCall).1
    ⟨?_, ?_, ?_, ?_, hwait, ?_, ?_, ?_, trivial⟩
  all_goals
    intro lease _ hexpired
    cases hexpired

/-- As before, but the client releases its lease when the deadline has passed,
and the call goes on to tier 2. -/
def lateRelease : List CallOp :=
  [.task false, .task false, .task false, .task false, .task true, .release, .task false,
   .task false, .task false]

def lateCall (n : ℕ) : Call :=
  exec (step obedientKernel 250 (sampleId 0)) { shared := batchShared } (lateRelease.take n)

/-- The client that has released its lease is frozen and sent `SIGSTOP`, and its
lease stays `Expired`. -/
theorem late_release_stops_client :
    (lateCall 9).pc.isReturned = true ∧
      (lateCall 9).effects = [.yieldSignal 7, .freezeCgroup "worker.service", .freezeProcess 7] ∧
      ((lateCall 9).shared.arbiter.leases.get? (sampleId 0)).map (·.state) = some .expired ∧
      ¬ Along (step obedientKernel 250 (sampleId 0)) (StopsFrozen obedientKernel 250 (sampleId 0))
        { shared := batchShared } lateRelease := by
  refine ⟨by decide, by decide, by decide, fun h => ?_⟩
  obtain ⟨-, -, -, -, -, -, hstop, -⟩ := h
  obtain ⟨l, hl, ha⟩ := hstop.1 (by simp only [Stopped]; decide) (by simp only [Stopped]; decide)
  have hread : (lateCall 6).shared.arbiter.leases.get? (sampleId 0) = some l := hl
  have hexpired : ((lateCall 6).shared.arbiter.leases.get? (sampleId 0)).map (·.isActive) =
      some false := by decide
  rw [hread, Option.map_some, ha] at hexpired
  cases hexpired

end Inferenced.Preempt
