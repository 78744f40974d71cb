import Inferenced.Lib.Custody
import Inferenced.System
import Inferenced.Varlink.Reclaim

/-!
# Who holds which lease

A lease is granted to one task: a Varlink connection puts it on its list, a
handler of the gateway keeps it for itself or for the task it spawns, a sentry
connection keeps it until its answer is written. The tasks interleave, any
Varlink client may release, yield or thaw a lease that is not its own, and
hot-plug events rebook all leases; still every live lease has exactly one
holder, and when no task holds anything, all memory is back.
-/

namespace Inferenced.System
open Lib Lib.Runs Lib.Custody Arbiter HardwareTopology Varlink

/-! ### Holders -/

inductive Task where
  | conn (i : ℕ)
  | handler (i : ℕ)
  | sentry (i : ℕ)
  deriving DecidableEq

/-- The lease that a handler or its task is going to release; a handler that was
dropped will not, and still has what was granted to it. -/
def handlerHolds (h : Gateway.Handler) : List LeaseId :=
  match h.state with
  | .dropped => h.granted
  | state => state.owed

def sentryHolds (c : Sentry.Conn) : List LeaseId :=
  match c.phase with
  | .writing _ lease | .awaitRelease lease _ => [lease]
  | _ => []

def holdings (s : System) : Task → List LeaseId
  | .conn i => (s.conns[i]?).elim [] (·.activeLeases)
  | .handler i => (s.handlers[i]?).elim [] handlerHolds
  | .sentry i => (s.sentries[i]?).elim [] sentryHolds

def Holds (s : System) (t : Task) (id : LeaseId) : Prop := id ∈ s.holdings t

variable {fromSlice : List UInt8 → Option Varlink.Json} {parseUuid : String → Option LeaseId}
  {s s' : System} {id : LeaseId} {used : List LeaseId}

/-- The list of a task becomes `after`, from `before`: what is granted is added,
and nothing that is live in `a` leaves. -/
structure Handed (a : ArbiterState) (before after granted : List LeaseId) : Prop where
  gained : ∀ id ∈ after, id ∈ before ∨ id ∈ granted
  kept : ∀ id ∈ before, Live a id → id ∈ after
  taken : ∀ id ∈ granted, id ∈ after

theorem Handed.same (a : ArbiterState) (l : List LeaseId) : Handed a l l [] :=
  ⟨fun _ h => Or.inl h, fun _ h _ => h, fun _ h => absurd h List.not_mem_nil⟩

theorem handed_append (a : ArbiterState) (l granted : List LeaseId) : Handed a l (l ++ granted) granted :=
  ⟨fun _ h => List.mem_append.mp h, fun _ h _ => List.mem_append_left _ h,
    fun _ h => List.mem_append_right _ h⟩

theorem handed_release (a : ArbiterState) (lease : LeaseId) :
    Handed (releaseLease a lease).state [lease] [] [] := by
  refine ⟨fun _ h => absurd h List.not_mem_nil, fun id h hlive => ?_, fun _ h => absurd h List.not_mem_nil⟩
  rw [List.mem_singleton.mp h] at hlive
  exact absurd hlive (not_live_endLease .expired rfl a lease)

/-- One task has its list changed. -/
theorem passes_of_handed {a : ArbiterState} {t₀ : Task} {granted : List LeaseId}
    (hother : ∀ t, t ≠ t₀ → s'.holdings t = s.holdings t)
    (h : Handed a (s.holdings t₀) (s'.holdings t₀) granted) :
    Passes (Live a) s.Holds s'.Holds granted t₀ := by
  refine ⟨fun t id ht => ?_, fun t id ht hlive => ?_, h.taken⟩
  · by_cases heq : t = t₀
    · subst heq
      rcases h.gained id ht with hold | hnew
      · exact Or.inl hold
      · exact Or.inr ⟨rfl, hnew⟩
    · rw [Holds, hother t heq] at ht
      exact Or.inl ht
  · by_cases heq : t = t₀
    · subst heq
      exact h.kept id ht hlive
    · rw [Holds, hother t heq]
      exact ht

theorem passes_of_same (a : ArbiterState) (h : ∀ t, s'.holdings t = s.holdings t) (t₀ : Task) :
    Passes (Live a) s.Holds s'.Holds [] t₀ :=
  passes_of_handed (fun t _ => h t) (by rw [h]; exact Handed.same _ _)

theorem elim_set {α : Type*} (f : α → List LeaseId) {l : List α} {i : ℕ} {a b : α} (h : l[i]? = some b) :
    ((l.set i a)[i]?).elim [] f = f a := by
  rw [getElem?_set_of_getElem? h h, if_pos rfl]
  rfl

theorem elim_set_ne {α : Type*} (f : α → List LeaseId) (l : List α) {i j : ℕ} (a : α) (h : j ≠ i) :
    ((l.set i a)[j]?).elim [] f = (l[j]?).elim [] f := by
  rw [List.getElem?_set_ne h.symm]

/-- A task that is added holds nothing. -/
theorem elim_concat {α : Type*} (f : α → List LeaseId) (l : List α) {a : α} (h : f a = []) (j : ℕ) :
    ((l ++ [a])[j]?).elim [] f = (l[j]?).elim [] f := by
  rcases Nat.lt_trichotomy j l.length with hj | rfl | hj
  · rw [List.getElem?_append_left hj]
  · rw [List.getElem?_concat_length, List.getElem?_eq_none (Nat.le_refl _)]
    exact h
  · rw [List.getElem?_eq_none (by rw [List.length_append]; exact hj), List.getElem?_eq_none (Nat.le_of_lt hj)]

/-! ### Varlink connections -/

theorem mem_of_mem_listAfter {a : ArbiterState} {active : List LeaseId} {lop : Option LeaseOp}
    (h : id ∈ listAfter a active lop) : id ∈ active ∨ id ∈ grantedIds a lop := by
  cases lop with
  | none => exact List.mem_append.mp h
  | some o =>
    cases o with
    | release j =>
      simp only [listAfter] at h
      split at h
      · exact Or.inl (List.mem_of_mem_filter h)
      · exact Or.inl h
    | _ => exact List.mem_append.mp h

theorem handed_listAfter {a a' : ArbiterState} {active : List LeaseId} {lop : Option LeaseOp}
    (hbooks : SameBooks a' (stepOption a lop)) :
    Handed a' active (listAfter a active lop) (grantedIds a lop) :=
  ⟨fun _ h => mem_of_mem_listAfter h, fun _ h hlive => mem_listAfter h (hbooks.live.mp hlive),
    fun _ h => grantedIds_subset_listAfter h⟩

theorem passes_varlink (parseUuid : String → Option LeaseId) (s : System) (op : DaemonOp) :
    ∃ t₀, Passes (Live (s.step fromSlice parseUuid (.varlink op)).arbiter) s.Holds
      (s.step fromSlice parseUuid (.varlink op)).Holds
      (grantedIds s.arbiter (s.varlink.leaseOp parseUuid op)) t₀ := by
  simp only [System.step]
  -- the list of connection `i` changes
  have hconn : ∀ {i : ℕ} {c c' : Conn} {d : Daemon} {granted : List LeaseId}, s.conns[i]? = some c →
      d.conns = s.conns.set i c' → Handed d.arbiter c.activeLeases c'.activeLeases granted →
      Passes (Live d.arbiter) s.Holds
        { s with arbiter := d.arbiter, conns := d.conns, frozen := d.frozen }.Holds granted (.conn i) := by
    intro i c c' d granted hc hset hhanded
    refine passes_of_handed (fun t ht => ?_) ?_
    · cases t with
      | conn j =>
        simp only [holdings, hset]
        exact elim_set_ne _ _ _ fun hj => ht (congrArg Task.conn hj)
      | handler j => rfl
      | sentry j => rfl
    · simp only [holdings, hset, hc, Option.elim_some, elim_set _ hc]
      exact hhanded
  cases step_case parseUuid s.varlink op with
  | idle h ho =>
    rw [h, ho]
    exact ⟨.conn 0, Passes.refl _ _ _⟩
  | accepted peer hop h ho =>
    rw [h, ho]
    refine ⟨.conn 0, passes_of_same _ (fun t => ?_) _⟩
    cases t with
    | conn j => exact elim_concat _ _ rfl j
    | handler j => rfl
    | sentry j => rfl
  | ended i c hc hop h ho =>
    rw [h, ho]
    exact ⟨.conn i, hconn hc rfl (Handed.same _ _)⟩
  | finished i c hc hphase hlist h ho =>
    rw [h, ho]
    exact ⟨.conn i, hconn hc rfl (Handed.same _ _)⟩
  | handled i c req env written hc hop h ho =>
    have hperforms : Performs s.arbiter c.activeLeases
        (serve parseUuid req s.arbiter c.activeLeases c.peer env) (req.leaseOp parseUuid c.peer env) :=
      serve_performs req _ _ _ _
    have hhanded : Handed _ c.activeLeases _ _ := handed_listAfter hperforms.books
    rw [← hperforms.list] at hhanded
    rw [h, ho]
    exact ⟨.conn i, hconn hc rfl hhanded⟩
  | reclaimed i c lease rest hc hphase hlist h ho =>
    rw [h, ho]
    refine ⟨.conn i, hconn hc rfl ⟨fun j hj => ?_, fun j hj hlive => ?_, fun j hj => by cases hj⟩⟩
    · rw [hlist]
      exact Or.inl (List.mem_cons_of_mem _ hj)
    · rw [hlist] at hj
      rcases List.mem_cons.mp hj with rfl | hj
      · exact absurd hlive (not_live_endLease .expired rfl _ _)
      · exact hj

/-! ### Handlers of the gateway -/

/-- While a handler or its task runs, it has granted leases only to release
them. -/
def Owing (h : Gateway.Handler) : Prop := ¬ h.state.Ended → h.granted = h.state.owed

/-- Handler `i` is replaced, after a step of the arbiter. -/
theorem passes_handler {i : ℕ} {h h' : Gateway.Handler} {a : ArbiterState} {frozen : List String}
    {granted : List LeaseId} (hh : s.handlers[i]? = some h)
    (hhanded : Handed a (handlerHolds h) (handlerHolds h') granted) :
    Passes (Live a) s.Holds
      { s with arbiter := a, handlers := s.handlers.set i h', frozen }.Holds granted (.handler i) := by
  refine passes_of_handed (fun t ht => ?_) ?_
  · cases t with
    | conn j => rfl
    | handler j => exact elim_set_ne _ _ _ fun hj => ht (congrArg Task.handler hj)
    | sentry j => rfl
  · simp only [holdings, hh, Option.elim_some, elim_set _ hh]
    exact hhanded

def grantedBy (a : ArbiterState) : Option ArbiterOp → List LeaseId
  | some (.lease o) => grantedIds a (some o)
  | _ => []

theorem handed_poll (a : ArbiterState) (env : Gateway.PollEnv) (h : Gateway.Handler) :
    Handed (h.poll a env).1 (handlerHolds h) (handlerHolds (h.poll a env).2)
      (grantedBy a (h.state.arbiterOp env)) := by
  obtain ⟨state, granted⟩ := h
  cases state with
  | awaitModel job =>
    simp only [Gateway.Handler.poll]
    split
    · exact Handed.same _ _
    · exact Handed.same _ _
  | awaitAcquire job bytes psi =>
    simp only [Gateway.Handler.poll, Gateway.HandlerState.arbiterOp, grantedBy, grantedIds]
    cases (acquireLease a { env.toCallEnv with psi } (job.leaseRequest bytes)).result with
    | error e => exact Handed.same _ _
    | ok lease =>
      unfold Gateway.Handler.acquired
      cases job.answer with
      | chat => exact handed_append _ [] _
      | whole prompt => exact handed_append _ [] _
      | stream prompt => exact handed_append _ [] _
  | awaitRelease job lease => exact handed_release a lease
  | streaming response task => exact Handed.same _ _
  | completed response => exact Handed.same _ _
  | dropped => exact Handed.same _ _

theorem handed_pollTask (a : ArbiterState) (createdAt : String) (delivered : Bool) (h : Gateway.Handler) :
    Handed (h.pollTask a createdAt delivered).1 (handlerHolds h)
      (handlerHolds (h.pollTask a createdAt delivered).2) (grantedBy a h.state.taskOp) := by
  obtain ⟨state, granted⟩ := h
  cases state with
  | streaming response task =>
    simp only [Gateway.Handler.pollTask, Gateway.HandlerState.taskOp]
    have hsend : Handed a [task.lease] [(task.send createdAt delivered).lease] [] := by
      rw [Gateway.send_lease]
      exact Handed.same _ _
    cases task.phase with
    | awaitRelease => exact handed_release a task.lease
    | sending token rest => exact hsend
    | sendingFinal => exact hsend
  | _ => exact Handed.same _ _

theorem handed_cancel (a : ArbiterState) {h : Gateway.Handler} (ho : Owing h) :
    Handed a (handlerHolds h) (handlerHolds h.cancel) [] := by
  obtain ⟨state, granted⟩ := h
  cases state with
  | awaitModel job =>
    obtain rfl : granted = [] := ho id
    exact Handed.same _ _
  | awaitAcquire job bytes psi =>
    obtain rfl : granted = [] := ho id
    exact Handed.same _ _
  | awaitRelease job lease =>
    obtain rfl : granted = [lease] := ho id
    exact Handed.same _ _
  | streaming response task => exact Handed.same _ _
  | completed response => exact Handed.same _ _
  | dropped => exact Handed.same _ _

theorem passes_gateway (ho : ∀ (i : ℕ) h, s.handlers[i]? = some h → Owing h) (op : Gateway.GatewayOp)
    (hop : ∀ o, op ≠ .other o) :
    ∃ t₀, Passes (Live (s.stepGateway op).arbiter) s.Holds (s.stepGateway op).Holds
      (grantedBy s.arbiter (s.gateway.arbiterOp op)) t₀ := by
  cases op with
  | request authorization endpoint =>
    refine ⟨.handler 0, passes_of_same _ (fun t => ?_) _⟩
    cases t with
    | conn j => rfl
    | handler j =>
      refine elim_concat _ _ ?_ j
      unfold Gateway.GatewayState.arrive
      split <;> rfl
    | sentry j => rfl
  | poll i env =>
    simp only [stepGateway, Gateway.step, Gateway.GatewayState.arbiterOp]
    cases hh : s.gateway.handlers[i]? with
    | none => exact ⟨.handler i, Passes.refl _ _ _⟩
    | some h => exact ⟨.handler i, passes_handler hh (handed_poll s.arbiter env h)⟩
  | pollTask i createdAt delivered =>
    simp only [stepGateway, Gateway.step, Gateway.GatewayState.arbiterOp]
    cases hh : s.gateway.handlers[i]? with
    | none => exact ⟨.handler i, Passes.refl _ _ _⟩
    | some h => exact ⟨.handler i, passes_handler hh (handed_pollTask s.arbiter createdAt delivered h)⟩
  | cancel i =>
    simp only [stepGateway, Gateway.step, Gateway.GatewayState.arbiterOp]
    cases hh : s.gateway.handlers[i]? with
    | none => exact ⟨.handler i, Passes.refl _ _ _⟩
    | some h => exact ⟨.handler i, passes_handler hh (handed_cancel s.arbiter (ho i h hh))⟩
  | other o => exact absurd rfl (hop o)
  | setRegistry registry => exact ⟨.handler 0, Passes.refl _ _ _⟩

/-! ### Sentry connections -/

theorem sentryHolds_read (bytes : Option (List UInt8)) (c : Sentry.Conn) :
    sentryHolds (c.read fromSlice bytes) = sentryHolds c := by
  obtain ⟨phase, sent⟩ := c
  cases phase with
  | reading =>
    unfold Sentry.Conn.read
    dsimp only
    split <;> rfl
  | _ => rfl

theorem sentryHolds_write (written : Bool) (c : Sentry.Conn) :
    sentryHolds (c.write written) = sentryHolds c := by
  obtain ⟨phase, sent⟩ := c
  cases phase <;> rfl

theorem handed_sentry (a : ArbiterState) (env : CallEnv) (c : Sentry.Conn) :
    Handed (c.poll a env).1 (sentryHolds c) (sentryHolds (c.poll a env).2.1)
      (grantedIds a (c.phase.leaseOp env)) := by
  obtain ⟨phase, sent⟩ := c
  cases phase with
  | awaitAcquire triage =>
    simp only [Sentry.Conn.poll, Sentry.Phase.leaseOp, grantedIds]
    cases (acquireLease a env triage.leaseRequest).result with
    | ok lease => exact handed_append _ [] _
    | error e => exact Handed.same _ _
  | awaitRelease lease written =>
    cases written with
    | true => exact handed_release a lease
    | false => exact handed_release a lease
  | reading => exact Handed.same _ _
  | writing response lease => exact Handed.same _ _
  | closed => exact Handed.same _ _

/-- A change of connection `i` that leaves what it holds. -/
theorem holdings_modify (s : System) (i : ℕ) {f : Sentry.Conn → Sentry.Conn}
    (hf : ∀ c, sentryHolds (f c) = sentryHolds c) (t : Task) :
    { s with sentries := s.sentries.modify i f }.holdings t = s.holdings t := by
  cases t with
  | conn j => rfl
  | handler j => rfl
  | sentry j =>
    simp only [holdings, List.getElem?_modify]
    cases s.sentries[j]? with
    | none => rfl
    | some c =>
      show sentryHolds (if i = j then f c else c) = sentryHolds c
      split
      · exact hf c
      · rfl

theorem passes_sentry (s : System) (op : Sentry.SentryOp) :
    ∃ t₀, Passes (Live (s.stepSentry fromSlice op).arbiter) s.Holds (s.stepSentry fromSlice op).Holds
      (grantedIds s.arbiter (s.sentryOp op)) t₀ := by
  cases op with
  | accept =>
    refine ⟨.sentry 0, passes_of_same _ (fun t => ?_) _⟩
    cases t with
    | conn j => rfl
    | handler j => rfl
    | sentry j => exact elim_concat _ _ rfl j
  | read i bytes => exact ⟨.sentry i, passes_of_same _ (holdings_modify s i (sentryHolds_read bytes)) _⟩
  | write i written =>
    exact ⟨.sentry i, passes_of_same _ (holdings_modify s i (sentryHolds_write written)) _⟩
  | poll i env =>
    simp only [stepSentry, sentryOp]
    cases hc : s.sentries[i]? with
    | none => exact ⟨.sentry i, Passes.refl _ _ _⟩
    | some c =>
      refine ⟨.sentry i, passes_of_handed (fun t ht => ?_) ?_⟩
      · cases t with
        | conn j => rfl
        | handler j => rfl
        | sentry j => exact elim_set_ne _ _ _ fun hj => ht (congrArg Task.sentry hj)
      · simp only [holdings, hc, Option.elim_some, elim_set _ hc]
        exact handed_sentry s.arbiter env c

/-! ### One step -/

def newIds : SystemOp → List LeaseId
  | .varlink op => op.newIds
  | .httpPoll _ env => [env.newId]
  | .sentry (.poll _ env) => [env.newId]
  | _ => []

theorem newIds_arbiterOp {op : SystemOp} {o : ArbiterOp} (h : s.arbiterOp parseUuid op = some o) :
    ∀ n ∈ o.newIds, n ∈ newIds op := by
  cases op with
  | varlink op =>
    obtain ⟨lop, hlop, rfl⟩ := Option.map_eq_some_iff.mp h
    exact newIds_leaseOp hlop
  | httpRequest authorization endpoint => cases h
  | httpPoll i env =>
    have hpoll : s.gateway.arbiterOp (.poll i env) = some o := h
    exact Gateway.newIds_arbiterOp hpoll
  | httpTask i createdAt delivered =>
    have htask : s.gateway.arbiterOp (.pollTask i createdAt delivered) = some o := h
    exact Gateway.newIds_arbiterOp htask
  | httpDrop i => cases h
  | sentry op =>
    obtain ⟨lop, hlop, rfl⟩ := Option.map_eq_some_iff.mp h
    cases op with
    | poll i env =>
      obtain ⟨c, -, hc⟩ := Option.bind_eq_some_iff.mp hlop
      unfold Sentry.Phase.leaseOp at hc
      split at hc
      · cases hc
        exact fun n hn => hn
      · cases hc
        exact fun n hn => by cases hn
      · cases hc
    | _ => cases hlop
  | refreshTopology order topology =>
    cases h
    exact fun n hn => by cases hn

theorem grantedBy_map (a : ArbiterState) (lop : Option LeaseOp) :
    grantedBy a (lop.map .lease) = grantedIds a lop := by
  cases lop <;> rfl

theorem step_passes (fromSlice : List UInt8 → Option Varlink.Json) (parseUuid : String → Option LeaseId)
    (ho : ∀ (i : ℕ) h, s.handlers[i]? = some h → Owing h) (op : SystemOp) :
    ∃ t₀, Passes (Live (s.step fromSlice parseUuid op).arbiter) s.Holds
      (s.step fromSlice parseUuid op).Holds (grantedBy s.arbiter (s.arbiterOp parseUuid op)) t₀ := by
  cases op with
  | varlink op =>
    simp only [arbiterOp, grantedBy_map]
    exact passes_varlink parseUuid s op
  | httpRequest authorization endpoint =>
    exact passes_gateway ho (.request authorization endpoint) fun o h => by cases h
  | httpPoll i env => exact passes_gateway ho (.poll i env) fun o h => by cases h
  | httpTask i createdAt delivered =>
    exact passes_gateway ho (.pollTask i createdAt delivered) fun o h => by cases h
  | httpDrop i => exact passes_gateway ho (.cancel i) fun o h => by cases h
  | sentry op =>
    simp only [arbiterOp, grantedBy_map]
    exact passes_sentry s op
  | refreshTopology order topology => exact ⟨.conn 0, passes_of_same _ (fun t => by cases t <;> rfl) _⟩

theorem live_step {op : SystemOp} (ht : Tracked used s.arbiter) (hn : ∀ n ∈ newIds op, n ∉ used)
    (h : Live (s.step fromSlice parseUuid op).arbiter id) :
    Live s.arbiter id ∨ id ∈ grantedBy s.arbiter (s.arbiterOp parseUuid op) := by
  unfold Live at h
  rw [(step_performed fromSlice parseUuid s op).leases] at h
  cases ho : s.arbiterOp parseUuid op with
  | none =>
    rw [ho] at h
    exact Or.inl h
  | some o =>
    have hfresh : ∀ n ∈ o.newIds, s.arbiter.leases.get? n = none :=
      ht.fresh fun n hmem => hn n (newIds_arbiterOp ho n hmem)
    rw [ho] at h
    cases o with
    | lease lop => exact live_stepLease hfresh h
    | updateTopology order topology =>
      rcases (step_change s.arbiter _ hfresh id).live h with hbefore | hnew
      · exact Or.inl hbefore
      · cases hnew

/-! ### The invariant -/

structure Custodian (used : List LeaseId) (s : System) : Prop where
  tracked : Tracked used s.arbiter
  kept : Kept used (Live s.arbiter) s.Holds
  owing : ∀ (i : ℕ) h, s.handlers[i]? = some h → Owing h
  finished : ∀ (i : ℕ) c, s.conns[i]? = some c → c.phase = .finished → c.activeLeases = []

theorem custodian_start (T : HardwareTopology) (apiToken : Option String) :
    Custodian [] (start T apiToken) := by
  have hnothing : ∀ t, (start T apiToken).holdings t = [] := fun t => by cases t <;> rfl
  refine ⟨tracked_new T, ⟨fun t u id ht => ?_, fun t id ht => ?_, fun id h => ?_⟩, fun i h hh => ?_,
    fun i c hc => ?_⟩
  · rw [Holds, hnothing] at ht
    cases ht
  · rw [Holds, hnothing] at ht
    cases ht
  · obtain ⟨l, hl, -⟩ := h
    rw [start, new, KeyedMap.get?_empty] at hl
    cases hl
  · cases hh
  · cases hc

theorem owing_gateway (ho : ∀ (i : ℕ) h, s.handlers[i]? = some h → Owing h) (op : Gateway.GatewayOp) :
    ∀ (i : ℕ) h, (s.stepGateway op).handlers[i]? = some h → Owing h := by
  intro i h' hh' hrun
  cases Gateway.step_handler hh' with
  | kept hh => exact ho i h' hh hrun
  | arrived hgranted howed => rw [hgranted, howed]
  | advanced b hb hrunb _ hgranted howed => rw [hgranted, howed, ho i b hb hrunb]
  | acquired b lease hb hrunb hnone _ hgranted howed _ =>
    rw [hgranted, howed, ho i b hb hrunb, hnone]
    rfl
  | emptyHanded b hb _ _ hended _ => exact absurd hended hrun
  | released b lease hb _ _ hended _ _ => exact absurd hended hrun
  | dropped b job lease _ hb _ hended _ => exact absurd hended hrun

theorem finished_varlink {d : Daemon} (h : ∀ (i : ℕ) c, d.conns[i]? = some c → c.phase = .finished →
      c.activeLeases = []) (op : DaemonOp) (i : ℕ) (c' : Conn)
    (hc' : (Varlink.step parseUuid d op).conns[i]? = some c') (hphase : c'.phase = .finished) :
    c'.activeLeases = [] := by
  cases step_conn hc' with
  | kept hc => exact h i c' hc hphase
  | opened _ _ hserving => rw [hserving] at hphase; cases hphase
  | ended c hc _ _ hempty => exact hempty hphase
  | handled c hc _ _ hne => exact absurd hphase hne
  | reclaimed c j hc _ _ _ hne => exact absurd hphase hne

theorem Custodian.step (h : Custodian used s) (op : SystemOp) (hn : ∀ n ∈ newIds op, n ∉ used) :
    Custodian (newIds op ++ used) (s.step fromSlice parseUuid op) := by
  obtain ⟨t₀, hpasses⟩ := step_passes fromSlice parseUuid h.owing op
  refine ⟨fun j hj => ?_, ?_, ?_, ?_⟩
  · rw [(step_performed fromSlice parseUuid s op).leases] at hj
    cases ho : s.arbiterOp parseUuid op with
    | none =>
      rw [ho] at hj
      exact List.mem_append_right _ (h.tracked j hj)
    | some o =>
      rw [ho] at hj
      have hsub := newIds_arbiterOp ho
      rcases List.mem_append.mp (h.tracked.step o (fun n hmem => hn n (hsub n hmem)) j hj) with
        hmem | hmem
      · exact List.mem_append_left _ (hsub j hmem)
      · exact List.mem_append_right _ hmem
  · refine h.kept.step hpasses (fun n hg => ?_) hn fun n hlive => live_step h.tracked hn hlive
    cases ho : s.arbiterOp parseUuid op with
    | none =>
      rw [ho] at hg
      cases hg
    | some o =>
      rw [ho] at hg
      cases o with
      | lease lop =>
        obtain ⟨o', ho', hmem⟩ := mem_grantedIds hg
        cases ho'
        exact newIds_arbiterOp ho n hmem
      | updateTopology order topology => cases hg
  · cases op with
    | varlink op => exact h.owing
    | httpRequest authorization endpoint => exact owing_gateway h.owing (.request authorization endpoint)
    | httpPoll i env => exact owing_gateway h.owing (.poll i env)
    | httpTask i createdAt delivered => exact owing_gateway h.owing (.pollTask i createdAt delivered)
    | httpDrop i => exact owing_gateway h.owing (.cancel i)
    | sentry op =>
      simp only [System.step, (stepSentry_frame s op).2]
      exact h.owing
    | refreshTopology order topology => exact h.owing
  · cases op with
    | varlink op => exact finished_varlink h.finished op
    | sentry op =>
      simp only [System.step, (stepSentry_frame s op).1]
      exact h.finished
    | _ => exact h.finished

/-- Every lease has its holder: in every interleaving of the Varlink
connections, the gateway with its tasks, the sentry connections and hot-plug
events, a live lease is held by exactly one task, and no lease at all by two. -/
theorem every_lease_held_once (fromSlice : List UInt8 → Option Varlink.Json)
    (parseUuid : String → Option LeaseId) (T : HardwareTopology) (apiToken : Option String)
    (ops : List SystemOp) (hfresh : Fresh newIds [] ops) :
    (∀ id, Live (exec (step fromSlice parseUuid) (start T apiToken) ops).arbiter id →
      ∃ t, id ∈ (exec (step fromSlice parseUuid) (start T apiToken) ops).holdings t) ∧
    ∀ id t u, id ∈ (exec (step fromSlice parseUuid) (start T apiToken) ops).holdings t →
      id ∈ (exec (step fromSlice parseUuid) (start T apiToken) ops).holdings u → t = u := by
  have hcustody : Custodian (usedAfter newIds [] ops)
      (exec (step fromSlice parseUuid) (start T apiToken) ops) :=
    exec_inv_fresh_all Custodian (fun _ _ op h hn => h.step op hn) [] _ ops (custodian_start T apiToken)
      hfresh
  exact ⟨hcustody.kept.owned, fun id t u ht hu => hcustody.kept.sole t u id ht hu⟩

def roomyGpu : HardwareTopology :=
  sampleTopology [samplePlane "gpu0" .discreteGpu 4294967296 4294967296]

/-- A Varlink client, a chat request and a triage all have their lease. -/
def busyRun : List SystemOp :=
  [.varlink (.accept none), .httpRequest none (.chatCompletions "llama3.2:1b"), .sentry .accept,
   .varlink (sampleFrame 0 0 "AcquireLease" [("memory_bytes", .posInt 6)] true),
   .httpPoll 0 { toCallEnv := sampleEnv 1, createdAt := "", chatId := "0" },
   .sentry (.read 0 (some [0])), .sentry (.poll 0 (sampleEnv 2)),
   .httpPoll 0 { toCallEnv := sampleEnv 3, createdAt := "", chatId := "0" }]

theorem every_lease_held_once_busyRun :
    (∀ id ∈ [sampleId 0, sampleId 2, sampleId 3],
      ∃ t, id ∈ (exec (step (fun _ => none) fun _ => none) (start roomyGpu none) busyRun).holdings t) ∧
    ∀ t, sampleId 3 ∈ (exec (step (fun _ => none) fun _ => none) (start roomyGpu none) busyRun).holdings t →
      t = .handler 0 := by
  obtain ⟨howned, hsole⟩ :=
    every_lease_held_once (fun _ => none) (fun _ => none) roomyGpu none busyRun ⟨by decide, by decide⟩
  refine ⟨fun id hid => howned id ?_, fun t ht => hsole (sampleId 3) t (.handler 0) ht (by decide)⟩
  have hlive : ∀ id ∈ [sampleId 0, sampleId 2, sampleId 3],
      ((exec (step (fun _ => none) fun _ => none) (start roomyGpu none) busyRun).arbiter.leases.get? id).map
        (·.isLive) = some true := by decide
  obtain ⟨l, hl, hl'⟩ := Option.map_eq_some_iff.mp (hlive id hid)
  exact ⟨l, hl, hl'⟩

/-! ### Memory -/

theorem poll_arbiter (a : ArbiterState) (env : Gateway.PollEnv) (h : Gateway.Handler) :
    (h.poll a env).1 = Gateway.after a (h.state.arbiterOp env) := by
  unfold Gateway.Handler.poll Gateway.HandlerState.arbiterOp
  cases h.state with
  | awaitModel job =>
    dsimp only
    split <;> rfl
  | _ => rfl

theorem pollTask_arbiter (a : ArbiterState) (createdAt : String) (delivered : Bool) (h : Gateway.Handler) :
    (h.pollTask a createdAt delivered).1 = Gateway.after a h.state.taskOp := by
  unfold Gateway.Handler.pollTask Gateway.HandlerState.taskOp
  cases h.state with
  | streaming response task =>
    dsimp only
    cases task.phase <;> rfl
  | _ => rfl

theorem sentry_arbiter (a : ArbiterState) (env : CallEnv) (c : Sentry.Conn) :
    (c.poll a env).1 = Gateway.after a ((c.phase.leaseOp env).map .lease) := by
  unfold Sentry.Conn.poll Sentry.Phase.leaseOp
  cases c.phase with
  | awaitAcquire triage =>
    simp only [Option.map_some]
    cases (acquireLease a env triage.leaseRequest).result <;> rfl
  | _ => rfl

/-- A step does to planes and leases what its operation on the arbiter does. -/
theorem step_books (fromSlice : List UInt8 → Option Varlink.Json) (parseUuid : String → Option LeaseId)
    (s : System) (op : SystemOp) :
    SameBooks (s.step fromSlice parseUuid op).arbiter
      (Gateway.after s.arbiter (s.arbiterOp parseUuid op)) := by
  cases op with
  | varlink op =>
    have hbooks := (Varlink.step_books parseUuid s.varlink op).1
    simp only [arbiterOp]
    cases ho : s.varlink.leaseOp parseUuid op with
    | none =>
      rw [ho] at hbooks
      exact hbooks
    | some o =>
      rw [ho] at hbooks
      exact hbooks
  | httpRequest authorization endpoint => exact SameBooks.refl _
  | httpPoll i env =>
    simp only [System.step, stepGateway, Gateway.step, arbiterOp, Gateway.GatewayState.arbiterOp]
    cases s.gateway.handlers[i]? with
    | none => exact SameBooks.refl _
    | some h =>
      simp only [Gateway.GatewayState.update, poll_arbiter, Option.bind_some]
      exact SameBooks.refl _
  | httpTask i createdAt delivered =>
    simp only [System.step, stepGateway, Gateway.step, arbiterOp, Gateway.GatewayState.arbiterOp]
    cases s.gateway.handlers[i]? with
    | none => exact SameBooks.refl _
    | some h =>
      simp only [Gateway.GatewayState.update, pollTask_arbiter, Option.bind_some]
      exact SameBooks.refl _
  | httpDrop i =>
    simp only [System.step, stepGateway, Gateway.step]
    cases s.gateway.handlers[i]? with
    | none => exact SameBooks.refl _
    | some h => exact SameBooks.refl _
  | sentry op =>
    cases op with
    | poll i env =>
      simp only [System.step, stepSentry, arbiterOp, sentryOp]
      cases s.sentries[i]? with
      | none => exact SameBooks.refl _
      | some c =>
        simp only [sentry_arbiter, Option.bind_some]
        exact SameBooks.refl _
    | _ => exact SameBooks.refl _
  | refreshTopology order topology => exact SameBooks.refl _

/-- The step is not a hot-plug event and forces no grant. -/
def Undisturbed (parseUuid : String → Option LeaseId) (s : System) (op : SystemOp) : Prop :=
  ∀ o, s.arbiterOp parseUuid op = some o → ∃ lop, o = .lease lop ∧ Unforced s.arbiter lop

theorem Custodian.balanced {T : HardwareTopology} (hw : T.WellFormed) (h : Custodian used s)
    (hb : Balanced T used s.arbiter) {op : SystemOp} (hn : ∀ n ∈ newIds op, n ∉ used)
    (hquiet : Undisturbed parseUuid s op) :
    Balanced T (newIds op ++ used) (s.step fromSlice parseUuid op).arbiter := by
  have htracked : Tracked (newIds op ++ used) (s.step fromSlice parseUuid op).arbiter := (h.step op hn).tracked
  have hbooks := step_books fromSlice parseUuid s op
  cases ho : s.arbiterOp parseUuid op with
  | none =>
    rw [ho] at hbooks
    have hb' := balanced_congr hbooks hb
    exact ⟨⟨htracked, hb'.layout⟩, hb'.exact⟩
  | some o =>
    obtain ⟨lop, rfl, hunforced⟩ := hquiet o ho
    rw [ho] at hbooks
    have hb' := balanced_congr hbooks (hb.stepLease hw lop
      (fun n hmem => hn n (newIds_arbiterOp ho n hmem)) hunforced)
    exact ⟨⟨htracked, hb'.layout⟩, hb'.exact⟩

/-- A check that is enough for `Undisturbed`. -/
def covered (a : ArbiterState) : Option ArbiterOp → Bool
  | some (.lease (.acquire env req)) =>
    match targetPlaneIdx a.topology req with
    | .ok idx => decide (¬ Exhausted a env req idx)
    | .error _ => true
  | some (.updateTopology _ _) => false
  | _ => true

end Inferenced.System
