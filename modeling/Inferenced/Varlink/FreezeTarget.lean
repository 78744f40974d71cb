import Inferenced.Freezer
import Inferenced.Varlink.FrozenUnits

/-!
# What a preemption freezes

A lease acquired over Varlink carries the slice of its peer, which is the first
`.slice` segment of the peer's cgroup path (peer.rs:74-77). Freezing the unit of
a victim therefore stops everything below that outermost slice, and the
requester with it when it lives there too.
-/

namespace Inferenced.Varlink
open Lib Lib.Runs Arbiter Freezer

variable {parseUuid : String → Option LeaseId} {d : Daemon} {op : DaemonOp} {s : ArbiterState}
  {used : List LeaseId} {fileExists : List Char → Bool}

/-! ### Whose leases they are -/

/-- Every lease was acquired over Varlink by the verified peer `owner` names. -/
def AcquiredBy (owner : LeaseId → PeerInfo) (s : ArbiterState) : Prop :=
  ∀ id l, s.leases.get? id = some l →
    (owner id).Verified ∧ l.clientUnit = some (owner id).slice ∧ l.clientPid = some (owner id).pid

def GrantedTo (d : Daemon) (id : LeaseId) (peer : PeerInfo) : Prop :=
  ∃ (i : ℕ) (c : Conn), d.conns[i]? = some c ∧ c.peer = some peer ∧ id ∈ c.granted

def AttributedTo (l : ComputeLease) (peer : PeerInfo) : Prop :=
  l.clientUnit = some peer.slice ∧ l.clientPid = some peer.pid

def DaemonOp.VerifiedPeer : DaemonOp → Prop
  | .accept peer => ∃ p, peer = some p ∧ p.Verified
  | _ => True

structure Attributed (used : List LeaseId) (d : Daemon) : Prop where
  tracked : Accounted used d
  verified : ∀ (i : ℕ) (c : Conn), d.conns[i]? = some c → ∃ p, c.peer = some p ∧ p.Verified
  leases : ∀ id l, d.arbiter.leases.get? id = some l → ∃ peer, GrantedTo d id peer ∧ AttributedTo l peer

theorem GrantedTo.step {id : LeaseId} {peer : PeerInfo} (h : GrantedTo d id peer) :
    GrantedTo (step parseUuid d op) id peer := by
  obtain ⟨i, c, hc, hpeer, hid⟩ := h
  obtain ⟨c', hc', hlater⟩ := step_grows parseUuid op hc
  exact ⟨i, c', hc', hlater.peer.trans hpeer, hlater.granted id hid⟩

theorem attributedTo_acquireRequest {peer : PeerInfo} (h : peer.Verified) (params : Json)
    (env : CallEnv) (idx : ℕ) :
    AttributedTo (grantedLease s env (acquireRequest params (some peer)) idx) peer :=
  ⟨rfl, if_pos h.1⟩

theorem Attributed.step (h : Attributed used d) (op : DaemonOp) (hn : ∀ n ∈ op.newIds, n ∉ used)
    (hop : op.VerifiedPeer) : Attributed (op.newIds ++ used) (step parseUuid d op) := by
  refine ⟨h.tracked.step op hn, fun i c' hc' => ?_, fun id l hl => ?_⟩
  · rcases step_peer hc' with ⟨c, hc, hpeer⟩ | hacc
    · rw [hpeer]
      exact h.verified i c hc
    · rw [hacc] at hop
      exact hop
  · rw [(step_books parseUuid d op).1.leases] at hl
    -- a lease that was there before keeps its owner and its attributes
    have hold : ∀ l₀, d.arbiter.leases.get? id = some l₀ → l.clientUnit = l₀.clientUnit →
        l.clientPid = l₀.clientPid →
        ∃ peer, GrantedTo (Varlink.step parseUuid d op) id peer ∧ AttributedTo l peer := by
      intro l₀ hl₀ hunit hpid
      obtain ⟨peer, hgranted, hu, hp⟩ := h.leases id l₀ hl₀
      exact ⟨peer, hgranted.step, hunit.trans hu, hpid.trans hp⟩
    cases ho : d.leaseOp parseUuid op with
    | none =>
      rw [ho] at hl
      exact hold l hl rfl rfl
    | some o =>
      rw [ho] at hl
      cases stepLease_lease d.arbiter o (h.tracked.fresh hn o ho) id with
      | same hs => exact hold l (hs ▸ hl) rfl rfl
      | granted env req idx hacq hid hadm _ hafter =>
        subst hacq hid
        obtain ⟨i, c, params, hc, hreq, c', hc', hrecord⟩ := leaseOp_acquire ho
        obtain ⟨peer, hpeer, hver⟩ := h.verified i c hc
        obtain ⟨b, hb, hlater⟩ := step_grows parseUuid op hc
        rw [hc'] at hb
        cases hb
        have hgranted : env.newId ∈ grantedIds d.arbiter (d.leaseOp parseUuid op) := by
          rw [ho]
          simp only [grantedIds, acquireLease_of_admitted hadm]
          exact List.mem_singleton_self _
        refine ⟨peer, ⟨i, c', hc', hlater.peer.trans hpeer, hrecord _ hgranted⟩, ?_⟩
        have hl' := hl.symm.trans hafter
        cases hl'
        rw [hreq, hpeer]
        exact attributedTo_acquireRequest hver params env idx
      | dropped env req l₀ _ _ _ hnone =>
        have := hl.symm.trans hnone
        cases this
      | moved l₀ st hb _ hafter =>
        have hl' := hl.symm.trans hafter
        cases hl'
        exact hold l₀ hb rfl rfl

/-- Every state that the daemon reaches with verified peers is one whose leases
they acquired. -/
theorem acquiredBy_run (parseUuid : String → Option LeaseId) (T : HardwareTopology)
    (ops : List DaemonOp) (hfresh : Fresh DaemonOp.newIds [] ops)
    (hpeers : ∀ op ∈ ops, op.VerifiedPeer) :
    ∃ owner, AcquiredBy owner (exec (step parseUuid) (start T) ops).arbiter ∧
      ∀ id l, (exec (step parseUuid) (start T) ops).arbiter.leases.get? id = some l →
        GrantedTo (exec (step parseUuid) (start T) ops) id (owner id) := by
  have hstart : Attributed [] (start T) := by
    refine ⟨accounted_start T, fun i c hc => ?_, fun id l hl => ?_⟩
    · cases hc
    · rw [start, new, KeyedMap.get?_empty] at hl
      cases hl
  have hrun : Attributed (usedAfter DaemonOp.newIds [] ops) (exec (step parseUuid) (start T) ops) :=
    exec_inv_fresh (C := fun _ op => op.VerifiedPeer) Attributed
      (fun _ _ op h hn hop => h.step op hn hop) [] _ ops hstart hfresh
      (along_of_forall ops (fun op hop _ => hpeers op hop) _)
  have howner : ∀ id, ∃ peer, ∀ l,
      (exec (step parseUuid) (start T) ops).arbiter.leases.get? id = some l →
        peer.Verified ∧ AttributedTo l peer ∧
          GrantedTo (exec (step parseUuid) (start T) ops) id peer := by
    intro id
    cases hl : (exec (step parseUuid) (start T) ops).arbiter.leases.get? id with
    | none => exact ⟨PeerInfo.ofCgroup 0 0 0 "", fun l h => by cases h⟩
    | some l =>
      obtain ⟨peer, ⟨i, c, hc, hpeer, hid⟩, hattr⟩ := hrun.leases id l hl
      refine ⟨peer, fun m hm => ?_⟩
      cases hm
      obtain ⟨p, hp, hver⟩ := hrun.verified i c hc
      rw [hpeer] at hp
      cases hp
      exact ⟨hver, hattr, i, c, hc, hpeer, hid⟩
  choose owner howner using howner
  exact ⟨owner, fun id l hl => ⟨(howner id l hl).1, (howner id l hl).2.1⟩,
    fun id l hl => (howner id l hl).2.2⟩

/-! ### The requester -/

structure PreemptedBy (s : ArbiterState) (call : Handled) (unit : String) (v : ComputeLease) :
    Prop where
  stored : s.leases.get? v.id = some v
  active : v.isActive = true
  ofUnit : v.clientUnit = some unit
  preempted : call.arbiter.leases.get? v.id = some (v.withState .preempted)

/-- Freezing `unit` for the lease of `victim` does not stop `requester`, unless
they are one process or in one cgroup. -/
def SparesRequester (fileExists : List Char → Bool) (unit : String) (victim requester : PeerInfo) :
    Prop :=
  victim.pid ≠ requester.pid → victim.cgroupPath ≠ requester.cgroupPath →
    ¬ freezeDir fileExists unit <+: cgroupDir requester.cgroupPath

theorem handleAcquireLease_freezes {params : Option Json} {active : List LeaseId}
    {peer : Option PeerInfo} {env : HandlerEnv} (hfresh : s.leases.get? env.newId = none)
    {unit : String} (h : unit ∈ frozenUnits (handleAcquireLease params s active peer env).effects) :
    ∃ v, PreemptedBy s (handleAcquireLease params s active peer env) unit v := by
  have hperf := performs_acquire params s active peer env
  rw [hperf.effects] at h
  cases params with
  | none => cases h
  | some p =>
    obtain ⟨v, hstored, hactive, hunit, hafter⟩ := acquire_victim hfresh h
    exact ⟨v, hstored, hactive, hunit, (congrArg (·.get? v.id) hperf.books.leases).trans hafter⟩

/-- What an acquisition freezes stops the requester if and only if the requester
lives below the slice of a victim: each unit that the call freezes is the slice
of a victim, and freezing it spares the requester exactly if the two are one
process, share a cgroup, or the cgroup of the requester lies outside the slice. -/
theorem requester_spared_iff (fileExists : List Char → Bool) (owner : LeaseId → PeerInfo)
    (s : ArbiterState) (params : Option Json) (active : List LeaseId) (R : PeerInfo)
    (env : HandlerEnv) (howner : AcquiredBy owner s) (hfresh : s.leases.get? env.newId = none) :
    ∀ unit ∈ frozenUnits (handleAcquireLease params s active (some R) env).effects,
      (∃ v, PreemptedBy s (handleAcquireLease params s active (some R) env) unit v) ∧
      ∀ v, PreemptedBy s (handleAcquireLease params s active (some R) env) unit v →
        (SparesRequester fileExists unit (owner v.id) R ↔
          (owner v.id).pid = R.pid ∨ (owner v.id).cgroupPath = R.cgroupPath ∨
            Outside fileExists (owner v.id).slice R.cgroupPath) := by
  intro unit hunit
  refine ⟨handleAcquireLease_freezes hfresh hunit, fun v hv => ?_⟩
  obtain ⟨hver, hslice, -⟩ := howner v.id v hv.stored
  obtain rfl : unit = (owner v.id).slice := Option.some.inj (hv.ofUnit.symm.trans hslice)
  rw [SparesRequester, spared_iff_outside hver.isName]
  tauto

/-- A batch job and a chat service in the slices of the `ai.slice` hierarchy. -/
def nestedJob : PeerInfo := PeerInfo.ofCgroup 42 1000 1000 "/ai.slice/ai-batch.slice/job-42.service"

def nestedChat : PeerInfo :=
  PeerInfo.ofCgroup 43 1000 1000 "/ai.slice/ai-interactive.slice/chat.service"

def nestedFiles (path : List Char) : Bool :=
  decide (path ∈ ["/sys/fs/cgroup/ai.slice/cgroup.freeze".toList,
    "/sys/fs/cgroup/ai.slice/ai-batch.slice/cgroup.freeze".toList,
    "/sys/fs/cgroup/ai.slice/ai-interactive.slice/cgroup.freeze".toList])

def busyDaemon : Daemon :=
  exec (step sampleUuid) (start gpuTopology)
    [.accept (some nestedJob), .accept (some nestedChat),
     sampleFrame 0 0 "AcquireLease" [("memory_bytes", .posInt 6)] true]

def chatCall (peer : PeerInfo) : Handled :=
  handleAcquireLease (some (.object [("memory_bytes", .posInt 8)])) busyDaemon.arbiter [] (some peer)
    { toCallEnv := sampleEnv 1, modelOrder := IterOrder.stored, now := 0 }

theorem busyDaemon_acquiredBy : AcquiredBy (fun _ => nestedJob) busyDaemon.arbiter := by
  have hall : ∀ l ∈ busyDaemon.arbiter.leases.entries,
      l.clientUnit = some nestedJob.slice ∧ l.clientPid = some nestedJob.pid := by decide
  have hver : nestedJob.Verified := ⟨by decide, rfl⟩
  exact fun id l hl => ⟨hver, hall l (KeyedMap.get?_eq_some.mp hl).1⟩

theorem requester_spared_iff_chatPeer :
    (∃ v, PreemptedBy busyDaemon.arbiter (chatCall chatPeer) "ai.slice" v) ∧
      SparesRequester nestedFiles "ai.slice" nestedJob chatPeer := by
  have hout : Outside nestedFiles nestedJob.slice chatPeer.cgroupPath := by
    show (UnixPath.components chatPeer.cgroupPath.toList).head? ≠ some nestedJob.slice.toList
    decide
  obtain ⟨⟨v, hv⟩, hiff⟩ := requester_spared_iff nestedFiles (fun _ => nestedJob)
    busyDaemon.arbiter (some (.object [("memory_bytes", .posInt 8)])) [] chatPeer
    { toCallEnv := sampleEnv 1, modelOrder := IterOrder.stored, now := 0 }
    busyDaemon_acquiredBy (by decide) "ai.slice" (by decide)
  exact ⟨⟨v, hv⟩, (hiff v hv).mpr (Or.inr (Or.inr hout))⟩

/-- The grant to the chat service freezes `ai.slice`, and the chat service with
it. -/
theorem grant_freezes_requester :
    AcquiredBy (fun _ => nestedJob) busyDaemon.arbiter ∧ nestedChat.Verified ∧
      "ai.slice" ∈ frozenUnits (chatCall nestedChat).effects ∧
      (∃ v, PreemptedBy busyDaemon.arbiter (chatCall nestedChat) "ai.slice" v) ∧
      ¬ SparesRequester nestedFiles "ai.slice" nestedJob nestedChat := by
  refine ⟨busyDaemon_acquiredBy, ⟨by decide, rfl⟩, by decide,
    handleAcquireLease_freezes (by decide) (by decide), fun h => ?_⟩
  exact h (by decide) (by decide) (by decide)

end Inferenced.Varlink
