import Inferenced.Inhibit.Turns
import Inferenced.Notify
import Inferenced.System.Watch

/-!
# The daemon under systemd (main.rs:184-219)

The watchdog reports to the service manager what it finds in the inhibitor, at
any moment of the monitor's turn. So the two tasks run here step by step,
between any two steps of the others and of each other.
-/

namespace Inferenced.System
open Lib Lib.Runs Arbiter Inhibit Notify

/-- Where the watchdog is: `beaten` after its keepalive ping, `counting` when it
has found the inhibitor held. -/
inductive WatchdogPc where
  | resting
  | beaten
  | counting
  deriving DecidableEq

structure Supervised where
  system : System
  monitor : MonitorTask
  watchdog : WatchdogPc

inductive SupervisedOp where
  | daemon (op : SystemOp)
  | look
  /-- A step of the monitor's calls. -/
  | call (env : HostEnv)
  /-- A step of the watchdog; `healthy` is the answer of `health_check`. -/
  | watchdog (healthy : Bool)

/-- The text of main.rs:194-197. -/
def statusText (count : UInt64) : String :=
  "Active AI leases executing (" ++ toString count.toNat ++ ", sleep/idle inhibited)"

/-- One step of the watchdog (main.rs:189-200), with the notice it sends. -/
def watchdogStep (m : InhibitorManager) (healthy : Bool) : WatchdogPc → WatchdogPc × Option Notice
  | .resting => if healthy then (.beaten, some .watchdog) else (.resting, none)
  | .beaten => (if m.isInhibited then .counting else .resting, none)
  | .counting => (.resting, some (.status (statusText m.activeLeases)))

section
variable (fromSlice : List UInt8 → Option Varlink.Json) (parseUuid : String → Option LeaseId)

def Supervised.step (w : Supervised) : SupervisedOp → Supervised
  | .daemon op => { w with system := w.system.step fromSlice parseUuid op }
  | .look => { w with monitor := w.monitor.look (UInt64.ofNat (activeCount w.system.arbiter)) }
  | .call env => { w with monitor := w.monitor.poll env }
  | .watchdog healthy => { w with watchdog := (watchdogStep w.monitor.manager healthy w.watchdog).1 }

def Supervised.start (T : HardwareTopology) (apiToken : Option String) (options : InhibitOptions) : Supervised :=
  { system := System.start T apiToken, monitor := .start options, watchdog := .resting }

end

def Supervised.notices (w : Supervised) : SupervisedOp → List Notice
  | .watchdog healthy => (watchdogStep w.monitor.manager healthy w.watchdog).2.toList
  | _ => []

/-- The active leases that the monitor counts when it looks. -/
def Supervised.looks (w : Supervised) : SupervisedOp → List UInt64
  | .look => if w.monitor.pc = .waiting then [UInt64.ofNat (activeCount w.system.arbiter)] else []
  | _ => []

/-- The host meets `P` at every step that takes a lock. -/
def SupervisedOp.Hosts (P : HostEnv → Prop) : SupervisedOp → Prop
  | .call env => P env
  | _ => True

def Granting (options : InhibitOptions) (ops : List SupervisedOp) : Prop :=
  ∀ op ∈ ops, op.Hosts fun env => (newHandle env options).isSome = true

variable {fromSlice : List UInt8 → Option Varlink.Json} {parseUuid : String → Option LeaseId}
  {options : InhibitOptions} {w : Supervised}

/-! ### What the manager is shown -/

structure Monitored (granted : Prop) (options : InhibitOptions) (counts : List UInt64) (w : Supervised) : Prop where
  options : w.monitor.manager.options = options
  sound : w.monitor.Sound granted
  seen : w.monitor.Seen counts

theorem Monitored.step {granted : Prop} {counts : List UInt64} (h : Monitored granted options counts w)
    (op : SupervisedOp) (hop : granted → op.Hosts fun env => (newHandle env options).isSome = true) :
    Monitored granted options (counts ++ w.looks op) (w.step fromSlice parseUuid op) := by
  cases op with
  | daemon op =>
    simp only [Supervised.looks, List.append_nil]
    exact ⟨h.options, h.sound, h.seen⟩
  | look =>
    refine ⟨(congrArg _ (look_manager _ _)).trans h.options, h.sound.look _, ?_⟩
    by_cases hpc : w.monitor.pc = .waiting
    · simp only [Supervised.looks, if_pos hpc]
      exact h.seen.look h.sound hpc _
    · have hsame : w.monitor.look (UInt64.ofNat (activeCount w.system.arbiter)) = w.monitor :=
        look_of_ne _ hpc
      simp only [Supervised.looks, if_neg hpc, List.append_nil, Supervised.step, hsame]
      exact h.seen
  | call env =>
    simp only [Supervised.looks, List.append_nil]
    refine ⟨(w.monitor.options_poll env).trans h.options, h.sound.poll fun hg => ?_, h.seen.poll env⟩
    rw [h.options]
    exact hop hg
  | watchdog healthy =>
    simp only [Supervised.looks, List.append_nil]
    exact ⟨h.options, h.sound, h.seen⟩

/-- What the inhibitor says is true, also in the middle of the monitor's calls:
in every interleaving of all tasks of the daemon with the steps of the monitor
and of the watchdog, its count lies between the numbers of active leases at the
last two looks of the monitor (none before its first). The lock is held only if
one of these is positive and, on a host that grants it, whenever both are. The
status that the service manager is shown is such a count. -/
theorem inhibitor_between_looks (fromSlice : List UInt8 → Option Varlink.Json)
    (parseUuid : String → Option LeaseId) (T : HardwareTopology) (apiToken : Option String)
    (options : InhibitOptions) (ops : List SupervisedOp) :
    let w := exec (Supervised.step fromSlice parseUuid) (Supervised.start T apiToken options) ops
    let counts := emitted (Supervised.step fromSlice parseUuid) Supervised.looks
      (Supervised.start T apiToken options) ops
    ∃ a b, [a, b] <:+ 0 :: 0 :: counts ∧ Between (Granting options ops) w.monitor.manager a b ∧
      ∀ healthy text, Notice.status text ∈ w.notices (.watchdog healthy) →
        text = statusText w.monitor.manager.activeLeases := by
  intro w counts
  have hstart : Monitored (Granting options ops) options [0, 0] (Supervised.start T apiToken options) :=
    ⟨rfl, sound_start options, [], 0, rfl, fun hpc => absurd rfl hpc⟩
  have hmonitored : Monitored (Granting options ops) options ([0, 0] ++ counts) w :=
    exec_inv_emitted (C := fun _ op => Granting options ops → op.Hosts fun env => (newHandle env options).isSome = true)
      (Monitored _ options) (fun _ _ op hop h => h.step op hop) [0, 0] _ ops hstart
      (along_of_forall ops (fun op hop _ hall => hall op hop) _)
  obtain ⟨a, b, hsuffix, hbetween⟩ := hmonitored.sound.between hmonitored.seen
  refine ⟨a, b, hsuffix, hbetween, fun healthy text htext => ?_⟩
  have hnotice : (watchdogStep w.monitor.manager healthy w.watchdog).2 = some (.status text) :=
    Option.mem_toList.mp htext
  cases hpc : w.watchdog with
  | resting => cases healthy <;> simp [hpc, watchdogStep] at hnotice
  | beaten => simp [hpc, watchdogStep] at hnotice
  | counting =>
    rw [hpc] at hnotice
    exact (Notice.status.inj (Option.some.inj hnotice)).symm

theorem statusText_unbroken (count : UInt64) : Unbroken (statusText count).toList := by
  have hbefore : Unbroken "Active AI leases executing (".toList := by decide
  have hafter : Unbroken ", sleep/idle inhibited)".toList := by decide
  unfold statusText
  rw [String.toList_append, String.toList_append]
  exact unbroken_append (unbroken_append hbefore (unbroken_decimal count.toNat)) hafter

/-- The manager reads the status text as it was made. -/
theorem status_pairs (count : UInt64) : (Notice.status (statusText count)).pairs =
    [(Utf8.encode "STATUS".toList, Utf8.encode (statusText count).toList)] := by
  simp only [Notice.pairs, Notice.variables, List.map_cons, List.map_nil,
    sanitizeValue_of_unbroken (statusText_unbroken count)]

/-! ### A look is atomic -/

/-- What a step is in a run with atomic looks: a step of the daemon, a look
(`none`) if the monitor is waiting, or nothing. -/
def Supervised.turns (w : Supervised) : SupervisedOp → List (Option SystemOp)
  | .daemon op => [some op]
  | .look => if w.monitor.pc = .waiting then [none] else []
  | .call _ | .watchdog _ => []

def WatchedOp.turn : WatchedOp → Option SystemOp
  | .daemon op => some op
  | .look _ => none

/-- The host meets `P` at every call of a look. -/
def WatchedOp.Hosts (P : HostEnv → Prop) : WatchedOp → Prop
  | .daemon _ => True
  | .look envs => ∀ j, P (envs j)

/-- A run with atomic looks takes the steps of the daemon and the looks `turns`,
in this order, to `w`. -/
def AtomicRun (fromSlice : List UInt8 → Option Varlink.Json) (parseUuid : String → Option LeaseId)
    (start : Watched) (P : HostEnv → Prop) (turns : List (Option SystemOp)) (w : Watched) : Prop :=
  ∃ ops, exec (Watched.step fromSlice parseUuid) start ops = w ∧
    ops.map WatchedOp.turn = turns ∧ ∀ op ∈ ops, op.Hosts P

variable {start v : Watched} {P : HostEnv → Prop} {turns : List (Option SystemOp)}

theorem AtomicRun.step (h : AtomicRun fromSlice parseUuid start P turns v) (op : WatchedOp) (hop : op.Hosts P) :
    AtomicRun fromSlice parseUuid start P (turns ++ [op.turn]) (v.step fromSlice parseUuid op) := by
  obtain ⟨ops, rfl, rfl, hhosts⟩ := h
  refine ⟨ops ++ [op], exec_append _ _ _, List.map_append, fun op' hop' => ?_⟩
  rcases List.mem_append.mp hop' with hop' | hop'
  · exact hhosts op' hop'
  · rw [List.mem_singleton.mp hop']
    exact hop

/-- In a turn the atomic run has already looked, and whatever the calls still to
come will meet, it ends where they do. -/
inductive Simulated (fromSlice : List UInt8 → Option Varlink.Json) (parseUuid : String → Option LeaseId)
    (start : Watched) (P : HostEnv → Prop) (turns : List (Option SystemOp)) (w : Supervised) : Prop where
  | waiting (m : Monitor) (hpc : w.monitor.pc = .waiting) (hmanager : w.monitor.manager = m.manager)
      (hprev : w.monitor.prevCount = m.prevCount)
      (hrun : AtomicRun fromSlice parseUuid start P turns ⟨w.system, m⟩)
  | turning (s : Monitor) (hturning : Turning P s w.monitor)
      (hrun : ∀ envs, (∀ j, P (envs j)) →
        AtomicRun fromSlice parseUuid start P turns ⟨w.system, tick s ⟨w.monitor.count, envs⟩⟩)

theorem Simulated.step {host : HostEnv} (hhost : P host)
    (h : Simulated fromSlice parseUuid start P turns w) (op : SupervisedOp) (hop : op.Hosts P) :
    Simulated fromSlice parseUuid start P (turns ++ w.turns op) (w.step fromSlice parseUuid op) := by
  cases op with
  | daemon op =>
    cases h with
    | waiting m hpc hmanager hprev hrun => exact .waiting m hpc hmanager hprev (hrun.step (.daemon op) trivial)
    | turning s hturning hrun =>
      exact .turning s hturning fun envs henvs => (hrun envs henvs).step (.daemon op) trivial
  | look =>
    cases h with
    | waiting m hpc hmanager hprev hrun =>
      rw [Supervised.turns, if_pos hpc]
      refine .turning m (turning_look hhost hpc hmanager hprev _) fun envs henvs => ?_
      simp only [Supervised.step, look_count _ hpc]
      exact hrun.step (.look envs) henvs
    | turning s hturning hrun =>
      have hsame : w.step fromSlice parseUuid .look = w := by
        simp only [Supervised.step, look_of_ne _ hturning.ne_waiting]
      rw [Supervised.turns, if_neg hturning.ne_waiting, List.append_nil, hsame]
      exact .turning s hturning hrun
  | call env =>
    rw [Supervised.turns, List.append_nil]
    cases h with
    | waiting m hpc hmanager hprev hrun =>
      have hsame : w.step fromSlice parseUuid (.call env) = w := by
        simp only [Supervised.step, MonitorTask.poll, hpc]
      rw [hsame]
      exact .waiting m hpc hmanager hprev hrun
    | turning s hturning hrun =>
      rcases turning_poll hturning hop with hnext | hdone
      · refine .turning s hnext fun envs henvs => ?_
        simp only [Supervised.step, poll_count]
        exact hrun envs henvs
      · obtain ⟨envs, henvs, hmanager⟩ := hdone.manager
        exact .waiting _ hdone.waiting hmanager hdone.prevCount (hrun envs henvs)
  | watchdog healthy =>
    rw [Supervised.turns, List.append_nil]
    cases h with
    | waiting m hpc hmanager hprev hrun => exact .waiting m hpc hmanager hprev hrun
    | turning s hturning hrun => exact .turning s hturning hrun

/-- A look may be taken as one step: whatever happens between the calls of the
monitor's turns, whenever it waits the daemon and the inhibitor are as in a run
of the same steps of the daemon and the same looks, in the same order, in which
each turn is a single step, at its look. -/
theorem look_is_atomic (fromSlice : List UInt8 → Option Varlink.Json)
    (parseUuid : String → Option LeaseId) (T : HardwareTopology) (apiToken : Option String)
    (options : InhibitOptions) (P : HostEnv → Prop) (host : HostEnv) (hhost : P host) (ops : List SupervisedOp)
    (hops : ∀ op ∈ ops, op.Hosts P)
    (hwait : (exec (Supervised.step fromSlice parseUuid) (Supervised.start T apiToken options) ops).monitor.pc =
      .waiting) :
    let w := exec (Supervised.step fromSlice parseUuid) (Supervised.start T apiToken options) ops
    ∃ atomic : List WatchedOp,
      atomic.map WatchedOp.turn = emitted (Supervised.step fromSlice parseUuid) Supervised.turns
        (Supervised.start T apiToken options) ops ∧
      (∀ op ∈ atomic, op.Hosts P) ∧
      let v := exec (Watched.step fromSlice parseUuid) (Watched.start T apiToken options) atomic
      v.system = w.system ∧ v.monitor.manager = w.monitor.manager ∧
        v.monitor.prevCount = w.monitor.prevCount := by
  intro w
  have hsimulated : Simulated fromSlice parseUuid (Watched.start T apiToken options) P
      ([] ++ emitted (Supervised.step fromSlice parseUuid) Supervised.turns
        (Supervised.start T apiToken options) ops) w :=
    exec_inv_emitted (C := fun _ op => op.Hosts P) (Simulated fromSlice parseUuid _ P)
      (fun _ _ op hop h => h.step hhost op hop) [] _ ops
      (.waiting { manager := { options } } rfl rfl rfl ⟨[], rfl, rfl, fun _ hop => absurd hop List.not_mem_nil⟩)
      (along_of_forall ops (fun op hop _ => hops op hop) _)
  rw [List.nil_append] at hsimulated
  cases hsimulated with
  | waiting m hpc hmanager hprev hrun =>
    obtain ⟨atomic, hexec, hturns, hhosts⟩ := hrun
    refine ⟨atomic, hturns, hhosts, ?_⟩
    rw [hexec]
    exact ⟨rfl, hmanager.symm, hprev.symm⟩
  | turning s hturning hrun => exact absurd hwait hturning.ne_waiting

/-- The daemon of `busyRun` under its monitor; the watchdog reports between the
first call and its lock, and after it. -/
def supervisedRun : List SupervisedOp :=
  busyRun.map .daemon ++ [.look, .call spawningHost, .watchdog true, .watchdog true, .call spawningHost,
    .watchdog true, .watchdog true, .watchdog true] ++ List.replicate 3 (.call spawningHost)

theorem look_is_atomic_supervisedRun :
    ∃ atomic : List WatchedOp, atomic.map WatchedOp.turn = busyRun.map some ++ [none] ∧
      (exec (Watched.step (fun _ => none) fun _ => none) (Watched.start roomyGpu none daemonOptions)
        atomic).monitor.manager.activeLeases = 3 := by
  have hhosts : ∀ op ∈ supervisedRun, op.Hosts fun env => env = spawningHost := by
    intro op hop
    cases op with
    | daemon op | look | watchdog healthy => exact trivial
    | call env =>
      have henv : env = spawningHost := by simpa [supervisedRun] using hop
      exact henv
  obtain ⟨atomic, hturns, -, -, hmanager, -⟩ := look_is_atomic (fun _ => none) (fun _ => none) roomyGpu none
    daemonOptions (fun env => env = spawningHost) spawningHost rfl supervisedRun hhosts (by decide)
  refine ⟨atomic, hturns, ?_⟩
  rw [hmanager]
  decide

end Inferenced.System
