import Inferenced.Inhibit.LeaseCount
import Inferenced.System.Custody

/-!
# The daemon under its inhibitor monitor (main.rs:203-219)

The monitor task looks at the leases of the arbiter every 250 ms, between any
two steps of the other tasks, and drives the sleep inhibitor by their number.
What it does after it has looked touches the inhibitor only, so a turn of its
loop is one step here.
-/

namespace Inferenced.System
open Lib Lib.Runs Arbiter Inhibit

structure Watched where
  system : System
  monitor : Monitor

inductive WatchedOp where
  | daemon (op : SystemOp)
  /-- A turn of the monitor; `envs` is the host at each of its calls. -/
  | look (envs : ℕ → HostEnv)

def WatchedOp.newIds : WatchedOp → List LeaseId
  | .daemon op => System.newIds op
  | .look _ => []

/-- `list_leases().await.into_iter().filter(|l| l.is_active()).count()`. -/
def activeCount (a : ArbiterState) : ℕ := a.leases.entries.countP (·.isActive)

section
variable (fromSlice : List UInt8 → Option Varlink.Json) (parseUuid : String → Option LeaseId)

def Watched.step (w : Watched) : WatchedOp → Watched
  | .daemon op => { w with system := w.system.step fromSlice parseUuid op }
  | .look envs =>
    { w with monitor := tick w.monitor ⟨UInt64.ofNat (activeCount w.system.arbiter), envs⟩ }

def Watched.start (T : HardwareTopology) (apiToken : Option String) (options : InhibitOptions) : Watched :=
  { system := System.start T apiToken, monitor := { manager := { options } } }

end

/-- Whenever the monitor looks, the host lets it take a lock. -/
def Granted (options : InhibitOptions) : WatchedOp → Prop
  | .daemon _ => True
  | .look envs => ∀ j, (newHandle (envs j) options).isSome = true

variable {fromSlice : List UInt8 → Option Varlink.Json} {parseUuid : String → Option LeaseId}
  {options : InhibitOptions} {used : List LeaseId} {w : Watched}

structure Guarded (options : InhibitOptions) (used : List LeaseId) (w : Watched) : Prop where
  custodian : Custodian used w.system
  follows : Follows options w.monitor

theorem Guarded.step (h : Guarded options used w) (op : WatchedOp) (hn : ∀ n ∈ op.newIds, n ∉ used)
    (hop : Granted options op) : Guarded options (op.newIds ++ used) (w.step fromSlice parseUuid op) := by
  cases op with
  | daemon op => exact ⟨h.custodian.step op hn, h.follows⟩
  | look envs =>
    have hgrants : Observation.Grants options ⟨UInt64.ofNat (activeCount w.system.arbiter), envs⟩ := hop
    exact ⟨h.custodian, (tick_changes h.follows hgrants).1⟩

/-! ### The count -/

end Inferenced.System
