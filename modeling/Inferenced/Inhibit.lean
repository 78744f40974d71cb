import Inferenced.Lib.Runs

/-!
# Sleep inhibitor (crates/inferenced-daemon/src/inhibit.rs)

The manager counts the leases and holds one inhibitor lock while there are any.
The monitor task of `main` (main.rs:203-219) observes the number of active leases
every 250 ms and calls the manager once for each lease that came or went.
-/

namespace Inferenced.Inhibit
open Lib

/-- `InhibitHandle`, with the child, file or stream it owns. -/
inductive InhibitHandle where
  | systemdInhibit (child : ℕ)
  | fileLock (file : ℕ) (path : String)
  | busSocket (stream : ℕ)
  deriving DecidableEq

structure InhibitOptions where
  lockPath : String
  busSocketPath : Option String
  preferStandalone : Bool

structure InhibitorManager where
  options : InhibitOptions
  activeLeases : UInt64 := 0
  isInhibited : Bool := false
  activeHandle : Option InhibitHandle := none

/-- What the host answers to the calls that take a lock. -/
structure HostEnv where
  spawn : Option ℕ
  openLock : String → Option ℕ
  flock : ℕ → Bool
  inhibitSocket : Option String
  defaultSocketExists : Bool
  connect : String → Option ℕ

/-- The atomic operations on the counter with the value they return, and the
handles taken and given back. -/
inductive Event where
  | fetchAdd (old : UInt64)
  | fetchSub (old : UInt64)
  | acquired (handle : InhibitHandle)
  | released (handle : InhibitHandle)
  deriving DecidableEq

/-- `acquire_standalone_fd_lock` (inhibit.rs:109-128). -/
def standaloneFdLock (env : HostEnv) (options : InhibitOptions) : Option InhibitHandle :=
  (env.openLock options.lockPath).bind fun file =>
    if env.flock file then some (.fileLock file options.lockPath) else none

/-- `acquire_unix_bus_socket` (inhibit.rs:130-149). -/
def unixBusSocket (env : HostEnv) (options : InhibitOptions) : Option InhibitHandle :=
  let sockPath := options.busSocketPath.or
    (env.inhibitSocket.or (if env.defaultSocketExists then some "/run/systemd/inhibit.sock" else none))
  sockPath.bind fun path => (env.connect path).map .busSocket

/-- The mechanisms in the order in which they are tried (inhibit.rs:88-106). -/
def newHandle (env : HostEnv) (options : InhibitOptions) : Option InhibitHandle :=
  let child := if options.preferStandalone then none else env.spawn
  (child.map .systemdInhibit).or ((standaloneFdLock env options).or (unixBusSocket env options))

/-- `acquire_inhibit_lock` (inhibit.rs:85-107). -/
def acquireInhibitLock (env : HostEnv) (m : InhibitorManager) : InhibitorManager × List Event :=
  match m.activeHandle with
  | some _ => (m, [])
  | none =>
    match newHandle env m.options with
    | some handle => ({ m with activeHandle := some handle, isInhibited := true }, [.acquired handle])
    | none => (m, [])

/-- `release_inhibit_lock` (inhibit.rs:151-174). -/
def releaseInhibitLock (m : InhibitorManager) : InhibitorManager × List Event :=
  match m.activeHandle with
  | some handle => ({ m with activeHandle := none, isInhibited := false }, [.released handle])
  | none => (m, [])

/-- `on_lease_acquired`. -/
def onLeaseAcquired (env : HostEnv) (m : InhibitorManager) : InhibitorManager × List Event :=
  let old := m.activeLeases
  let m := { m with activeLeases := old + 1 }
  let r := if old = 0 then acquireInhibitLock env m else (m, [])
  (r.1, .fetchAdd old :: r.2)

/-- `on_lease_released`. -/
def onLeaseReleased (m : InhibitorManager) : InhibitorManager × List Event :=
  let old := m.activeLeases
  let m := { m with activeLeases := old - 1 }
  let r := if old = 1 then releaseInhibitLock m else (m, [])
  (r.1, .fetchSub old :: r.2)

/-- `for _ in 0..n`. -/
def repeatCall (call : ℕ → InhibitorManager → InhibitorManager × List Event) :
    ℕ → InhibitorManager → InhibitorManager × List Event
  | 0, m => (m, [])
  | n + 1, m =>
    let r := repeatCall call n m
    let r' := call n r.1
    (r'.1, r.2 ++ r'.2)

/-- What the monitor meets in one tick: the number of active leases, and the host
at each of its calls. -/
structure Observation where
  count : UInt64
  envs : ℕ → HostEnv

structure Monitor where
  manager : InhibitorManager
  prevCount : UInt64 := 0
  log : List Event := []

/-- One turn of the loop (main.rs:209-218). -/
def tick (s : Monitor) (o : Observation) : Monitor :=
  let r :=
    if s.prevCount < o.count then
      repeatCall (fun j => onLeaseAcquired (o.envs j)) (o.count - s.prevCount).toNat s.manager
    else if o.count < s.prevCount then
      repeatCall (fun _ => onLeaseReleased) (s.prevCount - o.count).toNat s.manager
    else (s.manager, [])
  { manager := r.1, prevCount := o.count, log := s.log ++ r.2 }

def monitor (options : InhibitOptions) (obs : List Observation) : Monitor :=
  Runs.exec tick { manager := { options } } obs

end Inferenced.Inhibit
