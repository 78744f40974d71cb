import Inferenced.Lib.UnixPath

/-!
# Socket activation (crates/inferenced-daemon/src/activation.rs)

The descriptors that systemd passes to the daemon are adopted one by one in
their order. A Unix socket goes to the slot of its basename; one that has no
known basename goes to the slot of its position if that is still empty; a TCP
socket is the gateway.
-/

namespace Inferenced.Activation
open Lib

/-- `SocketAddrAny`; the path of a Unix socket is missing for an unnamed or
abstract one. -/
inductive SocketAddr where
  | unix (path : Option (List UInt8))
  | v4
  | v6
  | other
  deriving DecidableEq

/-- A descriptor as the daemon finds it: the socket behind it, the answer of
`getsockname`, and whether `set_nonblocking` and `from_std` succeed. -/
structure Descriptor where
  inode : UInt64
  addr : Option SocketAddr
  nonblocking : Bool
  fromStd : Bool
  deriving DecidableEq

structure Listener where
  fd : ℕ
  socket : Descriptor
  deriving DecidableEq

inductive GatewayListener where
  | tcp (listener : Listener)
  | unix (listener : Listener)
  deriving DecidableEq

structure ActivatedSockets where
  varlink : Option Listener := none
  sentry : Option Listener := none
  fdServer : Option Listener := none
  gateway : Option GatewayListener := none
  deriving DecidableEq

inductive ActivationError where
  | setNonblocking (fd : ℕ)
  | fromStd (fd : ℕ)
  deriving DecidableEq

def sdListenFdsStart : ℕ := 3

/-- The slots that `classify_unix_socket` names. -/
inductive SocketKind where
  | varlink
  | sentry
  | fd
  | gatewayUnix
  deriving DecidableEq

/-- `classify_unix_socket` (activation.rs:55-69). -/
def classifyUnixSocket (path : List UInt8) : Option SocketKind :=
  ((UnixPath.fileName path).bind Text.fromUtf8).bind fun name =>
    if name = "io.syntrop.Inference1".toList then some .varlink
    else if name = "sentry.sock".toList then some .sentry
    else if name = "fd.sock".toList then some .fd
    else if name = "gateway.sock".toList then some .gatewayUnix
    else if name = "io.systemd.inferenced1".toList then some .varlink
    else none

/-- The fallback for a Unix socket without a known basename
(activation.rs:142-180). -/
def adoptByIndex (i : ℕ) (l : Listener) (s : ActivatedSockets) : ActivatedSockets :=
  match i with
  | 0 => if s.varlink = none then { s with varlink := some l } else s
  | 1 => if s.sentry = none then { s with sentry := some l } else s
  | 2 => if s.gateway = none then { s with gateway := some (.unix l) } else s
  | 3 => if s.fdServer = none then { s with fdServer := some l } else s
  | _ => s

/-- A Unix socket (activation.rs:105-181). -/
def adoptUnix (i : ℕ) (path : Option (List UInt8)) (l : Listener) (s : ActivatedSockets) :
    ActivatedSockets :=
  match path.bind classifyUnixSocket with
  | some .varlink => { s with varlink := some l }
  | some .sentry => { s with sentry := some l }
  | some .fd => { s with fdServer := some l }
  | some .gatewayUnix => { s with gateway := some (.unix l) }
  | none => adoptByIndex i l s

/-- `set_nonblocking(true)?` and `from_std(..)?`. -/
def Descriptor.listen (d : Descriptor) (fd : ℕ) : Except ActivationError Listener :=
  if !d.nonblocking then .error (.setNonblocking fd)
  else if !d.fromStd then .error (.fromStd fd)
  else .ok ⟨fd, d⟩

/-- One turn of the loop (activation.rs:87-195). -/
def adopt (i : ℕ) (d : Descriptor) (s : ActivatedSockets) : Except ActivationError ActivatedSockets :=
  match d.addr with
  | none | some .other => .ok s
  | some (.unix path) => (d.listen (sdListenFdsStart + i)).map fun l => adoptUnix i path l s
  | some .v4 | some .v6 =>
    (d.listen (sdListenFdsStart + i)).map fun l => { s with gateway := some (.tcp l) }

def adoptFrom (i : ℕ) (s : ActivatedSockets) : List Descriptor → Except ActivationError ActivatedSockets
  | [] => .ok s
  | d :: ds => (adopt i d s).bind fun s => adoptFrom (i + 1) s ds

structure ListenEnv where
  listenPid : Option String
  listenFds : Option String
  pid : UInt32

/-- `is_socket_activated` (activation.rs:39-53). -/
def isSocketActivated (env : ListenEnv) : Bool :=
  ((env.listenPid.bind fun p => Text.parseU32 p.toList).map fun pid => decide (pid = env.pid)).getD false &&
    ((env.listenFds.bind fun f => Text.parseI32 f.toList).map fun count => decide (0 < count)).getD false

/-- `fds_count`. -/
def fdsCount (env : ListenEnv) : ℤ := (Text.parseI32 (env.listenFds.getD "").toList).getD 0

/-- The descriptors that systemd passes; `fds` are those of the process. -/
def inherited (env : ListenEnv) (fds : ℕ → Descriptor) : List Descriptor :=
  if isSocketActivated env then
    (List.range (fdsCount env).toNat).map fun i => fds (sdListenFdsStart + i)
  else []

/-- `check_and_adopt_sockets` (activation.rs:72-199). -/
def checkAndAdoptSockets (env : ListenEnv) (fds : ℕ → Descriptor) :
    Except ActivationError ActivatedSockets :=
  if !isSocketActivated env then .ok {}
  else adoptFrom 0 {} ((List.range (fdsCount env).toNat).map fun i => fds (sdListenFdsStart + i))

end Inferenced.Activation
