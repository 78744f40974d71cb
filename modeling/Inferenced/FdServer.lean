import Inferenced.Topology
import Inferenced.Lib.Text

/-!
# The descriptor server (fd_quota.rs, fd_server.rs of inferenced-daemon)

A connection asks for one sealed memfd. All connections draw on one quota, an
atomic counter: `try_reserve` and `release` are several atomic operations, and
tasks interleave between any two of them. A task is a program counter; what the
socket and the kernel answer comes from outside. `fromSlice` stands for
`serde_json::from_slice`.
-/

namespace Inferenced.FdServer
open Lib

/-- `MAX_MEMFD_BYTES`. -/
def maxMemfdBytes : UInt64 := 16 * 1024 * 1024 * 1024

def u64Max : UInt64 := 0xFFFFFFFFFFFFFFFF

def saturatingAdd (a b : UInt64) : UInt64 := if a + b < a then u64Max else a + b

structure FdQuota where
  allocatedBytes : UInt64
  ceilingBytes : UInt64
  deriving DecidableEq

namespace FdQuota

def new (ceilingBytes : UInt64) : FdQuota := { allocatedBytes := 0, ceilingBytes }

/-- `from_half_of_total_ram` on the text of `/proc/meminfo`, `none` when it
cannot be read; the product wraps in the release profile. -/
def fromHalfOfTotalRam (meminfo : Option String) : FdQuota :=
  let kb := do
    let text ← meminfo
    let line ← (Text.lines '\n' '\r' text.toList).find? (Text.startsWith · "MemTotal:".toList)
    let word ← (Text.splitWhitespace line)[1]?
    Text.parseU64 word
  new ((kb.map (· * 1024)).getD (32 * 1024 * 1024 * 1024) / 2)

/-- `AtomicU64::compare_exchange`; the error is the value found instead. -/
def compareExchange (q : FdQuota) (current next : UInt64) : Except UInt64 UInt64 × FdQuota :=
  if q.allocatedBytes = current then (.ok current, { q with allocatedBytes := next })
  else (.error q.allocatedBytes, q)

/-- `AtomicU64::fetch_sub`, which wraps around. -/
def fetchSub (q : FdQuota) (amount : UInt64) : FdQuota :=
  { q with allocatedBytes := q.allocatedBytes - amount }

end FdQuota

structure FdRequest where
  action : String
  name : Option String
  sizeBytes : Option UInt64

structure FdResponse where
  status : String
  message : Option String
  deriving DecidableEq

def FdResponse.error (message : String) : FdResponse := { status := "error", message := some message }

/-- Where `handle_connection` stands. -/
inductive FdPc where
  /-- In `read_framed_request`. -/
  | reading (scratch : List UInt8)
  /-- Before the load of `try_reserve`. -/
  | tryReserve (name : String) (size : UInt64)
  /-- At the head of the loop of `try_reserve`. -/
  | reserving (name : String) (size current : UInt64)
  /-- `try_reserve` has returned `Err(current)`. -/
  | quotaExceeded (size current : UInt64)
  | creating (name : String) (size reserved : UInt64)
  | sending (name : String) (size reserved : UInt64)
  /-- Before the load of `release`; `reply` is still to be written after it. -/
  | release (reserved : UInt64) (reply : Option FdResponse)
  /-- Before the `fetch_sub` of `release`. -/
  | releasing (reserved current : UInt64) (reply : Option FdResponse)
  | responding (reply : FdResponse)
  | returned (ok : Bool)
  deriving DecidableEq

/-- The answers from outside: a read of the stream (`none` when it fails, empty
at the end of the stream), the creation of the memfd with the text of its error,
the hand-over of the descriptor, the write of a response. -/
structure FdEnv where
  chunk : Option (List UInt8)
  memfd : Except String Unit
  sent : Bool
  written : Bool

/-- The checks on a request (fd_server.rs:59-90). -/
def checkRequest (req : FdRequest) : FdPc :=
  if req.action ≠ "create" ∧ req.action ≠ "lease" then
    .responding (.error ("Unknown action '" ++ req.action ++
      "'. Supported actions: 'create', 'lease'"))
  else
    let size := req.sizeBytes.getD (4 * 1024 * 1024)
    if maxMemfdBytes < size then
      .responding (.error ("Requested size " ++ toString size.toNat ++ " exceeds limit of " ++
        toString maxMemfdBytes.toNat ++ " bytes"))
    else .tryReserve (req.name.getD "inferenced-shm") size

/-- What follows a `release`: the pending response, or the end. -/
def afterRelease : Option FdResponse → FdPc
  | some reply => .responding reply
  | none => .returned true

section
variable (fromSlice : List UInt8 → Option FdRequest)

/-- One turn of `read_framed_request`. -/
def readFramedRequest (chunk : Option (List UInt8)) (scratch : List UInt8) : FdPc :=
  match chunk with
  | none => .returned false
  | some [] => .returned true
  | some chunk =>
    let scratch := scratch ++ chunk
    if 0 ∈ scratch then
      match fromSlice (scratch.takeWhile fun b => decide (b ≠ 0)) with
      | none => .returned false
      | some req => checkRequest req
    else if 64 * 1024 < scratch.length then .returned false
    else .reading scratch

/-- One step of `handle_connection`, with at most one atomic operation on the
quota: the quota and the program counter after it, and what is sent to the
client. -/
def taskStep (env : FdEnv) (q : FdQuota) : FdPc → FdQuota × FdPc × List FdResponse
  | .reading scratch => (q, readFramedRequest fromSlice env.chunk scratch, [])
  | .tryReserve name size => (q, .reserving name size q.allocatedBytes, [])
  | .reserving name size current =>
    let next := saturatingAdd current size
    if q.ceilingBytes < next then (q, .quotaExceeded size current, [])
    else match q.compareExchange current next with
      | (.ok _, q) => (q, .creating name size size, [])
      | (.error actual, q) => (q, .reserving name size actual, [])
  | .quotaExceeded size current =>
    (q, .responding (.error ("Quota exceeded: " ++ toString current.toNat ++
      " bytes already allocated, request " ++ toString size.toNat ++ " bytes")), [])
  | .creating name size reserved =>
    match env.memfd with
    | .ok () => (q, .sending name size reserved, [])
    | .error e => (q, .release reserved (some (.error ("Failed to create sealed memfd: " ++ e))), [])
  | .sending name size reserved =>
    let reply : FdResponse :=
      { status := "ok"
        message := some ("Created sealed memfd '" ++ name ++ "' (" ++ toString size.toNat ++ " bytes)") }
    (q, .release reserved none, if env.sent then [reply] else [])
  | .release reserved reply => (q, .releasing reserved q.allocatedBytes reply, [])
  | .releasing reserved current reply =>
    (q.fetchSub (if reserved ≤ current then reserved else current), afterRelease reply, [])
  | .responding reply => (q, .returned env.written, if env.written then [reply] else [])
  | .returned ok => (q, .returned ok, [])

/-! ### The listener -/

structure FdTask where
  pc : FdPc
  /-- What has been sent to the client. -/
  sent : List FdResponse

structure Listener where
  quota : FdQuota
  tasks : List FdTask

def start (quota : FdQuota) : Listener := { quota, tasks := [] }

inductive FdOp where
  /-- A client connects. -/
  | accept
  /-- Task `i` takes a step. -/
  | task (i : ℕ) (env : FdEnv)

def step (s : Listener) : FdOp → Listener
  | .accept => { s with tasks := s.tasks ++ [{ pc := .reading [], sent := [] }] }
  | .task i env =>
    match s.tasks[i]? with
    | none => s
    | some t =>
      let (quota, pc, sent) := taskStep fromSlice env s.quota t.pc
      { quota, tasks := s.tasks.set i { pc, sent := t.sent ++ sent } }

end

end Inferenced.FdServer
