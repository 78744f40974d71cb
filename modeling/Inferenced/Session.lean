import Inferenced.Client
import Inferenced.Varlink.Framing
import Inferenced.Varlink.Listener

/-!
# Clients and the daemon on the wire (client.rs, varlink/mod.rs, protocol.rs)

Any number of clients of inferenctl, each on a connection of its own, with the
bytes that are under way in between. A client writes a request and waits; the
kernel hands on bytes in pieces of any size; the task of the connection reads up
to a NUL, handles the request and writes its frames; the client reads up to a
NUL. A read waits until it has its NUL or is at its limit. All of these
interleave, and between any two of them other users of the arbiter may change
it.

`toVec`, `fromSlice` and `requestFromSlice` stand for `serde_json::to_vec` and
`serde_json::from_slice` at the types of the source, `replyToVec` for `to_vec` of
a `VarlinkReply`.
-/

namespace Inferenced.Session
open Lib.Framing Varlink Client

/-- Which method of the client has been called. -/
inductive Kind where
  | call
  | stream
  deriving DecidableEq

structure Asked where
  kind : Kind
  method : String
  parameters : Option Json

/-- What the client writes (client.rs:25, 55-59). -/
def Asked.message (a : Asked) : Json :=
  match a.kind with
  | .call => callRequest a.method a.parameters
  | .stream => streamRequest a.method a.parameters

/-- The request that this is for the server; `null` is no parameters. -/
def Asked.request (a : Asked) : VarlinkRequest :=
  { method := a.method
    parameters := match a.parameters.getD (.object []) with
      | .null => none
      | p => some p
    more := match a.kind with
      | .call => none
      | .stream => some true
    oneway := none }

/-- A reply as the client reads it; fields that are `None` are left out. -/
def replyJson (r : VarlinkReply) : Json :=
  .object ((r.continues.map fun b => ("continues", Json.bool b)).toList ++
    (r.error.map fun e => ("error", Json.string e)).toList ++
    (r.parameters.map fun p => ("parameters", p)).toList)

/-- What a call of the client has returned: the messages that `stream_call` has
passed to its callback, which never fails, stand beside its result. -/
inductive Answer where
  | call (outcome : Except CallError Json)
  | stream (messages : List Json) (outcome : Except CallError Unit)

inductive Waiting where
  | idle
  | call
  | stream (messages : List Json)

/-- A client with its connection. -/
structure Link where
  client : VarlinkClient
  waiting : Waiting
  /-- The client has closed its end. -/
  closed : Bool
  /-- How many of the bytes that the client has written have arrived. -/
  arrived : ℕ
  /-- The reader of the task. -/
  reader : BufReader UInt8
  /-- How many of the bytes that the task has written have arrived. -/
  delivered : ℕ
  asked : List Asked
  /-- The requests that the task has read, with the frames for each. -/
  served : List (VarlinkRequest × List VarlinkReply)
  answers : List Answer

def Link.opened : Link :=
  { client := ⟨[], ⟨[], []⟩, false⟩, waiting := .idle, closed := false, arrived := 0
    reader := ⟨[], []⟩, delivered := 0, asked := [], served := [], answers := [] }

/-- A read that is limited to `n` bytes returns. -/
def Ready (n : ℕ) (r : BufReader UInt8) : Prop := 0 ∈ r.rest.take n ∨ n ≤ r.rest.length

instance (n : ℕ) (r : BufReader UInt8) : Decidable (Ready n r) := inferInstanceAs (Decidable (_ ∨ _))

def receive (r : BufReader UInt8) (piece : List UInt8) : BufReader UInt8 :=
  { r with reads := r.reads ++ [piece] }

section
variable (toVec : Json → List UInt8) (fromSlice : List UInt8 → Option Json)
  (requestFromSlice : List UInt8 → Option VarlinkRequest) (replyToVec : VarlinkReply → List UInt8)

def requestBytes (asked : List Asked) : List UInt8 := asked.flatMap fun a => toVec a.message ++ [0]

/-- `VarlinkReply::to_bytes`, one after the other. -/
def replyBytes (replies : List VarlinkReply) : List UInt8 :=
  replies.flatMap fun r => replyToVec r ++ [0]

/-! ### The client -/

/-- The write of `call` and `stream_call`. -/
def Link.ask (a : Asked) (l : Link) : Link :=
  match l.waiting with
  | .idle =>
    if l.closed then l
    else
      { l with
        client := l.client.write (toVec a.message)
        waiting := match a.kind with
          | .call => .call
          | .stream => .stream []
        asked := l.asked ++ [a] }
  | _ => l

def Link.answer (l : Link) (client : VarlinkClient) (a : Answer) : Link :=
  { l with client, waiting := .idle, answers := l.answers ++ [a] }

/-- One turn of the loop of `stream_call`: the callback has seen `messages`. -/
def streamTurn (c : VarlinkClient) (messages : List Json) :
    (List Json × Except CallError Unit × VarlinkClient) ⊕ (List Json × VarlinkClient) :=
  match c.readFrame with
  | (none, c) => .inl (messages, .error .read, c)
  | (some buf, c) =>
    if buf = [] then .inl (messages, .ok (), c)
    else if buf.getLast? = some 0 then
      match checkReply fromSlice buf.dropLast with
      | .error e => .inl (messages, .error e, c)
      | .ok resp =>
        if continues resp then .inr (messages ++ [resp], c)
        else .inl (messages ++ [resp], .ok (), c)
    else .inl (messages, .error .framing, c)

/-- The client reads a reply, when there is one. -/
def Link.read (l : Link) : Link :=
  if l.closed = false ∧ Ready maxReply l.client.reader then
    match l.waiting with
    | .idle => l
    | .call =>
      match l.client.readFrame with
      | (none, c) => l.answer c (.call (.error .read))
      | (some buf, c) => l.answer c (.call (callReply fromSlice buf))
    | .stream messages =>
      match streamTurn fromSlice l.client messages with
      | .inl (messages, outcome, c) => l.answer c (.stream messages outcome)
      | .inr (messages, c) => { l with client := c, waiting := .stream messages }
  else l

/-! ### The kernel -/

def Link.deliverRequest (n : ℕ) (l : Link) : Link :=
  let piece := (l.client.sent.drop l.arrived).take n
  { l with arrived := l.arrived + piece.length, reader := receive l.reader piece }

def Link.deliverReply (sent : List VarlinkReply) (n : ℕ) (l : Link) : Link :=
  let piece := ((replyBytes replyToVec sent).drop l.delivered).take n
  { l with
    delivered := l.delivered + piece.length
    client.reader := receive l.client.reader piece }

/-! ### Runs -/

/-- Link `i` belongs to connection `i` of the daemon. -/
structure State where
  daemon : Daemon
  links : List Link

def start (topology : HardwareTopology) : State := { daemon := Varlink.start topology, links := [] }

inductive Op where
  | connect (peer : Option PeerInfo)
  | ask (i : ℕ) (a : Asked)
  | deliverRequest (i n : ℕ)
  /-- Task `i` reads a frame, handles it and writes; a write may fail once the
  client has closed its end. -/
  | serve (i : ℕ) (env : HandlerEnv) (written : Bool)
  | deliverReply (i n : ℕ)
  | read (i : ℕ)
  | close (i : ℕ)
  /-- Task `i` reads the end of the stream. -/
  | hangup (i : ℕ)
  | reclaim (i : ℕ)
  /-- Other users of the arbiter leave it in this state. -/
  | others (arbiter : ArbiterState)

variable (parseUuid : String → Option LeaseId)

/-- The frames that task `c` writes for a request. -/
def framesFor (d : Daemon) (c : Conn) (req : VarlinkRequest) (env : HandlerEnv) : List VarlinkReply :=
  (Varlink.serve parseUuid req d.arbiter c.activeLeases c.peer env).frames req.method

def State.serve (s : State) (i : ℕ) (l : Link) (c : Conn) (env : HandlerEnv) (written : Bool) : State :=
  let out := readUntil 0 maxFrame l.reader.buffer l.reader.reads
  let request := parseRequest requestFromSlice out.1
  { daemon := Varlink.step parseUuid s.daemon (.frame i request env (written || !l.closed))
    links := s.links.set i
      { l with
        reader := out.2
        served := l.served ++
          (request.map fun req => (req, framesFor parseUuid s.daemon c req env)).toList } }

def step (s : State) : Op → State
  | .connect peer =>
    { daemon := Varlink.step parseUuid s.daemon (.accept peer), links := s.links ++ [Link.opened] }
  | .ask i a => { s with links := s.links.modify i (Link.ask toVec a) }
  | .deliverRequest i n => { s with links := s.links.modify i (Link.deliverRequest n) }
  | .serve i env written =>
    match s.links[i]?, s.daemon.conns[i]? with
    | some l, some c =>
      if c.phase = .serving ∧ Ready maxFrame l.reader then
        s.serve requestFromSlice parseUuid i l c env written
      else s
    | _, _ => s
  | .deliverReply i n =>
    match s.daemon.conns[i]? with
    | some c => { s with links := s.links.modify i (Link.deliverReply replyToVec c.sent n) }
    | none => s
  | .read i => { s with links := s.links.modify i (Link.read fromSlice) }
  | .close i => { s with links := s.links.modify i fun l => { l with closed := true } }
  | .hangup i =>
    match s.links[i]? with
    | some l =>
      if l.closed ∧ l.client.sent.length ≤ l.arrived ∧ l.reader.rest = [] then
        { s with daemon := Varlink.step parseUuid s.daemon (.hangup i) }
      else s
    | none => s
  | .reclaim i => { s with daemon := Varlink.step parseUuid s.daemon (.reclaim i) }
  | .others arbiter => { s with daemon.arbiter := arbiter }

end

/-! ### The client by itself

When its reply is there, a request and a read are a `call`, and the turns of a
stream are those of the loop of `stream_call`. -/

variable {toVec : Json → List UInt8} {fromSlice : List UInt8 → Option Json}

theorem read_ask_call {l : Link} (hidle : l.waiting = .idle) (hopen : l.closed = false)
    (hready : Ready maxReply l.client.reader) (method : String) (parameters : Option Json) :
    (l.ask toVec ⟨.call, method, parameters⟩).read fromSlice =
      { l with
        client := (call toVec fromSlice l.client method parameters true).2
        asked := l.asked ++ [⟨.call, method, parameters⟩]
        answers := l.answers ++ [.call (call toVec fromSlice l.client method parameters true).1] } := by
  have hread : Ready maxReply (l.client.write (toVec (callRequest method parameters))).reader := hready
  simp only [Link.ask, hidle, hopen, Bool.false_eq_true, if_false, Link.read, Asked.message, call, if_true,
    true_and, if_pos hread]
  rcases (l.client.write (toVec (callRequest method parameters))).readFrame with ⟨_ | buf, c⟩
  · simp only [Link.answer]
  · simp only [Link.answer]

/-- The callback that keeps what it is passed. -/
def keep (messages : List Json) (msg : Json) : Except Empty Unit × List Json :=
  (.ok (), messages ++ [msg])

theorem streamLoop_turn (c : VarlinkClient) (messages : List Json) :
    streamLoop fromSlice keep c messages =
      match streamTurn fromSlice c messages with
      | .inl (messages, outcome, c) => (outcome.mapError .call, messages, c)
      | .inr (messages, c) => streamLoop fromSlice keep c messages := by
  rw [streamLoop, streamTurn]
  split
  · rename_i h
    rw [h]
    rfl
  · rename_i buf c' h
    rw [h]
    dsimp only
    split
    · rfl
    · split
      · cases checkReply fromSlice buf.dropLast with
        | error e => rfl
        | ok resp =>
          simp only [keep]
          split <;> rfl
      · rfl

end Inferenced.Session
