import Inferenced.Lib.Framing
import Inferenced.Varlink.Protocol

/-!
# The client of inferenctl (crates/inferenctl/src/client.rs)

A client writes a request and reads a reply up to its NUL, at most one mebibyte
of it. What the server sends is in the reader; behind it the stream ends, or the
next read fails. `toVec` and `fromSlice` stand for `serde_json::to_vec` and
`serde_json::from_slice`, and `written` says whether the request could be
written.
-/

namespace Inferenced.Client
open Lib.Framing Varlink

/-- The limit of `take`, with the NUL. -/
def maxReply : ℕ := 1024 * 1024

structure VarlinkClient where
  /-- What has been written to the socket. -/
  sent : List UInt8
  reader : BufReader UInt8
  /-- The read behind the last byte fails. -/
  broken : Bool

inductive CallError where
  | write
  | read
  /-- "Connection closed by inferenced daemon". -/
  | closed
  /-- "message exceeds 1MB framing limit or missing NUL delimiter". -/
  | framing
  | parse
  /-- The error of the reply, with its parameters. -/
  | remote (error : String) (parameters : Option Json)

/-- `write_all` of a message with its NUL. -/
def VarlinkClient.write (c : VarlinkClient) (msg : List UInt8) : VarlinkClient :=
  { c with sent := c.sent ++ (msg ++ [0]) }

/-- `take(1024 * 1024).read_until(0, &mut buf)`; an error if it runs into a read
that fails. -/
def VarlinkClient.readFrame (c : VarlinkClient) : Option (List UInt8) × VarlinkClient :=
  let out := readUntil 0 maxReply c.reader.buffer c.reader.reads
  let atEnd := decide (out.1.getLast? ≠ some 0) && decide (out.1.length < maxReply)
  (if c.broken && atEnd then none else some out.1, { c with reader := out.2 })

section
variable (toVec : Json → List UInt8) (fromSlice : List UInt8 → Option Json)

/-- A reply without its NUL, unless it is an error (client.rs:42-45, 74-77). -/
def checkReply (bytes : List UInt8) : Except CallError Json :=
  match fromSlice bytes with
  | none => .error .parse
  | some resp =>
    match (resp.get "error").bind Json.asStr with
    | some err => .error (.remote err (resp.get "parameters"))
    | none => .ok resp

/-- What `call` makes of what it has read (client.rs:33-46). -/
def callReply (buf : List UInt8) : Except CallError Json :=
  if buf = [] then .error .closed
  else if buf.getLast? = some 0 then
    match checkReply fromSlice buf.dropLast with
    | .error e => .error e
    | .ok resp => .ok ((resp.get "parameters").getD (.object []))
  else .error .framing

def callRequest (method : String) (parameters : Option Json) : Json :=
  .object [("method", .string method), ("parameters", parameters.getD (.object []))]

/-- `VarlinkClient::call` (client.rs:24-47). -/
def call (c : VarlinkClient) (method : String) (parameters : Option Json) (written : Bool) :
    Except CallError Json × VarlinkClient :=
  if written then
    match (c.write (toVec (callRequest method parameters))).readFrame with
    | (none, c) => (.error .read, c)
    | (some buf, c) => (callReply fromSlice buf, c)
  else (.error .write, c)

def continues (resp : Json) : Bool := ((resp.get "continues").bind Json.asBool).getD false

inductive StreamError (ε : Type) where
  | call (e : CallError)
  /-- The error of `on_message`. -/
  | onMessage (e : ε)

theorem readFrame_rest_lt {c c' : VarlinkClient} {buf : List UInt8} (h : c.readFrame = (some buf, c'))
    (hne : buf ≠ []) : c'.reader.rest.length < c.reader.rest.length := by
  obtain ⟨hbuf, rfl⟩ := Prod.mk.inj h
  have hbuf : (readUntil 0 maxReply c.reader.buffer c.reader.reads).1 = buf := by
    split at hbuf
    · cases hbuf
    · exact Option.some.inj hbuf
  exact readUntil_rest_lt (by decide) (by rwa [hbuf])

variable {σ ε : Type} (onMessage : σ → Json → Except ε Unit × σ)

/-- The loop of `stream_call` (client.rs:67-87); the callback keeps a state. -/
def streamLoop (c : VarlinkClient) (s : σ) : Except (StreamError ε) Unit × σ × VarlinkClient :=
  match _h : c.readFrame with
  | (none, c') => (.error (.call .read), s, c')
  | (some buf, c') =>
    if _hne : buf = [] then (.ok (), s, c')
    else if buf.getLast? = some 0 then
      match checkReply fromSlice buf.dropLast with
      | .error e => (.error (.call e), s, c')
      | .ok resp =>
        match onMessage s resp with
        | (.error e, s') => (.error (.onMessage e), s', c')
        | (.ok (), s') => if continues resp then streamLoop c' s' else (.ok (), s', c')
    else (.error (.call .framing), s, c')
termination_by c.reader.rest.length
decreasing_by exact readFrame_rest_lt ‹_› ‹_›

def streamRequest (method : String) (parameters : Option Json) : Json :=
  .object [("method", .string method), ("parameters", parameters.getD (.object [])),
    ("more", .bool true)]

/-- `VarlinkClient::stream_call` (client.rs:49-88). -/
def streamCall (c : VarlinkClient) (method : String) (parameters : Option Json) (written : Bool) (s : σ) :
    Except (StreamError ε) Unit × σ × VarlinkClient :=
  if written then
    streamLoop fromSlice onMessage (c.write (toVec (streamRequest method parameters))) s
  else (.error (.call .write), s, c)

end

/-! ### Reading of a frame -/

section
variable {c : VarlinkClient} {f m : List UInt8}

theorem readFrame_delim (hf : 0 ∉ f) (hlen : f.length < maxReply) (hc : c.reader.rest = f ++ 0 :: m) :
    ∃ c', c.readFrame = (some (f ++ [0]), c') ∧ c'.reader.rest = m ∧ c'.broken = c.broken := by
  obtain ⟨hframe, hrest⟩ := readUntil_frame hf hlen hc
  refine ⟨_, Prod.ext ?_ rfl, hrest, rfl⟩
  have hend : decide ((f ++ [(0 : UInt8)]).getLast? ≠ some 0) = false := by
    rw [List.getLast?_concat]
    decide
  simp only [VarlinkClient.readFrame, hframe, hend, Bool.false_and, Bool.and_false,
    Bool.false_eq_true, if_false]

theorem take_maxReply_ne_nil {p : List UInt8} (h : maxReply ≤ p.length) : p.take maxReply ≠ [] := by
  rw [← List.length_pos_iff, List.length_take_of_le h]
  decide

theorem readFrame_full (hno : 0 ∉ c.reader.rest.take maxReply)
    (hlen : maxReply ≤ c.reader.rest.length) :
    ∃ c', c.readFrame = (some (c.reader.rest.take maxReply), c') ∧
      c'.reader.rest = c.reader.rest.drop maxReply ∧ c'.broken = c.broken := by
  obtain ⟨hframe, hrest⟩ := readUntil_cut hno
  refine ⟨_, Prod.ext ?_ rfl, hrest, rfl⟩
  have hfull : decide ((c.reader.rest.take maxReply).length < maxReply) = false := by
    rw [List.length_take_of_le hlen]
    decide
  simp only [VarlinkClient.readFrame, hframe, hfull, Bool.and_false, Bool.false_eq_true, if_false]

theorem readFrame_end (hno : 0 ∉ c.reader.rest) (hlen : c.reader.rest.length < maxReply) :
    ∃ c', c.readFrame = (if c.broken then none else some c.reader.rest, c') := by
  have htake : c.reader.rest.take maxReply = c.reader.rest :=
    List.take_of_length_le (Nat.le_of_lt hlen)
  obtain ⟨hframe, -⟩ := readUntil_cut (r := c.reader) (n := maxReply) (by rwa [htake])
  rw [htake] at hframe
  refine ⟨_, Prod.ext ?_ rfl⟩
  have hlast : c.reader.rest.getLast? ≠ some 0 := fun h => hno (List.mem_of_getLast? h)
  simp only [VarlinkClient.readFrame, hframe, hlast, hlen, ne_eq, not_false_eq_true, decide_true,
    Bool.and_self, Bool.and_true]

end

end Inferenced.Client
