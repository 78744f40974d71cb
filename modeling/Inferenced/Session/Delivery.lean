import Inferenced.Lib.Utf8
import Inferenced.Session
import Inferenced.System.Answers

/-!
# Every answer belongs to its request

The bytes that a task has not read yet, in its reader and under way, are the
requests it has not served yet; the bytes that a client has not read yet are the
frames of its last request that it has not seen yet. A client makes no request
before its last one is answered, so these frames are never those of another
request.
-/

namespace Inferenced.Session
open Lib Lib.Runs Lib.Framing Varlink Client Arbiter

/-! ### What is expected -/

/-- What `call` makes of a reply. -/
def outcomeOf (r : VarlinkReply) : Except CallError Json :=
  match r.error with
  | some e => .error (.remote e r.parameters)
  | none => .ok (r.parameters.getD (.object []))

/-- What `stream_call` makes of the frames behind `messages`, if they are all
there. -/
def streamAnswer (messages : List Json) : List VarlinkReply → Option Answer
  | [] => none
  | r :: rest =>
    match r.error with
    | some e => some (.stream messages (.error (.remote e r.parameters)))
    | none =>
      if r.continues = some true then streamAnswer (messages ++ [replyJson r]) rest
      else some (.stream (messages ++ [replyJson r]) (.ok ()))

def Kind.answer : Kind → List VarlinkReply → Option Answer
  | .call, frames => frames.head?.map fun r => .call (outcomeOf r)
  | .stream, frames => streamAnswer [] frames

/-- The client reads all frames that the request is answered with. -/
def Asked.Whole (a : Asked) : Prop := a.kind = .call → methodOf a.method ≠ some .streamInference

section
variable (toVec : Json → List UInt8) (fromSlice : List UInt8 → Option Json)
  (requestFromSlice : List UInt8 → Option VarlinkRequest) (replyToVec : VarlinkReply → List UInt8)

/-- The text of the request has no NUL, is within the limit of the server, and
is read back as what it was written for. -/
structure CarriesRequest (a : Asked) : Prop where
  noNul : 0 ∉ toVec a.message
  fits : (toVec a.message).length < maxFrame
  parses : requestFromSlice (toVec a.message) = some a.request

structure CarriesReply (r : VarlinkReply) : Prop where
  noNul : 0 ∉ replyToVec r
  fits : (replyToVec r).length < maxReply
  parses : fromSlice (replyToVec r) = some (replyJson r)

/-- The message that the step writes is carried over; and a client that has made
a `call` of the stream, which leaves frames behind, asks for nothing more. -/
def Carried (parseUuid : String → Option LeaseId) (s : State) : Op → Prop
  | .ask i a =>
    CarriesRequest toVec requestFromSlice a ∧ ∀ l, s.links[i]? = some l → ∀ b ∈ l.asked, b.Whole
  | .serve i env _ =>
    ∀ l c a, s.links[i]? = some l → s.daemon.conns[i]? = some c →
      l.asked[l.served.length]? = some a →
      ∀ r ∈ framesFor parseUuid s.daemon c a.request env, CarriesReply fromSlice replyToVec r
  | _ => True

end

variable {toVec : Json → List UInt8} {fromSlice : List UInt8 → Option Json}
  {requestFromSlice : List UInt8 → Option VarlinkRequest} {replyToVec : VarlinkReply → List UInt8}
  {parseUuid : String → Option LeaseId}

/-! ### One reply -/

theorem get_error (r : VarlinkReply) : ((replyJson r).get "error").bind Json.asStr = r.error := by
  obtain ⟨_ | p, _ | b, _ | e⟩ := r <;> rfl

theorem get_parameters (r : VarlinkReply) : (replyJson r).get "parameters" = r.parameters := by
  obtain ⟨_ | p, _ | b, _ | e⟩ := r <;> rfl

theorem continues_replyJson (r : VarlinkReply) :
    continues (replyJson r) = true ↔ r.continues = some true := by
  obtain ⟨_ | p, _ | b, _ | e⟩ := r <;> simp [continues, replyJson, Json.get, Json.asBool]

theorem CarriesReply.checkReply {r : VarlinkReply} (h : CarriesReply fromSlice replyToVec r) :
    checkReply fromSlice (replyToVec r) = match r.error with
      | some e => .error (.remote e r.parameters)
      | none => .ok (replyJson r) := by
  unfold Client.checkReply
  rw [h.parses]
  cases herror : r.error with
  | some e => simp only [get_error, get_parameters, herror]
  | none => simp only [get_error, herror]

theorem CarriesReply.callReply {r : VarlinkReply} (h : CarriesReply fromSlice replyToVec r) :
    callReply fromSlice (replyToVec r ++ [0]) = outcomeOf r := by
  rw [Client.callReply, if_neg (by simp), List.getLast?_concat, if_pos rfl, List.dropLast_concat,
    h.checkReply, outcomeOf]
  cases r.error with
  | some e => rfl
  | none =>
    dsimp only
    rw [get_parameters]

/-! ### The frames of a request -/

/-- All frames but the last announce another one. -/
def Terminated : List VarlinkReply → Prop
  | [] => True
  | [r] => r.continues ≠ some true
  | r :: next :: rest => (r.continues = some true ∧ r.error = none) ∧ Terminated (next :: rest)

structure Proper (p : VarlinkRequest × List VarlinkReply) : Prop where
  terminated : Terminated p.2
  single : methodOf p.1.method ≠ some .streamInference → p.2.length ≤ 1
  unanswered : p.2 = [] ↔ Unreported p.1.method

theorem serve_streamInference {req : VarlinkRequest} (h : methodOf req.method = some .streamInference)
    (s : ArbiterState) (activeLeases : List LeaseId) (peerInfo : Option PeerInfo) (env : HandlerEnv) :
    (serve parseUuid req s activeLeases peerInfo env).frames req.method =
      handleStreamInference req.parameters := by
  have hservice : ∀ name, methodOf name = none → req.method ≠ name := by
    rintro name hname rfl
    rw [h] at hname
    cases hname
  rw [serve, if_neg (hservice _ (by decide)), if_neg (hservice _ (by decide)), handleMethod, h]
  simp only [runMethod, Handled.frames, contains_streamInference h, if_true, List.append_nil]

theorem proper_framesFor (parseUuid : String → Option LeaseId) (d : Daemon) (c : Conn)
    (req : VarlinkRequest) (env : HandlerEnv) : Proper (req, framesFor parseUuid d c req env) := by
  rcases serve_frames parseUuid req d.arbiter c.activeLeases c.peer env with ⟨hu, h⟩ | ⟨hu, h⟩
  · refine ⟨?_, fun _ => ?_, iff_of_true h hu⟩
    · rw [framesFor, h]
      trivial
    · rw [framesFor, h]
      exact Nat.zero_le _
  · obtain ⟨stream, last, hframes, hlast, -, hstream⟩ := h
    have hanswered : framesFor parseUuid d c req env = [] ↔ Unreported req.method := by
      rw [framesFor, hframes]
      exact iff_of_false (List.append_ne_nil_of_right_ne_nil _ (List.cons_ne_nil _ _)) hu
    by_cases hm : methodOf req.method = some .streamInference
    · refine ⟨?_, fun hne => absurd hm hne, hanswered⟩
      rw [framesFor, serve_streamInference hm]
      have hlast : some false ≠ some true := by decide
      exact ⟨⟨rfl, rfl⟩, ⟨rfl, rfl⟩, ⟨rfl, rfl⟩, hlast⟩
    · have hnil : stream = [] := by
        by_contra hne
        exact hm (hstream hne)
      rw [hnil, List.nil_append] at hframes
      refine ⟨?_, fun _ => ?_, hanswered⟩
      · rw [framesFor, hframes]
        exact hlast
      · rw [framesFor, hframes]
        exact Nat.le_refl 1

/-! ### The invariant of a link -/

/-- What the client still has to read, `pending`, is what is left of the frames
of its last request. -/
def Expecting (l : Link) (pending : List VarlinkReply) : Prop :=
  match l.waiting with
  | .idle => l.answers.length = l.asked.length ∧ l.served.length = l.asked.length ∧
      ((∀ a ∈ l.asked, a.Whole) → pending = [])
  | .call => ∃ a, l.asked[l.answers.length]? = some a ∧ a.kind = .call ∧
      l.asked.length = l.answers.length + 1 ∧
      (l.served.length = l.answers.length ∧ pending = [] ∨
        l.served.length = l.asked.length ∧
          l.served[l.answers.length]? = some (a.request, pending))
  | .stream messages => ∃ a, l.asked[l.answers.length]? = some a ∧ a.kind = .stream ∧
      l.asked.length = l.answers.length + 1 ∧
      (l.served.length = l.answers.length ∧ pending = [] ∧ messages = [] ∨
        l.served.length = l.asked.length ∧ Terminated pending ∧
          ∃ frames, l.served[l.answers.length]? = some (a.request, frames) ∧
            streamAnswer messages pending = streamAnswer [] frames)

section
variable (toVec : Json → List UInt8) (fromSlice : List UInt8 → Option Json)
  (requestFromSlice : List UInt8 → Option VarlinkRequest) (replyToVec : VarlinkReply → List UInt8)

/-- The client has its end open: its task is serving, and the bytes it has not
read yet are frames it waits for. -/
structure Open (l : Link) (c : Conn) : Prop where
  serving : c.phase = .serving
  replies : ∃ pending, (∀ r ∈ pending, CarriesReply fromSlice replyToVec r) ∧ Expecting l pending ∧
    l.client.reader.rest ++ (replyBytes replyToVec c.sent).drop l.delivered =
      replyBytes replyToVec pending

structure LinkOk (l : Link) (c : Conn) : Prop where
  arrived : l.arrived ≤ l.client.sent.length
  delivered : l.delivered ≤ (replyBytes replyToVec c.sent).length
  carried : ∀ a ∈ l.asked, CarriesRequest toVec requestFromSlice a
  requests : l.reader.rest ++ l.client.sent.drop l.arrived =
    requestBytes toVec (l.asked.drop l.served.length)
  served : ∀ (j : ℕ) p, l.served[j]? = some p → ∃ a, l.asked[j]? = some a ∧ p.1 = a.request
  proper : ∀ p ∈ l.served, Proper p
  answers : ∀ (j : ℕ) a, l.answers[j]? = some a → ∃ q frames, l.asked[j]? = some q ∧
    l.served[j]? = some (q.request, frames) ∧ q.kind.answer frames = some a
  opened : l.closed = false → Open fromSlice replyToVec l c

end

variable {l : Link} {c c' : Conn}

theorem linkOk_opened (c : Conn) (hserving : c.phase = .serving) (hsent : c.sent = []) :
    LinkOk toVec fromSlice requestFromSlice replyToVec .opened c where
  arrived := Nat.le_refl _
  delivered := Nat.zero_le _
  carried := List.forall_mem_nil _
  requests := rfl
  served := fun j p h => by cases h
  proper := List.forall_mem_nil _
  answers := fun j a h => by cases h
  opened := by
    refine fun _ => ⟨hserving, [], List.forall_mem_nil _, ⟨rfl, rfl, fun _ => rfl⟩, ?_⟩
    rw [hsent]
    rfl

/-- The invariant reads off the connection what has been written, and, of an open
link, that it is serving. -/
theorem LinkOk.congr (h : LinkOk toVec fromSlice requestFromSlice replyToVec l c)
    (hsent : c'.sent = c.sent) (hserving : l.closed = false → c'.phase = .serving) :
    LinkOk toVec fromSlice requestFromSlice replyToVec l c' where
  arrived := h.arrived
  delivered := hsent ▸ h.delivered
  carried := h.carried
  requests := h.requests
  served := h.served
  proper := h.proper
  answers := h.answers
  opened := fun hopen => ⟨hserving hopen, hsent ▸ (h.opened hopen).replies⟩

theorem rest_receive (r : BufReader UInt8) (piece : List UInt8) : (receive r piece).rest = r.rest ++ piece := by
  simp [receive, BufReader.rest]

/-- Bytes that arrive are in the reader and no longer under way. -/
theorem deliver_rest (r : BufReader UInt8) (bytes : List UInt8) (k n : ℕ) :
    (receive r ((bytes.drop k).take n)).rest ++
        bytes.drop (k + ((bytes.drop k).take n).length) = r.rest ++ bytes.drop k := by
  rw [rest_receive, ← List.drop_drop, List.append_assoc]
  congr 1
  rw [List.length_take]
  rcases Nat.le_total n (bytes.drop k).length with hn | hn
  · rw [Nat.min_eq_left hn, List.take_append_drop]
  · rw [Nat.min_eq_right hn, List.take_of_length_le hn, List.drop_length, List.append_nil]

theorem deliver_le {bytes : List UInt8} {k : ℕ} (hk : k ≤ bytes.length) (n : ℕ) :
    k + ((bytes.drop k).take n).length ≤ bytes.length := by
  rw [List.length_take, List.length_drop]
  omega

theorem LinkOk.deliverRequest (h : LinkOk toVec fromSlice requestFromSlice replyToVec l c) (n : ℕ) :
    LinkOk toVec fromSlice requestFromSlice replyToVec (l.deliverRequest n) c where
  arrived := deliver_le h.arrived n
  delivered := h.delivered
  carried := h.carried
  requests := (deliver_rest l.reader l.client.sent l.arrived n).trans h.requests
  served := h.served
  proper := h.proper
  answers := h.answers
  opened := fun hopen => ⟨(h.opened hopen).serving, (h.opened hopen).replies⟩

theorem LinkOk.deliverReply (h : LinkOk toVec fromSlice requestFromSlice replyToVec l c) (n : ℕ) :
    LinkOk toVec fromSlice requestFromSlice replyToVec (l.deliverReply replyToVec c.sent n) c where
  arrived := h.arrived
  delivered := deliver_le h.delivered n
  carried := h.carried
  requests := h.requests
  served := h.served
  proper := h.proper
  answers := h.answers
  opened := by
    intro hopen
    obtain ⟨hserving, pending, hcarried, hexpect, hbytes⟩ := h.opened hopen
    exact ⟨hserving, pending, hcarried, hexpect, (deliver_rest l.client.reader _ l.delivered n).trans hbytes⟩

theorem LinkOk.close (h : LinkOk toVec fromSlice requestFromSlice replyToVec l c) :
    LinkOk toVec fromSlice requestFromSlice replyToVec { l with closed := true } c where
  arrived := h.arrived
  delivered := h.delivered
  carried := h.carried
  requests := h.requests
  served := h.served
  proper := h.proper
  answers := h.answers
  opened := fun hopen => by cases hopen

theorem getElem?_append_some {α : Type*} {l : List α} {j : ℕ} {x : α} (h : l[j]? = some x) (m : List α) :
    (l ++ m)[j]? = some x := by
  rw [List.getElem?_append_left (List.getElem?_eq_some_iff.mp h).1]
  exact h

theorem getElem?_concat_cases {α : Type*} {l : List α} {j : ℕ} {x y : α} (h : (l ++ [y])[j]? = some x) :
    l[j]? = some x ∨ j = l.length ∧ x = y := by
  rcases Nat.lt_or_ge j l.length with hj | hj
  · rw [List.getElem?_append_left hj] at h
    exact Or.inl h
  · rw [List.getElem?_append_right hj, List.getElem?_singleton] at h
    split at h
    · exact Or.inr ⟨by omega, (Option.some.inj h).symm⟩
    · cases h

theorem LinkOk.ask (h : LinkOk toVec fromSlice requestFromSlice replyToVec l c) {a : Asked}
    (hcarries : CarriesRequest toVec requestFromSlice a) (hwhole : ∀ b ∈ l.asked, b.Whole) :
    LinkOk toVec fromSlice requestFromSlice replyToVec (l.ask toVec a) c := by
  unfold Link.ask
  cases hw : l.waiting with
  | call => exact h
  | stream messages => exact h
  | idle =>
    dsimp only
    split
    · exact h
    · rename_i hclosed
      obtain ⟨hserving, pending, hcarried, hexpect, hbytes⟩ := h.opened (Bool.eq_false_iff.mpr hclosed)
      rw [Expecting, hw] at hexpect
      obtain ⟨hanswers, hserved, hpending⟩ := hexpect
      obtain rfl := hpending hwhole
      have hlast : (l.asked ++ [a])[l.answers.length]? = some a := by
        rw [hanswers, List.getElem?_concat_length]
      have hcount : (l.asked ++ [a]).length = l.answers.length + 1 := by
        rw [List.length_append, hanswers]
        rfl
      refine ⟨?_, h.delivered, ?_, ?_, fun j p hp => ?_, h.proper, fun j b hb => ?_,
        fun _ => ⟨hserving, [], hcarried, ?_, hbytes⟩⟩
      · refine Nat.le_trans h.arrived ?_
        simp only [VarlinkClient.write, List.length_append]
        exact Nat.le_add_right _ _
      · exact List.forall_mem_append.mpr ⟨h.carried, List.forall_mem_singleton.mpr hcarries⟩
      · have hnone : l.asked.drop l.served.length = [] := by rw [hserved, List.drop_length]
        have hone : (l.asked ++ [a]).drop l.served.length = [a] := by
          rw [hserved, List.drop_left]
        have hrequests := h.requests
        rw [hnone] at hrequests
        simp only [VarlinkClient.write]
        rw [hone, List.drop_append_of_le_length h.arrived, ← List.append_assoc, hrequests]
        simp [requestBytes]
      · obtain ⟨q, hq, hreq⟩ := h.served j p hp
        exact ⟨q, getElem?_append_some hq _, hreq⟩
      · obtain ⟨q, frames, hq, hrest⟩ := h.answers j b hb
        exact ⟨q, frames, getElem?_append_some hq _, hrest⟩
      · rw [Expecting]
        cases hkind : a.kind with
        | call => exact ⟨a, hlast, hkind, hcount, Or.inl ⟨hserved.trans hanswers.symm, rfl⟩⟩
        | stream => exact ⟨a, hlast, hkind, hcount, Or.inl ⟨hserved.trans hanswers.symm, rfl, rfl⟩⟩

/-! ### The client reads -/

/-- When a read of the client returns, it has read the next frame. -/
theorem read_pending {pending : List VarlinkReply} {later : List UInt8}
    (hcarried : ∀ r ∈ pending, CarriesReply fromSlice replyToVec r)
    (hbytes : l.client.reader.rest ++ later = replyBytes replyToVec pending)
    (hready : Ready maxReply l.client.reader) :
    ∃ r rest client, pending = r :: rest ∧ l.client.readFrame = (some (replyToVec r ++ [0]), client) ∧
      client.sent = l.client.sent ∧ client.reader.rest ++ later = replyBytes replyToVec rest := by
  obtain ⟨r, rest, m, rfl, harrived, hm⟩ := first_of_frames (by decide)
    (fun r hr => ⟨(hcarried r hr).noNul, (hcarried r hr).fits⟩) hbytes hready
  have hr := hcarried r (List.mem_cons_self ..)
  obtain ⟨client, hread, hrest, -⟩ := readFrame_delim hr.noNul hr.fits harrived
  refine ⟨r, rest, client, rfl, hread, ?_, hrest ▸ hm⟩
  have hsent : l.client.readFrame.2.sent = l.client.sent := rfl
  rw [hread] at hsent
  exact hsent

theorem streamTurn_frame {client client' : VarlinkClient} {messages : List Json} {r : VarlinkReply}
    (hr : CarriesReply fromSlice replyToVec r)
    (hread : client.readFrame = (some (replyToVec r ++ [0]), client')) :
    streamTurn fromSlice client messages = match r.error with
      | some e => .inl (messages, .error (.remote e r.parameters), client')
      | none =>
        if r.continues = some true then .inr (messages ++ [replyJson r], client')
        else .inl (messages ++ [replyJson r], .ok (), client') := by
  rw [streamTurn, hread]
  dsimp only
  rw [if_neg (by simp), List.getLast?_concat, if_pos rfl, List.dropLast_concat, hr.checkReply]
  cases r.error with
  | some e => rfl
  | none =>
    dsimp only
    by_cases hcont : r.continues = some true
    · rw [if_pos hcont, if_pos ((continues_replyJson r).mpr hcont)]
    · rw [if_neg hcont, if_neg (mt (continues_replyJson r).mp hcont)]

theorem Terminated.rest_nil {r : VarlinkReply} {rest : List VarlinkReply} (h : Terminated (r :: rest))
    (hlast : r.continues ≠ some true ∨ r.error ≠ none) : rest = [] := by
  cases rest with
  | nil => rfl
  | cons next rest =>
    rcases hlast with hcont | herror
    · exact absurd h.1.1 hcont
    · exact absurd h.1.2 herror

theorem Terminated.tail {r : VarlinkReply} {rest : List VarlinkReply} (h : Terminated (r :: rest)) :
    Terminated rest := by
  cases rest with
  | nil => trivial
  | cons next rest => exact h.2

/-- The client has its answer. -/
theorem LinkOk.answer (h : LinkOk toVec fromSlice requestFromSlice replyToVec l c) {q : Asked}
    {frames rest : List VarlinkReply} {a : Answer} {client : VarlinkClient}
    (hserving : c.phase = .serving) (hsent : client.sent = l.client.sent)
    (hq : l.asked[l.answers.length]? = some q) (hcount : l.asked.length = l.answers.length + 1)
    (hserved : l.served.length = l.asked.length)
    (hframes : l.served[l.answers.length]? = some (q.request, frames))
    (ha : q.kind.answer frames = some a)
    (hcarried : ∀ r ∈ rest, CarriesReply fromSlice replyToVec r)
    (hbytes : client.reader.rest ++ (replyBytes replyToVec c.sent).drop l.delivered =
      replyBytes replyToVec rest)
    (hwhole : q.Whole → rest = []) :
    LinkOk toVec fromSlice requestFromSlice replyToVec (l.answer client a) c := by
  have hanswers : (l.answer client a).answers.length = l.asked.length := by
    rw [hcount, Link.answer, List.length_append]
    rfl
  refine ⟨?_, h.delivered, h.carried, ?_, h.served, h.proper, fun j b hb => ?_,
    fun _ => ⟨hserving, rest, hcarried, ⟨hanswers, hserved, fun hall => ?_⟩, hbytes⟩⟩
  · exact hsent ▸ h.arrived
  · exact hsent ▸ h.requests
  · rcases getElem?_concat_cases hb with hb | ⟨rfl, rfl⟩
    · exact h.answers j b hb
    · exact ⟨q, frames, hq, hframes, ha⟩
  · exact hwhole (hall q (List.mem_of_getElem? hq))

theorem LinkOk.read (h : LinkOk toVec fromSlice requestFromSlice replyToVec l c) :
    LinkOk toVec fromSlice requestFromSlice replyToVec (l.read fromSlice) c := by
  unfold Link.read
  split
  · rename_i hopen
    obtain ⟨hserving, pending, hcarried, hexpect, hbytes⟩ := h.opened hopen.1
    obtain ⟨r, rest, client, rfl, hread, hsent, hrest⟩ := read_pending hcarried hbytes hopen.2
    obtain ⟨hr, hcarried⟩ := List.forall_mem_cons.mp hcarried
    rw [Expecting] at hexpect
    cases hw : l.waiting with
    | idle => exact h
    | call =>
      simp only [hw] at hexpect
      obtain ⟨q, hq, hkind, hcount, ⟨-, hnil⟩ | ⟨hserved, hframes⟩⟩ := hexpect
      · cases hnil
      · rw [hread]
        refine h.answer hserving hsent hq hcount hserved hframes ?_ hcarried hrest fun hwhole => ?_
        · rw [hkind, hr.callReply]
          rfl
        · have hone := (h.proper _ (List.mem_of_getElem? hframes)).single (hwhole hkind)
          rw [List.length_cons] at hone
          exact List.length_eq_zero_iff.mp (by omega)
    | stream messages =>
      simp only [hw] at hexpect
      obtain ⟨q, hq, hkind, hcount, ⟨-, hnil, -⟩ | ⟨hserved, hterm, frames, hframes, hanswer⟩⟩ := hexpect
      · cases hnil
      · dsimp only
        rw [streamTurn_frame hr hread]
        rw [streamAnswer] at hanswer
        cases herror : r.error with
        | some e =>
          rw [herror] at hanswer
          refine h.answer hserving hsent hq hcount hserved hframes ?_ hcarried hrest fun _ => ?_
          · rw [hkind]
            exact hanswer.symm
          · exact hterm.rest_nil (Or.inr (by rw [herror]; exact Option.some_ne_none e))
        | none =>
          rw [herror] at hanswer
          dsimp only at hanswer ⊢
          by_cases hcont : r.continues = some true
          · rw [if_pos hcont] at hanswer
            rw [if_pos hcont]
            refine ⟨hsent ▸ h.arrived, h.delivered, h.carried, hsent ▸ h.requests, h.served, h.proper,
              h.answers, fun _ => ⟨hserving, rest, hcarried, ?_, hrest⟩⟩
            exact ⟨q, hq, hkind, hcount, Or.inr ⟨hserved, hterm.tail, frames, hframes, hanswer⟩⟩
          · rw [if_neg hcont] at hanswer
            rw [if_neg hcont]
            refine h.answer hserving hsent hq hcount hserved hframes ?_ hcarried hrest fun _ => ?_
            · rw [hkind]
              exact hanswer.symm
            · exact hterm.rest_nil (Or.inl hcont)
  · exact h

/-! ### The task reads -/

/-- When a read of the task returns, it has read the next request. -/
theorem LinkOk.next (h : LinkOk toVec fromSlice requestFromSlice replyToVec l c)
    (hready : Ready maxFrame l.reader) :
    ∃ a, l.asked[l.served.length]? = some a ∧
      parseRequest requestFromSlice (readUntil 0 maxFrame l.reader.buffer l.reader.reads).1 =
        some a.request ∧
      (readUntil 0 maxFrame l.reader.buffer l.reader.reads).2.rest ++ l.client.sent.drop l.arrived =
        requestBytes toVec (l.asked.drop (l.served.length + 1)) := by
  have hcarried : ∀ a ∈ l.asked.drop l.served.length, CarriesRequest toVec requestFromSlice a :=
    fun a ha => h.carried a (List.mem_of_mem_drop ha)
  obtain ⟨a, rest, m, hdrop, harrived, hm⟩ := first_of_frames (by decide)
    (fun a ha => ⟨(hcarried a ha).noNul, (hcarried a ha).fits⟩) h.requests hready
  have ha := hcarried a (hdrop ▸ List.mem_cons_self ..)
  obtain ⟨hframe, hrest⟩ := readUntil_frame ha.noNul ha.fits harrived
  refine ⟨a, ?_, ?_, ?_⟩
  · have hhead := congrArg (·[0]?) hdrop
    simpa using hhead
  · rw [hframe, parseRequest_delim, ha.parses]
  · rw [hrest, hm, ← List.drop_drop, hdrop, List.drop_one, List.tail_cons]
    rfl

theorem replyBytes_append (as bs : List VarlinkReply) :
    replyBytes replyToVec (as ++ bs) = replyBytes replyToVec as ++ replyBytes replyToVec bs :=
  List.flatMap_append ..

/-- A request that has not been served is the last one, and nothing is pending
before it. -/
theorem Expecting.serve {a : Asked} {pending frames : List VarlinkReply} (h : Expecting l pending)
    (ha : l.asked[l.served.length]? = some a) (hproper : Proper (a.request, frames))
    (reader : BufReader UInt8) :
    pending = [] ∧ Expecting { l with reader, served := l.served ++ [(a.request, frames)] } frames := by
  have hlt : l.served.length < l.asked.length := (List.getElem?_eq_some_iff.mp ha).1
  rw [Expecting] at h ⊢
  cases hw : l.waiting with
  | idle =>
    simp only [hw] at h
    omega
  | call =>
    simp only [hw] at h ⊢
    obtain ⟨q, hq, hkind, hcount, ⟨hserved, hnil⟩ | ⟨hserved, -⟩⟩ := h
    · obtain rfl : a = q := Option.some.inj (ha.symm.trans (hserved ▸ hq))
      refine ⟨hnil, a, hq, hkind, hcount, Or.inr ⟨?_, ?_⟩⟩
      · rw [List.length_append, hcount, hserved]
        rfl
      · rw [← hserved, List.getElem?_concat_length]
    · omega
  | stream messages =>
    simp only [hw] at h ⊢
    obtain ⟨q, hq, hkind, hcount, ⟨hserved, hnil, rfl⟩ | ⟨hserved, -⟩⟩ := h
    · obtain rfl : a = q := Option.some.inj (ha.symm.trans (hserved ▸ hq))
      refine ⟨hnil, a, hq, hkind, hcount, Or.inr ⟨?_, hproper.terminated, frames, ?_, rfl⟩⟩
      · rw [List.length_append, hcount, hserved]
        rfl
      · rw [← hserved, List.getElem?_concat_length]
    · omega

/-- The task has read the request `a` and answered it with `frames`. -/
theorem LinkOk.serve (h : LinkOk toVec fromSlice requestFromSlice replyToVec l c) {a : Asked}
    {frames : List VarlinkReply} {reader : BufReader UInt8} (ha : l.asked[l.served.length]? = some a)
    (hreader : reader.rest ++ l.client.sent.drop l.arrived =
      requestBytes toVec (l.asked.drop (l.served.length + 1)))
    (hproper : Proper (a.request, frames))
    (hcarries : ∀ r ∈ frames, CarriesReply fromSlice replyToVec r)
    (hsent : c'.sent = c.sent ++ frames ∨ l.closed = true ∧ c'.sent = c.sent)
    (hserving : l.closed = false → c'.phase = .serving) :
    LinkOk toVec fromSlice requestFromSlice replyToVec
      { l with reader, served := l.served ++ [(a.request, frames)] } c' := by
  refine ⟨h.arrived, ?_, h.carried, ?_, fun j p hp => ?_, ?_, fun j b hb => ?_, fun hopen => ?_⟩
  · refine Nat.le_trans h.delivered ?_
    rcases hsent with hsent | ⟨-, hsent⟩
    · rw [hsent, replyBytes_append, List.length_append]
      exact Nat.le_add_right _ _
    · rw [hsent]
  · rw [List.length_append]
    exact hreader
  · rcases getElem?_concat_cases hp with hp | ⟨rfl, rfl⟩
    · exact h.served j p hp
    · exact ⟨a, ha, rfl⟩
  · exact List.forall_mem_append.mpr ⟨h.proper, List.forall_mem_singleton.mpr hproper⟩
  · obtain ⟨q, fs, hq, hfs, hanswer⟩ := h.answers j b hb
    exact ⟨q, fs, hq, getElem?_append_some hfs _, hanswer⟩
  · obtain ⟨-, pending, hcarried, hexpect, hbytes⟩ := h.opened hopen
    obtain ⟨rfl, hnext⟩ := hexpect.serve ha hproper reader
    have hwritten : c'.sent = c.sent ++ frames := by
      rcases hsent with hsent | ⟨hclosed, -⟩
      · exact hsent
      · rw [hopen] at hclosed
        cases hclosed
    refine ⟨hserving hopen, frames, hcarries, hnext, ?_⟩
    rw [hwritten, replyBytes_append, List.drop_append_of_le_length h.delivered, ← List.append_assoc,
      hbytes]
    rfl

/-! ### Runs -/

section
variable (toVec : Json → List UInt8) (fromSlice : List UInt8 → Option Json)
  (requestFromSlice : List UInt8 → Option VarlinkRequest) (replyToVec : VarlinkReply → List UInt8)

structure Ok (s : State) : Prop where
  length : s.links.length = s.daemon.conns.length
  links : ∀ (i : ℕ) l c, s.links[i]? = some l → s.daemon.conns[i]? = some c →
    LinkOk toVec fromSlice requestFromSlice replyToVec l c

end

variable {s : State}

theorem Ok.conn (h : Ok toVec fromSlice requestFromSlice replyToVec s) {i : ℕ} {l : Link}
    (hl : s.links[i]? = some l) :
    ∃ c, s.daemon.conns[i]? = some c := by
  have hi := (List.getElem?_eq_some_iff.mp hl).1
  rw [h.length] at hi
  exact ⟨_, List.getElem?_eq_getElem hi⟩

/-- A step on link `i` alone that keeps the invariant of a link. -/
theorem Ok.modify (h : Ok toVec fromSlice requestFromSlice replyToVec s) {i : ℕ} {f : Link → Link}
    (hf : ∀ l c, s.links[i]? = some l → s.daemon.conns[i]? = some c →
      LinkOk toVec fromSlice requestFromSlice replyToVec l c →
      LinkOk toVec fromSlice requestFromSlice replyToVec (f l) c) :
    Ok toVec fromSlice requestFromSlice replyToVec { s with links := s.links.modify i f } := by
  refine ⟨(List.length_modify ..).trans h.length, fun j l c hl hc => ?_⟩
  rw [List.getElem?_modify] at hl
  obtain ⟨l₀, hl₀, rfl⟩ := Option.map_eq_some_iff.mp hl
  split
  · rename_i hij
    subst hij
    exact hf l₀ c hl₀ hc (h.links i l₀ c hl₀ hc)
  · exact h.links j l₀ c hl₀ hc

/-- A step of the daemon that writes nothing and, of the links that are open,
ends none. -/
theorem Ok.daemon (h : Ok toVec fromSlice requestFromSlice replyToVec s) {d : Daemon}
    (hlen : d.conns.length = s.daemon.conns.length)
    (hconn : ∀ (j : ℕ) c', d.conns[j]? = some c' → ∃ c, s.daemon.conns[j]? = some c ∧
      c'.sent = c.sent ∧ ∀ l, s.links[j]? = some l → l.closed = false → c.phase = .serving →
        c'.phase = .serving) :
    Ok toVec fromSlice requestFromSlice replyToVec { s with daemon := d } := by
  refine ⟨h.length.trans hlen.symm, fun j l c' hl hc' => ?_⟩
  obtain ⟨c, hc, hsent, hserving⟩ := hconn j c' hc'
  have hok := h.links j l c hl hc
  exact hok.congr hsent fun hopen => hserving l hl hopen (hok.opened hopen).serving

theorem step_hangup (parseUuid : String → Option LeaseId) (d : Daemon) (i : ℕ) :
    (Varlink.step parseUuid d (.hangup i)).conns.length = d.conns.length ∧
    ∀ (j : ℕ) c', (Varlink.step parseUuid d (.hangup i)).conns[j]? = some c' →
      ∃ c, d.conns[j]? = some c ∧ c'.sent = c.sent ∧ (j ≠ i → c' = c) := by
  simp only [Varlink.step]
  split
  · rename_i c hc
    split
    · refine ⟨List.length_set .., fun j c' hc' => ?_⟩
      rcases getElem?_set_cases hc' with ⟨rfl, rfl⟩ | hc'
      · exact ⟨c, hc, rfl, fun hne => absurd rfl hne⟩
      · exact ⟨c', hc', rfl, fun _ => rfl⟩
    · exact ⟨rfl, fun j c' hc' => ⟨c', hc', rfl, fun _ => rfl⟩⟩
  · exact ⟨rfl, fun j c' hc' => ⟨c', hc', rfl, fun _ => rfl⟩⟩

theorem step_reclaim (parseUuid : String → Option LeaseId) (d : Daemon) (i : ℕ) :
    (Varlink.step parseUuid d (.reclaim i)).conns.length = d.conns.length ∧
    ∀ (j : ℕ) c', (Varlink.step parseUuid d (.reclaim i)).conns[j]? = some c' →
      ∃ c, d.conns[j]? = some c ∧ c'.sent = c.sent ∧ (c.phase = .serving → c' = c) := by
  simp only [Varlink.step]
  split
  · rename_i c hc
    split
    · rename_i hphase
      unfold Daemon.reclaimNext
      split
      · refine ⟨List.length_set .., fun j c' hc' => ?_⟩
        rcases getElem?_set_cases hc' with ⟨rfl, rfl⟩ | hc'
        · refine ⟨c, hc, rfl, fun hserving => ?_⟩
          rw [hphase] at hserving
          cases hserving
        · exact ⟨c', hc', rfl, fun _ => rfl⟩
      · refine ⟨List.length_set .., fun j c' hc' => ?_⟩
        rcases getElem?_set_cases hc' with ⟨rfl, rfl⟩ | hc'
        · refine ⟨c, hc, rfl, fun hserving => ?_⟩
          rw [hphase] at hserving
          cases hserving
        · exact ⟨c', hc', rfl, fun _ => rfl⟩
    · exact ⟨rfl, fun j c' hc' => ⟨c', hc', rfl, fun _ => rfl⟩⟩
  · exact ⟨rfl, fun j c' hc' => ⟨c', hc', rfl, fun _ => rfl⟩⟩

theorem Ok.connect (h : Ok toVec fromSlice requestFromSlice replyToVec s) (peer : Option PeerInfo) :
    Ok toVec fromSlice requestFromSlice replyToVec
      { daemon := Varlink.step parseUuid s.daemon (.accept peer), links := s.links ++ [Link.opened] } := by
  refine ⟨?_, fun i l c hl hc => ?_⟩
  · simp only [Varlink.step, List.length_append, h.length, List.length_singleton]
  · rcases getElem?_concat_cases hl with hl' | ⟨rfl, rfl⟩
    · have hi : i < s.daemon.conns.length := h.length ▸ (List.getElem?_eq_some_iff.mp hl').1
      simp only [Varlink.step] at hc
      rw [List.getElem?_append_left hi] at hc
      exact h.links i l c hl' hc
    · simp only [Varlink.step] at hc
      rw [h.length, List.getElem?_concat_length] at hc
      cases hc
      exact linkOk_opened _ rfl rfl

theorem Ok.serve (h : Ok toVec fromSlice requestFromSlice replyToVec s) {i : ℕ} {l : Link} {c : Conn}
    {env : HandlerEnv} (written : Bool) (hl : s.links[i]? = some l) (hc : s.daemon.conns[i]? = some c)
    (hphase : c.phase = .serving) (hready : Ready maxFrame l.reader)
    (hcarries : ∀ a, l.asked[l.served.length]? = some a →
      ∀ r ∈ framesFor parseUuid s.daemon c a.request env, CarriesReply fromSlice replyToVec r) :
    Ok toVec fromSlice requestFromSlice replyToVec
      (s.serve requestFromSlice parseUuid i l c env written) := by
  have hok := h.links i l c hl hc
  obtain ⟨a, ha, hparse, hreader⟩ := hok.next hready
  have hproper := proper_framesFor parseUuid s.daemon c a.request env
  simp only [State.serve, hparse, Option.map_some, Option.toList_some, Varlink.step, hc, if_pos hphase,
    Daemon.handle]
  refine ⟨?_, fun j l' c' hl' hc' => ?_⟩
  · simp only [List.length_set, h.length]
  · by_cases hij : i = j
    · subst hij
      rw [getElem?_set_of_getElem? hl hl, if_pos rfl] at hl'
      rw [getElem?_set_of_getElem? hc hc, if_pos rfl] at hc'
      cases hl'
      cases hc'
      refine hok.serve ha hreader hproper (hcarries a ha) ?_ fun hopen => ?_
      · cases hclosed : l.closed with
        | false => exact Or.inl (by simp [framesFor])
        | true =>
          cases written with
          | true => exact Or.inl (by simp [framesFor])
          | false => exact Or.inr ⟨rfl, by simp⟩
      · simp [hopen]
    · rw [List.getElem?_set_ne hij] at hl' hc'
      exact h.links j l' c' hl' hc'

theorem Ok.step (h : Ok toVec fromSlice requestFromSlice replyToVec s) (op : Op)
    (hop : Carried toVec fromSlice requestFromSlice replyToVec parseUuid s op) :
    Ok toVec fromSlice requestFromSlice replyToVec
      (step toVec fromSlice requestFromSlice replyToVec parseUuid s op) := by
  cases op with
  | connect peer => exact h.connect peer
  | ask i a => exact h.modify fun l c hl _ hok => hok.ask hop.1 (hop.2 l hl)
  | deliverRequest i n => exact h.modify fun l c _ _ hok => hok.deliverRequest n
  | serve i env written =>
    simp only [Session.step]
    split
    · rename_i l c hl hc
      split
      · rename_i hready
        exact h.serve written hl hc hready.1 hready.2 fun a ha => hop l c a hl hc ha
      · exact h
    · exact h
  | deliverReply i n =>
    simp only [Session.step]
    split
    · rename_i c hc
      refine h.modify fun l c' _ hc' hok => ?_
      obtain rfl : c = c' := Option.some.inj (hc.symm.trans hc')
      exact hok.deliverReply n
    · exact h
  | read i => exact h.modify fun l c _ _ hok => hok.read
  | close i => exact h.modify fun l c _ _ hok => hok.close
  | hangup i =>
    simp only [Session.step]
    split
    · rename_i l hl
      split
      · rename_i hend
        obtain ⟨hlen, hconn⟩ := step_hangup parseUuid s.daemon i
        refine h.daemon hlen fun j c' hc' => ?_
        obtain ⟨c, hc, hsent, hsame⟩ := hconn j c' hc'
        refine ⟨c, hc, hsent, fun l' hl' hopen hserving => ?_⟩
        by_cases hij : j = i
        · -- the link that is hung up has been closed
          subst hij
          rw [hl] at hl'
          cases hl'
          rw [hopen] at hend
          cases hend.1
        · rw [hsame hij]
          exact hserving
      · exact h
    · exact h
  | reclaim i =>
    obtain ⟨hlen, hconn⟩ := step_reclaim parseUuid s.daemon i
    refine h.daemon hlen fun j c' hc' => ?_
    obtain ⟨c, hc, hsent, hsame⟩ := hconn j c' hc'
    refine ⟨c, hc, hsent, fun _ _ _ hserving => ?_⟩
    rw [hsame hserving]
    exact hserving
  | others arbiter => exact ⟨h.length, h.links⟩

theorem ok_start (T : HardwareTopology) : Ok toVec fromSlice requestFromSlice replyToVec (start T) :=
  ⟨rfl, fun i l c hl => by cases hl⟩

/-- No reply is lost, repeated, swapped or given to another client: in every
interleaving of any number of clients, their connections and other users of the
arbiter, if every message has no NUL, is below its limit of 1 MiB and is read back
as it was written, and no client asks for more behind a `call` of the stream, then
the requests that a task serves are those that its client has made, in this
order, and every answer that a client gets is that of the frames which its own
request was served with. -/
theorem answers_own_requests (toVec : Json → List UInt8) (fromSlice : List UInt8 → Option Json)
    (requestFromSlice : List UInt8 → Option VarlinkRequest) (replyToVec : VarlinkReply → List UInt8)
    (parseUuid : String → Option LeaseId) (T : HardwareTopology) (ops : List Op)
    (hcarried : Along (step toVec fromSlice requestFromSlice replyToVec parseUuid)
      (Carried toVec fromSlice requestFromSlice replyToVec parseUuid) (start T) ops)
    (i : ℕ) (l : Link)
    (hl : (exec (step toVec fromSlice requestFromSlice replyToVec parseUuid) (start T) ops).links[i]? =
      some l) :
    l.served.map Prod.fst <+: l.asked.map Asked.request ∧
    ∀ (j : ℕ) a, l.answers[j]? = some a → ∃ q frames, l.asked[j]? = some q ∧
      l.served[j]? = some (q.request, frames) ∧ q.kind.answer frames = some a := by
  have hok : Ok toVec fromSlice requestFromSlice replyToVec
      (exec (step toVec fromSlice requestFromSlice replyToVec parseUuid) (start T) ops) :=
    exec_inv_along _ (fun _ op hop h => h.step op hop) _ ops (ok_start T) hcarried
  obtain ⟨c, hc⟩ := hok.conn hl
  have hlink := hok.links i l c hl hc
  refine ⟨?_, hlink.answers⟩
  rw [List.prefix_iff_getElem?]
  intro j hj
  rw [List.length_map] at hj
  obtain ⟨q, hq, hreq⟩ := hlink.served j _ (List.getElem?_eq_getElem hj)
  rw [List.getElem?_map, hq, Option.map_some, List.getElem_map, hreq]

/-! ### A request that is refused -/

def yieldAsked : Asked := ⟨.call, "io.systemd.inferenced1.Yield", none⟩

def yieldText : List UInt8 :=
  Utf8.ascii "\x7b\"method\":\"io.systemd.inferenced1.Yield\",\"parameters\":\x7b\x7d\x7d".toList

def refusalText : List UInt8 :=
  Utf8.ascii ("\x7b\"parameters\":\x7b\"parameter\":\"lease_id\"\x7d," ++
    "\"error\":\"org.varlink.service.InvalidParameter\"\x7d").toList

def yieldToVec : Json → List UInt8
  | .object [("method", .string _), ("parameters", .object [])] => yieldText
  | _ => []

def yieldFromSlice (bytes : List UInt8) : Option VarlinkRequest :=
  if bytes = yieldText then some yieldAsked.request else none

def refusalToVec (r : VarlinkReply) : List UInt8 :=
  match r.error with
  | some "org.varlink.service.InvalidParameter" => refusalText
  | _ => []

def refusalFromSlice (bytes : List UInt8) : Option Json :=
  if bytes = refusalText then some (replyJson (invalidParameter "lease_id")) else none

def sampleHandlerEnv : HandlerEnv :=
  { toCallEnv := sampleEnv 0, modelOrder := IterOrder.stored, now := 0 }

/-- Request and reply both arrive in two pieces. -/
def refusedRun : List Op :=
  [.connect none, .ask 0 yieldAsked, .deliverRequest 0 30, .deliverRequest 0 100,
   .serve 0 sampleHandlerEnv true, .deliverReply 0 20, .deliverReply 0 200, .read 0]

theorem carried_refusedRun :
    Along (step yieldToVec refusalFromSlice yieldFromSlice refusalToVec fun _ => none)
      (Carried yieldToVec refusalFromSlice yieldFromSlice refusalToVec fun _ => none)
      (start gpuTopology) refusedRun := by
  refine ⟨trivial, ⟨⟨by decide, by decide, rfl⟩, ?_⟩, trivial, trivial, ?_, trivial, trivial, trivial, trivial⟩
  · intro l hl b hb
    cases hl
    cases hb
  · intro l c a hl hc ha r hr
    cases hl
    cases hc
    cases ha
    have hframes : r ∈ [invalidParameter "lease_id"] := hr
    rw [List.mem_singleton.mp hframes]
    exact ⟨by decide, by decide, rfl⟩

theorem answers_own_requests_refusedRun :
    ∃ l, (exec (step yieldToVec refusalFromSlice yieldFromSlice refusalToVec fun _ => none)
        (start gpuTopology) refusedRun).links[0]? = some l ∧ l.answers.length = 1 ∧
      ∀ a, l.answers[0]? = some a → ∃ q frames, l.asked[0]? = some q ∧
        l.served[0]? = some (q.request, frames) ∧ q.kind.answer frames = some a := by
  refine ⟨_, rfl, by decide +kernel, ?_⟩
  exact (answers_own_requests yieldToVec refusalFromSlice yieldFromSlice refusalToVec (fun _ => none)
    gpuTopology refusedRun carried_refusedRun 0 _ rfl).2 0
end Inferenced.Session
