import Inferenced.System
import Inferenced.Varlink.Reclaim

/-!
# Answers to requests

Whether a reply is written is decided twice (varlink/mod.rs:76-88): `handle_method`
finds a handler by the exact name behind the interface, and a method without a
reply is reported as not found unless its name contains `StreamInference`
anywhere. The flag `oneway` of a request is decoded and not looked at.
-/

namespace Inferenced.Varlink
open Lib Arbiter

variable {parseUuid : String → Option LeaseId} {d : Daemon} {i : ℕ} {c : Conn}

/-- One terminal frame; only `StreamInference` has others before it, which all
announce another one. -/
def AnsweredOnce (method : String) (frames : List VarlinkReply) : Prop :=
  ∃ stream last, frames = stream ++ [last] ∧ last.continues ≠ some true ∧
    (∀ frame ∈ stream, frame.continues = some true) ∧
    (stream ≠ [] → methodOf method = some .streamInference)

def Answered (req : VarlinkRequest) (frames : List VarlinkReply) : Prop :=
  if req.oneway = some true then frames = [] else AnsweredOnce req.method frames

/-- No handler knows the method, and the report of it is suppressed. -/
def Unreported (method : String) : Prop :=
  methodOf method = none ∧ Text.contains method.toList "StreamInference".toList = true

instance (method : String) : Decidable (Unreported method) := inferInstanceAs (Decidable (_ ∧ _))

/-! ### One request -/

structure RepliesOnce (h : Handled) : Prop where
  reply : ∃ r, h.reply = some r ∧ r.continues = none
  streamed : h.streamed = []

theorem RepliesOnce.answered {h : Handled} (hr : RepliesOnce h) (method : String) :
    AnsweredOnce method (h.frames method) := by
  obtain ⟨r, hreply, hcont⟩ := hr.reply
  refine ⟨[], r, ?_, ?_, List.forall_mem_nil _, fun h => absurd rfl h⟩
  · rw [Handled.frames, hr.streamed, hreply]
  · rw [hcont]
    exact fun h => by cases h

theorem repliesOnce_leaseCall (call : ArbiterState → LeaseId → Outcome Unit) (errorName : String)
    (params : Option Json) (s : ArbiterState) (activeLeases : List LeaseId) :
    RepliesOnce (handleLeaseCall parseUuid call errorName params s activeLeases) := by
  unfold handleLeaseCall
  split
  · exact ⟨⟨_, rfl, rfl⟩, rfl⟩
  · refine ⟨⟨_, rfl, ?_⟩, rfl⟩
    split <;> rfl

theorem repliesOnce_runMethod {m : Method} (hm : m ≠ .streamInference) (params : Option Json)
    (s : ArbiterState) (activeLeases : List LeaseId) (peerInfo : Option PeerInfo) (env : HandlerEnv) :
    RepliesOnce (runMethod parseUuid m params s activeLeases peerInfo env) := by
  cases m with
  | getStatus => exact ⟨⟨_, rfl, rfl⟩, rfl⟩
  | listPlanes => exact ⟨⟨_, rfl, rfl⟩, rfl⟩
  | getTopology => exact ⟨⟨_, rfl, rfl⟩, rfl⟩
  | getPressure => exact ⟨⟨_, rfl, rfl⟩, rfl⟩
  | listLeases => exact ⟨⟨_, rfl, rfl⟩, rfl⟩
  | listModels => exact ⟨⟨_, rfl, rfl⟩, rfl⟩
  | acquireLease =>
    simp only [runMethod, handleAcquireLease]
    cases params with
    | none => exact ⟨⟨_, rfl, rfl⟩, rfl⟩
    | some p =>
      dsimp only
      split <;> exact ⟨⟨_, rfl, rfl⟩, rfl⟩
  | releaseLease =>
    simp only [runMethod, handleReleaseLease]
    split
    · exact ⟨⟨_, rfl, rfl⟩, rfl⟩
    · split <;> exact ⟨⟨_, rfl, rfl⟩, rfl⟩
  | yield => exact repliesOnce_leaseCall _ _ params s activeLeases
  | freeze => exact repliesOnce_leaseCall _ _ params s activeLeases
  | thaw => exact repliesOnce_leaseCall _ _ params s activeLeases
  | registerModel =>
    refine ⟨⟨_, rfl, ?_⟩, rfl⟩
    cases params <;> rfl
  | evictModel =>
    refine ⟨⟨_, rfl, ?_⟩, rfl⟩
    cases params with
    | none => rfl
    | some p =>
      simp only [handleEvictModel]
      split
      · rfl
      · dsimp only
        split <;> rfl
  | pinModel =>
    refine ⟨⟨_, rfl, ?_⟩, rfl⟩
    cases params with
    | none => rfl
    | some p =>
      simp only [handlePinModel]
      split
      · rfl
      · dsimp only
        split <;> rfl
  | streamInference => exact absurd rfl hm

theorem handleStreamInference_frames (params : Option Json) :
    ∃ stream last, handleStreamInference params = stream ++ [last] ∧ last.continues = some false ∧
      ∀ frame ∈ stream, frame.continues = some true := by
  refine ⟨(handleStreamInference params).take 3, _, rfl, rfl, ?_⟩
  intro frame hframe
  simp only [handleStreamInference, List.zipIdx_cons, List.zipIdx_nil, List.map_cons, List.map_nil,
    List.take_succ_cons, List.take_zero, List.mem_cons, List.not_mem_nil, or_false] at hframe
  rcases hframe with rfl | rfl | rfl <;> rfl

theorem ofName_streamInference {name : String} (h : Method.ofName name = some .streamInference) :
    name = "StreamInference" := by
  unfold Method.ofName at h
  split at h
  all_goals first | rfl | cases h

/-- The stream is never reported as not found. -/
theorem contains_streamInference {method : String} (h : methodOf method = some .streamInference) :
    Text.contains method.toList "StreamInference".toList = true := by
  obtain ⟨sub, hsub, hname⟩ := Option.bind_eq_some_iff.mp h
  have hlist : sub = "StreamInference".toList := by
    rw [← ofName_streamInference hname, String.toList_ofList]
  have hsuffix : sub <:+ method.toList := by
    rcases Option.or_eq_some_iff.mp hsub with hstrip | ⟨-, hstrip⟩
    · exact Text.stripPrefix_suffix hstrip
    · exact Text.stripPrefix_suffix hstrip
  rw [hlist] at hsuffix
  exact decide_eq_true hsuffix.isInfix

theorem handleMethod_frames (method : String) (params : Option Json) (s : ArbiterState)
    (activeLeases : List LeaseId) (peerInfo : Option PeerInfo) (env : HandlerEnv) :
    (Unreported method ∧
      (handleMethod parseUuid method params s activeLeases peerInfo env).frames method = []) ∨
    (¬ Unreported method ∧ AnsweredOnce method
      ((handleMethod parseUuid method params s activeLeases peerInfo env).frames method)) := by
  unfold handleMethod
  cases hm : methodOf method with
  | none =>
    cases hc : Text.contains method.toList "StreamInference".toList with
    | true =>
      refine Or.inl ⟨⟨hm, hc⟩, ?_⟩
      simp only [Handled.frames, hc, if_true, List.append_nil]
    | false =>
      refine Or.inr ⟨fun h => ?_, [], makeMethodNotFound method, ?_, fun h => ?_,
        List.forall_mem_nil _, fun h => absurd rfl h⟩
      · rw [Unreported, hc] at h
        cases h.2
      · simp only [Handled.frames, hc, Bool.false_eq_true, if_false]
      · cases h
  | some m =>
    refine Or.inr ⟨fun h => ?_, ?_⟩
    · rw [Unreported, hm] at h
      cases h.1
    · by_cases hs : m = .streamInference
      · subst hs
        obtain ⟨stream, last, hframes, hlast, hstream⟩ := handleStreamInference_frames params
        refine ⟨stream, last, ?_, ?_, hstream, fun _ => hm⟩
        · simp only [runMethod, Handled.frames, contains_streamInference hm, if_true, List.append_nil,
            hframes]
        · rw [hlast]
          decide
      · exact (repliesOnce_runMethod hs params s activeLeases peerInfo env).answered method

theorem serve_frames (parseUuid : String → Option LeaseId) (req : VarlinkRequest) (s : ArbiterState) (activeLeases : List LeaseId)
    (peerInfo : Option PeerInfo) (env : HandlerEnv) :
    (Unreported req.method ∧
      (serve parseUuid req s activeLeases peerInfo env).frames req.method = []) ∨
    (¬ Unreported req.method ∧ AnsweredOnce req.method
      ((serve parseUuid req s activeLeases peerInfo env).frames req.method)) := by
  have hservice : ∀ {h : Handled} {method : String}, RepliesOnce h → req.method = method →
      Text.contains method.toList "StreamInference".toList = false →
      ¬ Unreported req.method ∧ AnsweredOnce req.method (h.frames req.method) := by
    intro h method hr hmethod hc
    refine ⟨fun hu => ?_, hr.answered _⟩
    rw [Unreported, hmethod, hc] at hu
    cases hu.2
  unfold serve
  split
  · rename_i hmethod
    exact Or.inr (hservice ⟨⟨_, rfl, rfl⟩, rfl⟩ hmethod (by decide))
  · split
    · rename_i hmethod
      refine Or.inr (hservice ⟨⟨_, rfl, ?_⟩, rfl⟩ hmethod (by decide))
      unfold handleGetInterfaceDescription
      split <;> rfl
    · exact handleMethod_frames req.method req.parameters s activeLeases peerInfo env

theorem answeredOnce_ne_nil {method : String} {frames : List VarlinkReply}
    (h : AnsweredOnce method frames) : frames ≠ [] := by
  obtain ⟨stream, last, rfl, -⟩ := h
  exact List.append_ne_nil_of_right_ne_nil _ (List.cons_ne_nil _ _)

/-- A request is answered as its flag asks if and only if it is oneway exactly
when its method is unreported. -/
theorem serve_answered_iff (parseUuid : String → Option LeaseId) (req : VarlinkRequest)
    (s : ArbiterState) (activeLeases : List LeaseId) (peerInfo : Option PeerInfo) (env : HandlerEnv) :
    Answered req ((serve parseUuid req s activeLeases peerInfo env).frames req.method) ↔
      (req.oneway = some true ↔ Unreported req.method) := by
  unfold Answered
  rcases serve_frames parseUuid req s activeLeases peerInfo env with ⟨hu, h⟩ | ⟨hu, h⟩
  · split
    · rename_i hone
      exact iff_of_true h (iff_of_true hone hu)
    · rename_i hone
      exact iff_of_false (fun ha => answeredOnce_ne_nil ha h) fun hiff => hone (hiff.mpr hu)
  · split
    · rename_i hone
      exact iff_of_false (answeredOnce_ne_nil h) fun hiff => hu (hiff.mp hone)
    · rename_i hone
      exact iff_of_true h (iff_of_false hone hu)

/-! ### One connection -/

/-- The request that the step reads on connection `i`, with the frames it
writes. -/
def Daemon.exchange (parseUuid : String → Option LeaseId) (d : Daemon) (i : ℕ) :
    DaemonOp → Option (VarlinkRequest × List VarlinkReply)
  | .frame conn (some req) env true =>
    if conn = i then
      (d.conns[i]?).map fun c =>
        (req, (serve parseUuid req d.arbiter c.activeLeases c.peer env).frames req.method)
    else none
  | _ => none

/-- What connection `i` reads parses, what it writes arrives, and it goes on. -/
def DaemonOp.Undisturbed (i : ℕ) : DaemonOp → Prop
  | .frame conn request _ written => conn = i → request.isSome = true ∧ written = true
  | .hangup conn => conn ≠ i
  | _ => True

def DaemonOp.requests (i : ℕ) : DaemonOp → List VarlinkRequest
  | .frame conn (some req) _ _ => if conn = i then [req] else []
  | _ => []

theorem step_other {op : DaemonOp} (hc : d.conns[i]? = some c) (hphase : c.phase = .serving)
    (hframe : ∀ conn request env written, op = .frame conn request env written → conn ≠ i)
    (hhangup : ∀ conn, op = .hangup conn → conn ≠ i) : (step parseUuid d op).conns[i]? = some c := by
  have hset : ∀ {j : ℕ} (b : Conn), j ≠ i → (d.conns.set j b)[i]? = some c := by
    intro j b hj
    rw [List.getElem?_set_ne hj]
    exact hc
  -- a task that reclaims leases is not this one, which still serves
  have hreclaiming : ∀ {j : ℕ} {b : Conn}, d.conns[j]? = some b → b.phase = .reclaiming → j ≠ i := by
    rintro j b hb hr rfl
    rw [hc] at hb
    cases hb
    rw [hphase] at hr
    cases hr
  cases step_case parseUuid d op with
  | idle hstep ho =>
    rw [hstep]
    exact hc
  | accepted peer hop hstep ho =>
    rw [hstep, List.getElem?_append_left (List.getElem?_eq_some_iff.mp hc).1]
    exact hc
  | ended conn b hb hop hstep ho =>
    rw [hstep]
    rcases hop with ⟨env, written, hop⟩ | hop
    · exact hset _ (hframe conn none env written hop)
    · exact hset _ (hhangup conn hop)
  | handled conn b req env written hb hop hstep ho =>
    rw [hstep]
    exact hset _ (hframe conn (some req) env written hop)
  | reclaimed conn b id rest hb hr hlist hstep ho =>
    rw [hstep]
    exact hset _ (hreclaiming hb hr)
  | finished conn b hb hr hlist hstep ho =>
    rw [hstep]
    exact hset _ (hreclaiming hb hr)

theorem step_request (parseUuid : String → Option LeaseId) (req : VarlinkRequest) (env : HandlerEnv)
    (hc : d.conns[i]? = some c) (hphase : c.phase = .serving) :
    ∃ c', (step parseUuid d (.frame i (some req) env true)).conns[i]? = some c' ∧
      c'.phase = .serving ∧ c'.sent = c.sent ++
        (serve parseUuid req d.arbiter c.activeLeases c.peer env).frames req.method := by
  simp only [step, hc, if_pos hphase, Daemon.handle]
  refine ⟨_, (Runs.getElem?_set_of_getElem? hc hc).trans (congrArg some (if_pos rfl)), ?_, rfl⟩
  simp

theorem step_exchange {op : DaemonOp} (hc : d.conns[i]? = some c) (hphase : c.phase = .serving)
    (hop : op.Undisturbed i) :
    (∃ c', (step parseUuid d op).conns[i]? = some c' ∧ c'.phase = .serving ∧
      c'.sent = c.sent ++ (d.exchange parseUuid i op).toList.flatMap Prod.snd) ∧
      (d.exchange parseUuid i op).toList.map Prod.fst = op.requests i := by
  by_cases hmine : ∃ request env written, op = .frame i request env written
  · obtain ⟨request, env, written, rfl⟩ := hmine
    obtain ⟨hsome, rfl⟩ := hop rfl
    obtain ⟨req, rfl⟩ := Option.isSome_iff_exists.mp hsome
    have hex : d.exchange parseUuid i (.frame i (some req) env true) =
        some (req, (serve parseUuid req d.arbiter c.activeLeases c.peer env).frames req.method) := by
      simp only [Daemon.exchange, if_true, hc, Option.map_some]
    rw [hex]
    refine ⟨?_, ?_⟩
    · obtain ⟨c', hc', hphase', hsent⟩ := step_request parseUuid req env hc hphase
      exact ⟨c', hc', hphase', hsent.trans (by simp)⟩
    · simp [DaemonOp.requests]
  · have hne : ∀ conn request env written, op = .frame conn request env written → conn ≠ i := by
      rintro conn request env written rfl rfl
      exact hmine ⟨request, env, written, rfl⟩
    have hex : d.exchange parseUuid i op = none ∧ op.requests i = [] := by
      cases op with
      | frame conn request env written =>
        have hconn := hne conn request env written rfl
        cases request with
        | none => exact ⟨rfl, rfl⟩
        | some req => cases written <;> simp [Daemon.exchange, DaemonOp.requests, hconn]
      | _ => exact ⟨rfl, rfl⟩
    have hsame : (step parseUuid d op).conns[i]? = some c := by
      refine step_other hc hphase hne fun conn hh => ?_
      rw [hh] at hop
      exact hop
    rw [hex.1, hex.2]
    exact ⟨⟨c, hsame, hphase, (List.append_nil _).symm⟩, rfl⟩

end Inferenced.Varlink

namespace Inferenced
open Varlink

def SystemOp.Undisturbed (i : ℕ) : SystemOp → Prop
  | .varlink op => op.Undisturbed i
  | _ => True

def SystemOp.requests (i : ℕ) : SystemOp → List VarlinkRequest
  | .varlink op => op.requests i
  | _ => []

namespace System
open Lib Lib.Runs Arbiter

variable {fromSlice : List UInt8 → Option Json} {parseUuid : String → Option LeaseId} {s : System}
  {i : ℕ} {c : Varlink.Conn}

/-! ### Runs -/

section
variable (fromSlice : List UInt8 → Option Json) (parseUuid : String → Option LeaseId) (i : ℕ)

def exchange (s : System) : SystemOp → Option (VarlinkRequest × List VarlinkReply)
  | .varlink op => s.varlink.exchange parseUuid i op
  | _ => none

/-- The requests on connection `i` of a run, each with the frames that are written
for it. -/
def transcript : System → List SystemOp → List (VarlinkRequest × List VarlinkReply)
  | _, [] => []
  | s, op :: ops => (s.exchange parseUuid i op).toList ++ transcript (s.step fromSlice parseUuid op) ops

/-- What is written on connection `i` by now. -/
def sentOn (s : System) : List VarlinkReply := (s.conns[i]?).elim [] (·.sent)

end

theorem step_exchange (fromSlice : List UInt8 → Option Json) (parseUuid : String → Option LeaseId)
    {op : SystemOp} (hc : s.conns[i]? = some c) (hphase : c.phase = .serving)
    (hop : op.Undisturbed i) :
    (∃ c', (s.step fromSlice parseUuid op).conns[i]? = some c' ∧ c'.phase = .serving ∧
      c'.sent = c.sent ++ (s.exchange parseUuid i op).toList.flatMap Prod.snd) ∧
      (s.exchange parseUuid i op).toList.map Prod.fst = op.requests i := by
  have hidle : s.conns[i]? = some c ∧ c.phase = .serving ∧ c.sent = c.sent ++ [] :=
    ⟨hc, hphase, (List.append_nil _).symm⟩
  cases op with
  | varlink op => exact Varlink.step_exchange (d := s.varlink) hc hphase hop
  | sentry op =>
    refine ⟨⟨c, ?_, hphase, (List.append_nil _).symm⟩, rfl⟩
    rw [show (s.step fromSlice parseUuid (.sentry op)).conns = s.conns from (stepSentry_frame s op).1]
    exact hc
  | _ => exact ⟨⟨c, hidle⟩, rfl⟩

theorem run_transcript (fromSlice : List UInt8 → Option Json) (parseUuid : String → Option LeaseId)
    (ops : List SystemOp) (hc : s.conns[i]? = some c) (hphase : c.phase = .serving)
    (hops : ∀ op ∈ ops, op.Undisturbed i) :
    (∃ c', (exec (step fromSlice parseUuid) s ops).conns[i]? = some c' ∧ c'.phase = .serving ∧
      c'.sent = c.sent ++ (transcript fromSlice parseUuid i s ops).flatMap Prod.snd) ∧
      (transcript fromSlice parseUuid i s ops).map Prod.fst = ops.flatMap (·.requests i) := by
  induction ops generalizing s c with
  | nil => exact ⟨⟨c, hc, hphase, (List.append_nil _).symm⟩, rfl⟩
  | cons op ops ih =>
    obtain ⟨hop, hops⟩ := List.forall_mem_cons.mp hops
    obtain ⟨⟨c', hc', hphase', hsent⟩, hreq⟩ :=
      step_exchange fromSlice parseUuid hc hphase hop
    obtain ⟨⟨c'', hc'', hphase'', hsent'⟩, hreqs⟩ := ih hc' hphase' hops
    refine ⟨⟨c'', hc'', hphase'', ?_⟩, ?_⟩
    · rw [hsent', hsent, transcript, List.flatMap_append, List.append_assoc]
    · rw [transcript, List.map_append, hreq, hreqs, List.flatMap_cons]

theorem exchange_served {op : SystemOp} {e : VarlinkRequest × List VarlinkReply}
    (h : s.exchange parseUuid i op = some e) :
    ∃ a activeLeases peer env, e.2 = (serve parseUuid e.1 a activeLeases peer env).frames e.1.method := by
  cases op with
  | varlink op =>
    simp only [exchange] at h
    unfold Daemon.exchange at h
    split at h
    · split at h
      · obtain ⟨c, -, rfl⟩ := Option.map_eq_some_iff.mp h
        exact ⟨_, _, _, _, rfl⟩
      · cases h
    · cases h
  | _ => cases h

theorem transcript_served {ops : List SystemOp} {e : VarlinkRequest × List VarlinkReply}
    (h : e ∈ transcript fromSlice parseUuid i s ops) :
    ∃ a activeLeases peer env, e.2 = (serve parseUuid e.1 a activeLeases peer env).frames e.1.method := by
  induction ops generalizing s with
  | nil => cases h
  | cons op ops ih =>
    rcases List.mem_append.mp h with h | h
    · exact exchange_served (Option.mem_toList.mp h)
    · exact ih h

/-- The output on connection `i` is, in the order of the requests, what each
request asks for. -/
def AnsweredInOrder (fromSlice : List UInt8 → Option Json) (parseUuid : String → Option LeaseId)
    (i : ℕ) (s : System) (ops : List SystemOp) : Prop :=
  (transcript fromSlice parseUuid i s ops).map Prod.fst = ops.flatMap (·.requests i) ∧
  sentOn i (exec (step fromSlice parseUuid) s ops) =
    sentOn i s ++ (transcript fromSlice parseUuid i s ops).flatMap Prod.snd ∧
  ∀ e ∈ transcript fromSlice parseUuid i s ops, Answered e.1 e.2

/-- Every request is answered exactly once: for every sequence of requests on one
connection, whatever the other clients do meanwhile, the output is in order one
terminal frame for each request that is not oneway, behind the frames of a
stream, and nothing for each that is, if and only if the oneway requests are
exactly those whose method is unknown and contains `StreamInference`. -/
theorem answered_in_order_iff (fromSlice : List UInt8 → Option Json)
    (parseUuid : String → Option LeaseId) (s : System) (i : ℕ) (c : Varlink.Conn)
    (hc : s.conns[i]? = some c) (hphase : c.phase = .serving) (ops : List SystemOp)
    (hops : ∀ op ∈ ops, op.Undisturbed i) :
    AnsweredInOrder fromSlice parseUuid i s ops ↔
      ∀ req ∈ ops.flatMap (·.requests i),
        (req.oneway = some true ↔ Unreported req.method) := by
  obtain ⟨⟨c', hc', -, hsent⟩, hreqs⟩ := run_transcript fromSlice parseUuid ops hc hphase hops
  have hout : sentOn i (exec (step fromSlice parseUuid) s ops) =
      sentOn i s ++ (transcript fromSlice parseUuid i s ops).flatMap Prod.snd := by
    rw [sentOn, sentOn, hc, hc']
    exact hsent
  have hiff : ∀ e ∈ transcript fromSlice parseUuid i s ops,
      (Answered e.1 e.2 ↔ (e.1.oneway = some true ↔ Unreported e.1.method)) := by
    intro e he
    obtain ⟨a, activeLeases, peer, env, hframes⟩ := transcript_served he
    rw [hframes]
    exact serve_answered_iff parseUuid e.1 a activeLeases peer env
  rw [← hreqs, List.forall_mem_map]
  constructor
  · exact fun h e he => (hiff e he).mp (h.2.2 e he)
  · exact fun h => ⟨hreqs, hout, fun e he => (hiff e he).mpr (h e he)⟩

def oneClient : System :=
  exec (step (fun _ => none) (fun _ => none)) (start gpuTopology none) [.varlink (.accept none)]

def sampleCalls : List SystemOp :=
  [.varlink (sampleFrame 0 0 "GetStatus" [] true),
   .varlink (sampleFrame 0 1 "StreamInference" [("prompt", .string "hi")] true),
   .varlink (sampleFrame 0 2 "Unknown" [] true)]

theorem answered_in_order_iff_sampleCalls :
    (∀ req ∈ sampleCalls.flatMap (·.requests 0),
      (req.oneway = some true ↔ Unreported req.method)) ∧
    AnsweredInOrder (fun _ => none) (fun _ => none) 0 oneClient sampleCalls := by
  have hcalls : ∀ req ∈ sampleCalls.flatMap (·.requests 0),
      (req.oneway = some true ↔ Unreported req.method) := by decide
  have hops : ∀ op ∈ sampleCalls, op.Undisturbed 0 := by
    simp only [sampleCalls, List.forall_mem_cons]
    exact ⟨fun _ => ⟨rfl, rfl⟩, fun _ => ⟨rfl, rfl⟩, fun _ => ⟨rfl, rfl⟩, List.forall_mem_nil _⟩
  exact ⟨hcalls, (answered_in_order_iff _ _ oneClient 0 _ rfl rfl sampleCalls hops).mpr hcalls⟩

def unknownStream : List SystemOp := [.varlink (sampleFrame 0 0 "StreamInferenceV2" [] true)]

def onewayStatus : List SystemOp :=
  [.varlink (.frame 0 (some { method := "io.syntrop.Inference1.GetStatus", oneway := some true })
    { toCallEnv := sampleEnv 0, modelOrder := IterOrder.stored, now := 0 } true)]

/-- A client that calls a method the daemon does not know waits for ever, and a
oneway request is answered. -/
theorem unknown_stream_unanswered :
    sentOn 0 (exec (step (fun _ => none) (fun _ => none)) oneClient unknownStream) = [] ∧
      ¬ AnsweredInOrder (fun _ => none) (fun _ => none) 0 oneClient unknownStream ∧
      (sentOn 0 (exec (step (fun _ => none) (fun _ => none)) oneClient onewayStatus)).length = 1 ∧
      ¬ AnsweredInOrder (fun _ => none) (fun _ => none) 0 oneClient onewayStatus := by
  refine ⟨rfl, fun h => ?_, rfl, fun h => ?_⟩
  · have hanswered : AnsweredOnce "io.syntrop.Inference1.StreamInferenceV2" [] :=
      h.2.2 _ (List.mem_singleton_self _)
    exact answeredOnce_ne_nil hanswered rfl
  · have hanswered := h.2.2 _ (List.mem_singleton_self _)
    cases hanswered

end System

end Inferenced
