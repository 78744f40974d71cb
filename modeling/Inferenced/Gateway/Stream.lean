import Inferenced.Gateway.LeaseLeak

/-!
# Streamed answers (gateway/handlers.rs:160-213)

A streaming request gets a task that sends the tokens of its answer one by one,
while other requests come and go. What has been sent does not stay in the state
of the gateway: `body` collects it along a run.
-/

namespace Inferenced.Gateway
open Lib Lib.Runs Arbiter Varlink

/-! ### The body of an answer -/

def tokens (prompt : String) : List String :=
  ["systemd-inferenced: ", "streaming ", "token ", "generation ", "for prompt '" ++ prompt ++ "'."]

/-- What the task puts on the channel when it runs. -/
def StreamTask.chunk (t : StreamTask) (createdAt : String) (delivered : Bool) : List Json :=
  if delivered then
    match t.phase with
    | .sending token _ => [tokenChunk t.model createdAt token]
    | .sendingFinal => [finalChunk t.model createdAt]
    | .awaitRelease => []
  else []

def Handler.chunk (h : Handler) (createdAt : String) (delivered : Bool) : List Json :=
  match h.state with
  | .streaming _ t => t.chunk createdAt delivered
  | _ => []

/-- What a step adds to the body of request `i`. -/
def GatewayState.chunk (g : GatewayState) (i : ℕ) : GatewayOp → List Json
  | .pollTask j createdAt delivered =>
    if j = i then (g.handlers[i]?).elim [] (·.chunk createdAt delivered) else []
  | _ => []

/-- The body of request `i`, as far as the run has sent it. -/
def body (i : ℕ) : GatewayState → List GatewayOp → List Json
  | _, [] => []
  | g, op :: ops => g.chunk i op ++ body i (step g op) ops

theorem body_concat (i : ℕ) (g : GatewayState) (ops : List GatewayOp) (op : GatewayOp) :
    body i g (ops ++ [op]) = body i g ops ++ (exec step g ops).chunk i op := by
  induction ops generalizing g with
  | nil => exact List.append_nil _
  | cons a ops ih =>
    simp only [List.cons_append, body, ih (step g a), List.append_assoc]
    rfl

/-- The requests of a run; handler `i` is that of the request with this
number. -/
def requests (ops : List GatewayOp) : List (Option String × Endpoint) :=
  ops.filterMap fun
    | .request authorization endpoint => some (authorization, endpoint)
    | _ => none

/-- Model, text and end mark of a chunk, as clients read them. -/
def view (chunk : Json) : Option String × Option String × Option Bool :=
  ((chunk.get "model").bind Json.asStr, (chunk.get "response").bind Json.asStr,
    (chunk.get "done").bind Json.asBool)

/-- The first `k` tokens, and the end mark if `final` is true. -/
def told (model prompt : String) (k : ℕ) (final : Bool) : List (Option String × Option String × Option Bool) :=
  ((tokens prompt).take k).map (fun token => (some model, some token, some false)) ++
    if final then [(some model, some "", some true)] else []

theorem view_tokenChunk (model createdAt token : String) :
    view (tokenChunk model createdAt token) = (some model, some token, some false) := rfl

theorem view_finalChunk (model createdAt : String) :
    view (finalChunk model createdAt) = (some model, some "", some true) := rfl

theorem told_succ {prompt token : String} {k : ℕ} {rest : List String}
    (h : (tokens prompt).drop k = token :: rest) (model : String) :
    told model prompt (k + 1) false = told model prompt k false ++ [(some model, some token, some false)] := by
  have hget : (tokens prompt)[k]? = some token := by
    rw [← List.head?_drop, h]
    rfl
  simp only [told, Bool.false_eq_true, if_false, List.append_nil, List.take_add_one, hget, Option.toList_some,
    List.map_append, List.map_cons, List.map_nil]

theorem told_final (model prompt : String) (k : ℕ) :
    told model prompt k true = told model prompt k false ++ [(some model, some "", some true)] := by
  simp only [told, if_true, Bool.false_eq_true, if_false, List.append_nil]

/-! ### One request -/

section
variable (job : Job) (prompt : String) (listening : Prop) (chunks : List Json)

/-- What has been sent of the answer of the task. While the client is listening
nothing is left out. -/
def TaskTells (t : StreamTask) : Prop :=
  t.model = job.model ∧ match t.phase with
    | .sending token rest =>
      ∃ k, (tokens prompt).drop k = token :: rest ∧ chunks.map view = told job.model prompt k false
    | .sendingFinal => ∃ k, chunks.map view = told job.model prompt k false ∧ (listening → k = 5)
    | .awaitRelease =>
      ∃ k final, chunks.map view = told job.model prompt k final ∧ (listening → k = 5 ∧ final = true)

/-- The same at any time of a request with the job `job`. -/
def Tells (h : Handler) : Prop :=
  match h.state with
  | .awaitModel j | .awaitAcquire j _ _ => j = job ∧ chunks = []
  | .awaitRelease _ _ => False
  | .streaming response t => response = .ndjson 200 ∧ TaskTells job prompt listening chunks t
  | .completed (.ndjson _) =>
    ∃ k final, chunks.map view = told job.model prompt k final ∧ (listening → k = 5 ∧ final = true)
  | .completed (.json _ _) | .dropped => chunks = []

end

variable {job : Job} {prompt : String} {listening : Prop} {chunks : List Json} {g : GatewayState}

theorem taskTells_send {t : StreamTask} (h : TaskTells job prompt listening chunks t)
    (hphase : t.phase ≠ .awaitRelease) (createdAt : String) (delivered : Bool) :
    TaskTells job prompt (listening ∧ delivered = true) (chunks ++ t.chunk createdAt delivered)
      (t.send createdAt delivered) := by
  obtain ⟨hmodel, hphases⟩ := h
  unfold TaskTells StreamTask.chunk StreamTask.send
  cases hcase : t.phase with
  | awaitRelease => exact absurd hcase hphase
  | sending token rest =>
    rw [hcase] at hphases
    obtain ⟨k, hdrop, hchunks⟩ := hphases
    cases delivered with
    | false =>
      simp only [Bool.false_eq_true, if_false, List.append_nil]
      exact ⟨hmodel, k, hchunks, fun hl => absurd hl.2 (by simp)⟩
    | true =>
      simp only [if_true, List.map_append, List.map_cons, List.map_nil, view_tokenChunk, hchunks, hmodel]
      refine ⟨trivial, ?_⟩
      rw [← told_succ hdrop]
      have hrest : (tokens prompt).drop (k + 1) = rest := by
        rw [← List.tail_drop, hdrop]
        rfl
      cases rest with
      | nil =>
        refine ⟨k + 1, rfl, fun _ => ?_⟩
        have hlen := congrArg List.length hdrop
        simp only [List.length_drop, tokens, List.length_cons, List.length_nil] at hlen
        omega
      | cons next rest => exact ⟨k + 1, hrest, rfl⟩
  | sendingFinal =>
    rw [hcase] at hphases
    obtain ⟨k, hchunks, hall⟩ := hphases
    cases delivered with
    | false =>
      simp only [Bool.false_eq_true, if_false, List.append_nil]
      exact ⟨hmodel, k, false, hchunks, fun hl => absurd hl.2 (by simp)⟩
    | true =>
      simp only [if_true, List.map_append, List.map_cons, List.map_nil, view_finalChunk, hchunks, hmodel]
      exact ⟨trivial, k, true, (told_final _ _ _).symm, fun hl => ⟨hall hl.1, rfl⟩⟩

theorem Tells.imp {h : Handler} {listening' : Prop} (ht : Tells job prompt listening chunks h)
    (himp : listening' → listening) : Tells job prompt listening' chunks h := by
  unfold Tells at ht ⊢
  cases hcase : h.state with
  | awaitModel j => rw [hcase] at ht; exact ht
  | awaitAcquire j bytes psi => rw [hcase] at ht; exact ht
  | awaitRelease j lease => rw [hcase] at ht; exact ht
  | dropped => rw [hcase] at ht; exact ht
  | streaming response t =>
    rw [hcase] at ht
    obtain ⟨hresponse, hmodel, hphases⟩ := ht
    refine ⟨hresponse, hmodel, ?_⟩
    cases hphase : t.phase with
    | sending token rest => rw [hphase] at hphases; exact hphases
    | sendingFinal =>
      rw [hphase] at hphases
      obtain ⟨k, hchunks, hall⟩ := hphases
      exact ⟨k, hchunks, fun hl => hall (himp hl)⟩
    | awaitRelease =>
      rw [hphase] at hphases
      obtain ⟨k, final, hchunks, hall⟩ := hphases
      exact ⟨k, final, hchunks, fun hl => hall (himp hl)⟩
  | completed response =>
    rw [hcase] at ht
    cases response with
    | json status value => exact ht
    | ndjson status =>
      obtain ⟨k, final, hchunks, hall⟩ := ht
      exact ⟨k, final, hchunks, fun hl => hall (himp hl)⟩

theorem Tells.told {h : Handler} (ht : Tells job prompt listening chunks h) :
    ∃ k final, chunks.map view = told job.model prompt k final := by
  unfold Tells at ht
  cases hcase : h.state with
  | awaitModel j =>
    rw [hcase] at ht
    exact ⟨0, false, by rw [ht.2]; rfl⟩
  | awaitAcquire j bytes psi =>
    rw [hcase] at ht
    exact ⟨0, false, by rw [ht.2]; rfl⟩
  | awaitRelease j lease =>
    rw [hcase] at ht
    exact ht.elim
  | dropped =>
    rw [hcase] at ht
    exact ⟨0, false, by rw [show chunks = [] from ht]; rfl⟩
  | streaming response t =>
    rw [hcase] at ht
    obtain ⟨-, -, hphases⟩ := ht
    cases hphase : t.phase with
    | sending token rest =>
      rw [hphase] at hphases
      obtain ⟨k, -, hchunks⟩ := hphases
      exact ⟨k, false, hchunks⟩
    | sendingFinal =>
      rw [hphase] at hphases
      obtain ⟨k, hchunks, -⟩ := hphases
      exact ⟨k, false, hchunks⟩
    | awaitRelease =>
      rw [hphase] at hphases
      obtain ⟨k, final, hchunks, -⟩ := hphases
      exact ⟨k, final, hchunks⟩
  | completed response =>
    rw [hcase] at ht
    cases response with
    | json status value => exact ⟨0, false, by rw [show chunks = [] from ht]; rfl⟩
    | ndjson status =>
      obtain ⟨k, final, hchunks, -⟩ := ht
      exact ⟨k, final, hchunks⟩

theorem tells_poll {h : Handler} (ht : Tells job prompt listening chunks h)
    (hjob : job.answer = .stream prompt) (a : ArbiterState) (env : PollEnv) :
    Tells job prompt listening chunks (h.poll a env).2 := by
  unfold Handler.poll
  cases hcase : h.state with
  | awaitModel j =>
    simp only [Tells, hcase] at ht
    dsimp only
    split
    · exact ht.2
    · exact ht
  | awaitAcquire j bytes psi =>
    simp only [Tells, hcase] at ht
    obtain ⟨rfl, rfl⟩ := ht
    dsimp only
    cases (acquireLease _ _ _).result with
    | error e => rfl
    | ok lease =>
      simp only [Handler.acquired, Tells, hjob]
      exact ⟨trivial, rfl, 0, rfl, rfl⟩
  | awaitRelease j lease =>
    simp only [Tells, hcase] at ht
  | streaming response t => exact ht
  | completed response => exact ht
  | dropped => exact ht

theorem tells_pollTask {h : Handler} (ht : Tells job prompt listening chunks h) (a : ArbiterState)
    (createdAt : String) (delivered : Bool) :
    Tells job prompt (listening ∧ delivered = true) (chunks ++ h.chunk createdAt delivered)
      (h.pollTask a createdAt delivered).2 := by
  unfold Handler.pollTask Handler.chunk
  cases hcase : h.state with
  | streaming response t =>
    simp only [Tells, hcase] at ht
    obtain ⟨rfl, htask⟩ := ht
    dsimp only
    cases hphase : t.phase with
    | awaitRelease =>
      simp only [StreamTask.chunk, hphase, ite_self, List.append_nil]
      simp only [TaskTells, hphase] at htask
      obtain ⟨-, k, final, hchunks, hall⟩ := htask
      exact ⟨k, final, hchunks, fun hl => hall hl.1⟩
    | sending token rest =>
      exact ⟨rfl, taskTells_send htask (by rw [hphase]; exact TaskPhase.noConfusion) createdAt delivered⟩
    | sendingFinal =>
      exact ⟨rfl, taskTells_send htask (by rw [hphase]; exact TaskPhase.noConfusion) createdAt delivered⟩
  | _ =>
    simp only [List.append_nil]
    exact ht.imp And.left

theorem tells_cancel {h : Handler} (ht : Tells job prompt listening chunks h) :
    Tells job prompt listening chunks h.cancel := by
  unfold Handler.cancel
  cases hcase : h.state with
  | awaitModel j =>
    simp only [Tells, hcase] at ht
    exact ht.2
  | awaitAcquire j bytes psi =>
    simp only [Tells, hcase] at ht
    exact ht.2
  | awaitRelease j lease =>
    simp only [Tells, hcase] at ht
  | _ => exact ht

/-- The step is no failed send of task `i`. -/
def Hears (i : ℕ) (op : GatewayOp) : Prop := ∀ createdAt, op ≠ .pollTask i createdAt false

theorem tells_step {i : ℕ} {h : Handler} (hh : g.handlers[i]? = some h)
    (ht : Tells job prompt listening chunks h) (hjob : job.answer = .stream prompt) (op : GatewayOp) :
    ∃ h', (step g op).handlers[i]? = some h' ∧
      Tells job prompt (listening ∧ Hears i op) (chunks ++ g.chunk i op) h' := by
  -- handler `j` is replaced, and nothing is sent
  have hset : ∀ {j : ℕ} {b : Handler} (f : Handler → Handler) (a : ArbiterState), g.handlers[j]? = some b →
      Tells job prompt listening chunks (f h) →
      ∃ h', (g.update j (a, f b)).handlers[i]? = some h' ∧ Tells job prompt listening chunks h' := by
    intro j b f a hb hf
    refine ⟨_, getElem?_set_of_getElem? hb hh, ?_⟩
    split
    · rename_i hij
      subst hij
      rw [hb] at hh
      cases hh
      exact hf
    · exact ht
  have hkeep : ∀ {h' : Handler}, Tells job prompt listening chunks h' → g.chunk i op = [] →
      Tells job prompt (listening ∧ Hears i op) (chunks ++ g.chunk i op) h' := by
    intro h' ht' hnone
    rw [hnone, List.append_nil]
    exact ht'.imp And.left
  cases op with
  | request authorization endpoint =>
    refine ⟨h, ?_, hkeep ht rfl⟩
    exact (List.getElem?_append_left (List.getElem?_eq_some_iff.mp hh).1).trans hh
  | poll j env =>
    simp only [step]
    cases hj : g.handlers[j]? with
    | none => exact ⟨h, hh, hkeep ht rfl⟩
    | some b =>
      obtain ⟨h', hh', ht'⟩ := hset (fun c => (c.poll g.arbiter env).2) (b.poll g.arbiter env).1 hj
        (tells_poll ht hjob g.arbiter env)
      exact ⟨h', hh', hkeep ht' rfl⟩
  | pollTask j createdAt delivered =>
    simp only [step]
    by_cases hij : j = i
    · subst hij
      simp only [hh, GatewayState.chunk, if_true, Option.elim_some]
      refine ⟨_, (getElem?_set_of_getElem? hh hh).trans (congrArg some (if_pos rfl)), ?_⟩
      refine (tells_pollTask ht g.arbiter createdAt delivered).imp fun hl => ⟨hl.1, ?_⟩
      cases delivered with
      | false => exact absurd rfl (hl.2 createdAt)
      | true => rfl
    · have hnone : g.chunk i (.pollTask j createdAt delivered) = [] := if_neg hij
      cases hj : g.handlers[j]? with
      | none => exact ⟨h, hh, hkeep ht hnone⟩
      | some b =>
        refine ⟨h, ?_, hkeep ht hnone⟩
        exact (List.getElem?_set_ne hij).trans hh
  | cancel j =>
    simp only [step]
    cases hj : g.handlers[j]? with
    | none => exact ⟨h, hh, hkeep ht rfl⟩
    | some b =>
      obtain ⟨h', hh', ht'⟩ := hset Handler.cancel g.arbiter hj (tells_cancel ht)
      exact ⟨h', hh', hkeep ht' rfl⟩
  | other o => exact ⟨h, hh, hkeep ht rfl⟩
  | setRegistry registry => exact ⟨h, hh, hkeep ht rfl⟩

/-! ### Runs -/

theorem requests_concat (ops : List GatewayOp) (op : GatewayOp) :
    requests (ops ++ [op]) = requests ops ++ requests [op] := List.filterMap_append

theorem length_handlers (ops : List GatewayOp) (T : HardwareTopology) (apiToken : Option String) :
    (exec step (start T apiToken) ops).handlers.length = (requests ops).length := by
  induction ops using List.reverseRecOn with
  | nil => rfl
  | append_singleton ops op ih =>
    rw [requests_concat, exec_append, List.length_append, ← ih]
    generalize exec step (start T apiToken) ops = g
    show (step g op).handlers.length = _
    cases op with
    | request authorization endpoint => exact List.length_append
    | poll j env =>
      simp only [step]
      cases g.handlers[j]? with
      | none => rfl
      | some b => exact List.length_set
    | pollTask j createdAt delivered =>
      simp only [step]
      cases g.handlers[j]? with
      | none => rfl
      | some b => exact List.length_set
    | cancel j =>
      simp only [step]
      cases g.handlers[j]? with
      | none => rfl
      | some b => exact List.length_set
    | other o => rfl
    | setRegistry registry => rfl

/-- Nothing is sent for a request before it arrives. -/
theorem body_of_length_le (T : HardwareTopology) (apiToken : Option String) (ops : List GatewayOp) {i : ℕ}
    (hi : (requests ops).length ≤ i) : body i (start T apiToken) ops = [] := by
  induction ops using List.reverseRecOn with
  | nil => rfl
  | append_singleton ops op ih =>
    rw [requests_concat, List.length_append] at hi
    have hbefore : (requests ops).length ≤ i := by omega
    have hnone : (exec step (start T apiToken) ops).handlers[i]? = none := by
      rw [List.getElem?_eq_none_iff, length_handlers]
      exact hbefore
    rw [body_concat, ih hbefore, List.nil_append]
    cases op with
    | pollTask j createdAt delivered =>
      simp only [GatewayState.chunk, hnone, Option.elim_none, ite_self]
    | _ => rfl

theorem tells_arrive (ops : List GatewayOp) (T : HardwareTopology) (apiToken : Option String)
    (authorization : Option String) (endpoint : Endpoint) (prompt : String) (listening : Prop) :
    Tells endpoint.job prompt listening []
      ((exec step (start T apiToken) ops).arrive authorization endpoint) := by
  unfold GatewayState.arrive
  split
  · exact ⟨rfl, rfl⟩
  · rfl

theorem exec_tells (T : HardwareTopology) (apiToken : Option String) (ops : List GatewayOp) {i : ℕ}
    {authorization : Option String} {endpoint : Endpoint} {prompt : String}
    (hrequest : (requests ops)[i]? = some (authorization, endpoint))
    (hstream : endpoint.job.answer = .stream prompt) :
    ∃ h, (exec step (start T apiToken) ops).handlers[i]? = some h ∧
      Tells endpoint.job prompt (∀ op ∈ ops, Hears i op) (body i (start T apiToken) ops) h := by
  induction ops using List.reverseRecOn with
  | nil => cases hrequest
  | append_singleton ops op ih =>
    rw [body_concat, exec_append]
    rw [requests_concat] at hrequest
    rcases Nat.lt_or_ge i (requests ops).length with hi | hi
    · rw [List.getElem?_append_left hi] at hrequest
      obtain ⟨h, hh, ht⟩ := ih hrequest
      obtain ⟨h', hh', ht'⟩ := tells_step hh ht hstream op
      refine ⟨h', hh', ht'.imp fun hall => ?_⟩
      exact ⟨fun o ho => hall o (List.mem_append_left _ ho),
        hall op (List.mem_append_right _ (List.mem_singleton_self _))⟩
    · rw [List.getElem?_append_right hi] at hrequest
      cases op with
      | request authorization' endpoint' =>
        have hrequest' : [(authorization', endpoint')][i - (requests ops).length]? =
            some (authorization, endpoint) := hrequest
        rw [List.getElem?_singleton] at hrequest'
        split at hrequest'
        · rename_i hzero
          cases hrequest'
          have hlast : i = (exec step (start T apiToken) ops).handlers.length := by
            rw [length_handlers]
            omega
          refine ⟨(exec step (start T apiToken) ops).arrive authorization endpoint, ?_, ?_⟩
          · rw [hlast]
            exact List.getElem?_concat_length
          · rw [body_of_length_le T apiToken ops hi]
            exact tells_arrive ops T apiToken authorization endpoint prompt _
        · cases hrequest'
      | _ => cases hrequest

/-- What a client reads as the text of an answer. -/
def answerText (chunks : List Json) : String :=
  String.join (chunks.filterMap fun c => (c.get "response").bind Json.asStr)

theorem answerText_of_told {model : String} (h : chunks.map view = told model prompt 5 true) :
    answerText chunks = "systemd-inferenced: streaming token generation for prompt '" ++ prompt ++ "'." := by
  have htexts : chunks.filterMap (fun c => (c.get "response").bind Json.asStr) = tokens prompt ++ [""] := by
    calc chunks.filterMap (fun c => (c.get "response").bind Json.asStr)
        = (chunks.map view).filterMap (fun v => v.2.1) := by
          rw [List.filterMap_map]
          rfl
      _ = tokens prompt ++ [""] := by
          rw [h]
          rfl
  have hhead : "systemd-inferenced: streaming token generation for prompt '" =
      "systemd-inferenced: " ++ "streaming " ++ "token " ++ "generation " ++ "for prompt '" := by decide
  rw [answerText, htexts, hhead]
  simp only [tokens, String.join, List.cons_append, List.nil_append, List.foldl_cons, List.foldl_nil,
    String.empty_append, String.append_empty, String.append_assoc]

/-- A client that listens gets its answer: in every run of the gateway, whatever
other requests come and go, what a streaming request has been sent is the first
tokens of the answer to its own prompt, in order and with its own model, at most
followed by the end mark; and once its task has ended and no send has failed, it
is all of the text with the end mark. -/
theorem stream_tells_answer (T : HardwareTopology) (apiToken : Option String) (ops : List GatewayOp) (i : ℕ)
    (authorization : Option String) (endpoint : Endpoint) (prompt : String)
    (hrequest : (requests ops)[i]? = some (authorization, endpoint))
    (hstream : endpoint.job.answer = .stream prompt) :
    (∃ k final, (body i (start T apiToken) ops).map view = told endpoint.job.model prompt k final) ∧
    ((∀ op ∈ ops, Hears i op) → ∀ h status, (exec step (start T apiToken) ops).handlers[i]? = some h →
      h.state = .completed (.ndjson status) →
      (body i (start T apiToken) ops).map view = told endpoint.job.model prompt 5 true ∧
      answerText (body i (start T apiToken) ops) =
        "systemd-inferenced: streaming token generation for prompt '" ++ prompt ++ "'.") := by
  obtain ⟨h, hh, ht⟩ := exec_tells T apiToken ops hrequest hstream
  refine ⟨?_, fun hlistening h' status hh' hstate => ?_⟩
  · exact ht.told
  · rw [hh] at hh'
    cases hh'
    simp only [Tells, hstate] at ht
    obtain ⟨k, final, hchunks, hall⟩ := ht
    obtain ⟨rfl, rfl⟩ := hall hlistening
    exact ⟨hchunks, answerText_of_told hchunks⟩

/-- A streaming request that is answered in full, and a chat request meanwhile. -/
def streamRun : List GatewayOp :=
  [.request none (.chatCompletions "phi"),
   .request none (.ollamaGenerate (.object [("model", .string "phi"), ("prompt", .string "hi")])),
   samplePoll 1 0, samplePoll 0 1, samplePoll 1 2,
   .pollTask 1 "t0" true, .pollTask 1 "t1" true,
   .cancel 0,
   .pollTask 1 "t2" true, .pollTask 1 "t3" true, .pollTask 1 "t4" true, .pollTask 1 "t5" true,
   .pollTask 1 "t6" true]

theorem stream_tells_answer_streamRun :
    answerText (body 1 (start largeGpu none) streamRun) =
      "systemd-inferenced: streaming token generation for prompt 'hi'." := by
  have hheard : ∀ op ∈ streamRun, Hears 1 op := by
    intro op hop createdAt heq
    simp [streamRun, samplePoll, heq] at hop
  obtain ⟨h, hh, hstate⟩ : ∃ h, (exec step (start largeGpu none) streamRun).handlers[1]? = some h ∧
      h.state = .completed (.ndjson 200) := ⟨_, rfl, rfl⟩
  exact ((stream_tells_answer largeGpu none streamRun 1 none _ "hi" rfl rfl).2 hheard h 200 hh hstate).2

end Inferenced.Gateway
