import Inferenced.Client.Exec
import Inferenced.Session.Commands

/-!
# The exec command against the daemon (cmd/stream.rs, varlink/inferenced1.rs)

`run_exec` writes the chunk of each frame of its stream as it comes. Put
together, the chunks are one text around the prompt, whatever the prompt is and
in whatever pieces the frames arrive.
-/

namespace Inferenced.Session
open Lib Lib.Runs Lib.Framing Varlink Client Arbiter

/-- What `run_exec` passes to `stream_call`. -/
def execAsked (model : String) (prompt : List Char) : Asked :=
  ⟨.stream, "io.systemd.inferenced1.StreamInference",
    some (.object [("model", .string model), ("prompt", .string (String.ofList prompt))])⟩

variable {toVec : Json → List UInt8} {fromSlice : List UInt8 → Option Json}
  {requestFromSlice : List UInt8 → Option VarlinkRequest} {replyToVec : VarlinkReply → List UInt8}
  {parseUuid : String → Option LeaseId}

/-- The text around the prompt, with a newline behind it. -/
def execText (prompt : List Char) : List Char :=
  ["Inference: ".toList, "Analyzing prompt '".toList, prompt,
    "'. Execution dispatched via systemd-inferenced.".toList].flatten ++ ['\n']

theorem methodOf_exec (model : String) (prompt : List Char) :
    methodOf (execAsked model prompt).request.method = some .streamInference :=
  (by decide : methodOf "io.systemd.inferenced1.StreamInference" = some .streamInference)

theorem encode_line (texts : List (List Char)) :
    texts.flatMap Utf8.encode ++ [10] = Utf8.encode (texts.flatten ++ ['\n']) := by
  have hnewline : Utf8.encode ['\n'] = [10] := by decide +kernel
  rw [Utf8.encode_append, hnewline]
  congr 1
  induction texts with
  | nil => rfl
  | cons text texts ih => rw [List.flatMap_cons, List.flatten_cons, Utf8.encode_append, ih]

/-- The answer to the four frames of the stream. -/
theorem streamAnswer_exec (model : String) (prompt : List Char) :
    ∃ messages, streamAnswer [] (handleStreamInference (execAsked model prompt).request.parameters) =
        some (.stream messages (.ok ())) ∧
      messages.flatMap chunkOf ++ [10] = Utf8.encode (execText prompt) := by
  refine ⟨_, rfl, ?_⟩
  have htext : execText prompt = ["Inference: ".toList, "Analyzing prompt '".toList,
      (String.ofList prompt).toList, "'. Execution dispatched via systemd-inferenced.".toList].flatten ++
        ['\n'] := by
    have hprompt : (String.ofList prompt).toList = prompt := String.toList_ofList
    rw [hprompt]
    rfl
  rw [htext, ← encode_line]
  rfl

/-- A client that has the frames of its stream before it, in pieces of any size,
prints what they are an answer for. -/
theorem stream_of_answer {frames : List VarlinkReply} {messages before : List Json} (later : List UInt8)
    (broken : Bool) (hcarries : ∀ r ∈ frames, CarriesReply fromSlice replyToVec r)
    (hanswer : streamAnswer before frames = some (.stream messages (.ok ()))) :
    ∃ msgs rest, messages = before ++ msgs ∧
      Stream fromSlice broken (replyBytes replyToVec frames ++ later) msgs (.finished rest) := by
  induction frames generalizing before with
  | nil => cases hanswer
  | cons r frames ih =>
    obtain ⟨hr, hrest⟩ := List.forall_mem_cons.mp hcarries
    have hbytes : replyBytes replyToVec (r :: frames) ++ later =
        replyToVec r ++ 0 :: (replyBytes replyToVec frames ++ later) := by
      simp [replyBytes]
    rw [streamAnswer] at hanswer
    cases herror : r.error with
    | some e =>
      rw [herror] at hanswer
      cases hanswer
    | none =>
      rw [herror] at hanswer
      have hwell : WellFormed fromSlice (replyToVec r) (replyJson r) :=
        ⟨hr.noNul, hr.fits, by rw [hr.checkReply, herror]⟩
      rw [hbytes]
      by_cases hcont : r.continues = some true
      · simp only [if_pos hcont] at hanswer
        obtain ⟨msgs, rest, hmsgs, hstream⟩ := ih hrest hanswer
        refine ⟨replyJson r :: msgs, rest, ?_, .more hwell ((continues_replyJson r).mpr hcont) hstream⟩
        rw [hmsgs, List.append_assoc]
        rfl
      · simp only [if_neg hcont, Option.some.injEq, Answer.stream.injEq, and_true] at hanswer
        refine ⟨[replyJson r], _, hanswer.symm, .finished hwell ?_⟩
        exact Bool.eq_false_iff.mpr (mt (continues_replyJson r).mp hcont)

theorem framesFor_exec (d : Daemon) (c : Conn) (model : String) (prompt : List Char) (env : HandlerEnv) :
    framesFor parseUuid d c (execAsked model prompt).request env =
      handleStreamInference (execAsked model prompt).request.parameters :=
  serve_streamInference (methodOf_exec model prompt) _ _ _ _

/-- `run_exec` prints the whole answer of the daemon, a newline and nothing else:
for every model and prompt for which the daemon has served the request with
frames that have no NUL, are below 1 MiB and are read back as they were written,
whatever the state of the daemon, in whatever pieces the frames arrive and
whatever comes behind them. -/
theorem exec_prints_answer (toVec : Json → List UInt8) (fromSlice : List UInt8 → Option Json)
    (replyToVec : VarlinkReply → List UInt8) (parseUuid : String → Option LeaseId) (shownPath : String)
    (model : String) (promptArg : Option String) (stdin : Option (List UInt8)) (quiet : Bool) (d : Daemon)
    (conn : Conn) (env : HandlerEnv) (c : VarlinkClient) (later : List UInt8)
    (hcarries : ∀ r ∈ framesFor parseUuid d conn (execAsked model (promptOf promptArg stdin)).request env,
      CarriesReply fromSlice replyToVec r)
    (harrives : c.reader.rest = replyBytes replyToVec
      (framesFor parseUuid d conn (execAsked model (promptOf promptArg stdin)).request env) ++ later) :
    runExec toVec fromSlice shownPath (some c) true model promptArg stdin quiet =
      { stdout := Utf8.encode (execText (promptOf promptArg stdin)), stderr := "" } := by
  unfold runExec
  generalize promptOf promptArg stdin = prompt at *
  rw [framesFor_exec] at hcarries harrives
  obtain ⟨messages, hanswer, hchunks⟩ := streamAnswer_exec model prompt
  obtain ⟨msgs, rest, rfl, hstream⟩ := stream_of_answer later c.broken hcarries hanswer
  rw [← harrives] at hstream
  obtain ⟨hprinted, hok⟩ := liveStream_stream toVec hstream model prompt
  dsimp only
  rw [if_pos (hok.mpr Ending.noConfusion), hprinted, hchunks]

/-! ### A short prompt -/

def chunkToVec (r : VarlinkReply) : List UInt8 :=
  match r.parameters with
  | some (.object [("chunk", .string chunk)]) =>
    Utf8.ascii ("\x7b\"parameters\":\x7b\"chunk\":\"" ++ chunk ++ "\"\x7d,\"continues\":" ++
      (if r.continues = some true then "true" else "false") ++ "\x7d").toList
  | _ => []

def hiFrames : List VarlinkReply := handleStreamInference (execAsked "llama" "hi".toList).request.parameters

def hiFromSlice (bytes : List UInt8) : Option Json :=
  (hiFrames.find? fun r => decide (chunkToVec r = bytes)).map replyJson

theorem carries_hiFrames : ∀ r ∈ hiFrames, CarriesReply hiFromSlice chunkToVec r := by
  have hbytes : ∀ r ∈ hiFrames, 0 ∉ chunkToVec r ∧ (chunkToVec r).length < maxReply := by
    decide +kernel
  have hfind : hiFrames.map (fun r => hiFromSlice (chunkToVec r)) = hiFrames.map fun r => some (replyJson r) := by
    rfl
  intro r hr
  exact ⟨(hbytes r hr).1, (hbytes r hr).2, List.map_inj_left.mp hfind r hr⟩

/-- The frames arrive in pieces of seven bytes. -/
def hiClient : VarlinkClient := ⟨[], ⟨[], (replyBytes chunkToVec hiFrames).toChunks 7⟩, false⟩

theorem exec_prints_answer_hi :
    runExec (fun _ => []) hiFromSlice "" (some hiClient) true "llama" (some "hi") none false =
      { stdout := Utf8.encode (execText "hi".toList), stderr := "" } := by
  have hprompt : promptOf (some "hi") none = "hi".toList := by decide
  have hframes : framesFor (fun _ => none) (Varlink.start gpuTopology)
      ⟨none, [], .serving, [], []⟩ (execAsked "llama" (promptOf (some "hi") none)).request sampleHandlerEnv =
        hiFrames := by
    rw [framesFor_exec, hprompt]
    rfl
  have h := exec_prints_answer (fun _ => []) hiFromSlice chunkToVec (fun _ => none) "" "llama" (some "hi")
    none false (Varlink.start gpuTopology) ⟨none, [], .serving, [], []⟩ sampleHandlerEnv hiClient []
    (hframes ▸ carries_hiFrames) (by rw [hframes]; decide +kernel)
  rw [hprompt] at h
  exact h

end Inferenced.Session
