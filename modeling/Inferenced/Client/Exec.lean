import Inferenced.Client.Stream
import Inferenced.Lib.Text

/-!
# The exec command (crates/inferenctl/src/cmd/stream.rs)

`run_exec` prints the chunks of a stream as they arrive, and the text of a local
filter when the stream has failed. What has been printed by then stays, so the
two run into each other exactly when a stream fails behind a chunk that is not
empty; and what is printed of a stream that was cut is ended as if it were
complete. Writes to standard output are taken to succeed. `shownPath` is the
socket path as `{:?}` prints it.
-/

namespace Inferenced.Client
open Lib Lib.Framing Varlink

/-- The prompt (stream.rs:16-32): the argument, or at most 4 MiB of standard
input unless that is a terminal; `none` stands for a terminal. -/
def promptOf (promptArg : Option String) (stdin : Option (List UInt8)) : List Char :=
  let prompt := match promptArg with
    | some arg => arg.toList
    | none => match stdin with
      | some bytes => (Text.fromUtf8 (bytes.take (4 * 1024 * 1024))).getD []
      | none => []
  if (Text.trim prompt).isEmpty then "Hello, systemd-inferenced!".toList else prompt

def chunkOf (msg : Json) : List UInt8 :=
  match ((msg.get "parameters").bind (·.get "chunk")).bind Json.asStr with
  | some chunk => Utf8.encode chunk.toList
  | none => []

/-- The callback: it writes the chunk and never fails. -/
def printChunk (stdout : List UInt8) (msg : Json) : Except Empty Unit × List UInt8 :=
  (.ok (), stdout ++ chunkOf msg)

/-- The tokens of the local filter (stream.rs:68-74). -/
def fallbackText (prompt : List Char) : List UInt8 :=
  ["Inference: ".toList, "Analyzing prompt '".toList, Text.trim prompt,
    "'. Execution dispatched via systemd-inferenced stream filter.".toList].flatMap Utf8.encode

structure ExecOutput where
  stdout : List UInt8
  stderr : String

section
variable (toVec : Json → List UInt8) (fromSlice : List UInt8 → Option Json)

/-- The live stream (stream.rs:37-62): whether it is `Ok`, and what it has
printed; `none` stands for a client that could not connect. -/
def liveStream (client : Option VarlinkClient) (written : Bool) (model : String) (prompt : List Char) :
    Bool × List UInt8 :=
  match client with
  | none => (false, [])
  | some c =>
    let parameters : Json :=
      .object [("model", .string model), ("prompt", .string (String.ofList prompt))]
    let out := streamCall toVec fromSlice printChunk c "io.systemd.inferenced1.StreamInference"
      (some parameters) written []
    (out.1.isOk, out.2.1)

/-- `run_exec` (stream.rs:10-85); it always returns `Ok`. -/
def runExec (shownPath : String) (client : Option VarlinkClient) (written : Bool) (model : String)
    (promptArg : Option String) (stdin : Option (List UInt8)) (quiet : Bool) : ExecOutput :=
  let prompt := promptOf promptArg stdin
  let live := liveStream toVec fromSlice client written model prompt
  if live.1 then { stdout := live.2 ++ [10], stderr := "" }
  else
    { stdout := live.2 ++ fallbackText prompt ++ [10]
      stderr := if quiet then "" else
        "systemd-inferenced: daemon offline at " ++ shownPath ++
          ", running local stream filter for model '" ++ model ++ "'\n" }

/-- The chunks of a complete stream of the server and a newline, or the text of
the local filter and a newline. -/
def Unmixed (client : Option VarlinkClient) (prompt : List Char) (stdout : List UInt8) : Prop :=
  (∃ c ∈ client, ∃ msgs rest, Stream fromSlice c.broken c.reader.rest msgs (.finished rest) ∧
    stdout = msgs.flatMap chunkOf ++ [10]) ∨
  stdout = fallbackText prompt ++ [10]

/-- The chunks of a stream that was cut are the text of the local filter, and
those of a stream that fails are empty. -/
def SilentFailure (c : VarlinkClient) (prompt : List Char) : Prop :=
  (∀ msgs, Stream fromSlice c.broken c.reader.rest msgs .cut →
    msgs.flatMap chunkOf = fallbackText prompt) ∧
  ∀ msgs, Stream fromSlice c.broken c.reader.rest msgs .failed → msgs.flatMap chunkOf = []

end

variable {toVec : Json → List UInt8} {fromSlice : List UInt8 → Option Json}

theorem feed_printChunk (stdout : List UInt8) (msgs : List Json) :
    feed printChunk stdout msgs = (.ok (), stdout ++ msgs.flatMap chunkOf) := by
  induction msgs generalizing stdout with
  | nil => rw [feed, List.flatMap_nil, List.append_nil]
  | cons msg msgs ih => rw [feed, printChunk, List.flatMap_cons, ← List.append_assoc, ← ih]

theorem isOk_iff {ε : Type} (r : Except ε Unit) : r.isOk = true ↔ r = .ok () := by
  cases r with
  | error e =>
    constructor
    · intro h
      cases h
    · intro h
      cases h
  | ok u => exact ⟨fun _ => rfl, fun _ => rfl⟩

theorem liveStream_stream (toVec : Json → List UInt8) {c : VarlinkClient} {msgs : List Json} {e : Ending}
    (h : Stream fromSlice c.broken c.reader.rest msgs e) (model : String) (prompt : List Char) :
    (liveStream toVec fromSlice (some c) true model prompt).2 = msgs.flatMap chunkOf ∧
      ((liveStream toVec fromSlice (some c) true model prompt).1 = true ↔ e ≠ .failed) := by
  obtain ⟨hstate, hok, -⟩ := streamLoop_stream printChunk (c := c.write (toVec (streamRequest
    "io.systemd.inferenced1.StreamInference"
    (some (.object [("model", .string model), ("prompt", .string (String.ofList prompt))])))))
    h rfl rfl []
  rw [feed_printChunk, List.nil_append] at hstate hok
  refine ⟨hstate, ?_⟩
  rw [liveStream, isOk_iff, streamCall, if_pos rfl, hok]
  exact ⟨And.right, fun h => ⟨rfl, h⟩⟩

theorem liveStream_unwritten (client : Option VarlinkClient) (model : String) (prompt : List Char) :
    liveStream toVec fromSlice client false model prompt = (false, []) := by
  cases client with
  | none => rfl
  | some c => rfl

theorem unmixed_stream_iff {c : VarlinkClient} {msgs : List Json} {e : Ending} {prompt : List Char}
    (h : Stream fromSlice c.broken c.reader.rest msgs e) (stdout : List UInt8) :
    Unmixed fromSlice (some c) prompt stdout ↔
      (∃ rest, e = .finished rest ∧ stdout = msgs.flatMap chunkOf ++ [10]) ∨
      stdout = fallbackText prompt ++ [10] := by
  refine or_congr ⟨?_, ?_⟩ Iff.rfl
  · rintro ⟨c', hc, msgs', rest, hfinished, hout⟩
    obtain rfl := Option.mem_some.mp hc
    obtain ⟨rfl, rfl⟩ := h.unique hfinished
    exact ⟨rest, rfl, hout⟩
  · rintro ⟨rest, rfl, hout⟩
    exact ⟨c, rfl, msgs, rest, h, hout⟩

theorem silentFailure_iff {c : VarlinkClient} {msgs : List Json} {e : Ending} {prompt : List Char}
    (h : Stream fromSlice c.broken c.reader.rest msgs e) :
    SilentFailure fromSlice c prompt ↔
      (e = .cut → msgs.flatMap chunkOf = fallbackText prompt) ∧
      (e = .failed → msgs.flatMap chunkOf = []) := by
  constructor
  · rintro ⟨hcut, hfailed⟩
    refine ⟨?_, ?_⟩
    · rintro rfl
      exact hcut msgs h
    · rintro rfl
      exact hfailed msgs h
  · rintro ⟨hcut, hfailed⟩
    refine ⟨fun msgs' h' => ?_, fun msgs' h' => ?_⟩
    · obtain ⟨rfl, rfl⟩ := h.unique h'
      exact hcut rfl
    · obtain ⟨rfl, rfl⟩ := h.unique h'
      exact hfailed rfl

/-- Outputs are not mixed: what `run_exec` prints is either all of a complete
stream or the text of the local filter, if and only if a stream that was cut has
printed that text, and a stream that fails has printed nothing. -/
theorem exec_unmixed_iff (toVec : Json → List UInt8) (fromSlice : List UInt8 → Option Json)
    (shownPath : String) (client : Option VarlinkClient) (written : Bool) (model : String)
    (promptArg : Option String) (stdin : Option (List UInt8)) (quiet : Bool) :
    Unmixed fromSlice client (promptOf promptArg stdin)
        (runExec toVec fromSlice shownPath client written model promptArg stdin quiet).stdout ↔
      (written = true → ∀ c ∈ client, SilentFailure fromSlice c (promptOf promptArg stdin)) := by
  unfold runExec
  dsimp only
  generalize promptOf promptArg stdin = prompt
  cases written with
  | false =>
    rw [liveStream_unwritten]
    refine iff_of_true (Or.inr rfl) fun h => ?_
    cases h
  | true =>
    cases client with
    | none =>
      refine iff_of_true (Or.inr rfl) fun _ c hc => ?_
      cases hc
    | some c =>
      obtain ⟨msgs, e, hstream⟩ := Stream.exists_of fromSlice c.broken c.reader.rest
      obtain ⟨hprinted, hok⟩ := liveStream_stream toVec hstream model prompt
      have hall : (true = true → ∀ c' ∈ some c, SilentFailure fromSlice c' prompt) ↔
          SilentFailure fromSlice c prompt := by
        refine ⟨fun h => h rfl c rfl, fun h _ c' hc => ?_⟩
        obtain rfl := Option.mem_some.mp hc
        exact h
      rw [hall, silentFailure_iff hstream, unmixed_stream_iff hstream, hprinted]
      cases e with
      | finished rest =>
        rw [if_pos (hok.mpr Ending.noConfusion)]
        exact iff_of_true (Or.inl ⟨rest, rfl, rfl⟩) ⟨Ending.noConfusion, Ending.noConfusion⟩
      | cut =>
        rw [if_pos (hok.mpr Ending.noConfusion)]
        constructor
        · rintro (⟨rest, hfinished, -⟩ | hout)
          · cases hfinished
          · exact ⟨fun _ => List.append_cancel_right hout, Ending.noConfusion⟩
        · intro h
          rw [h.1 rfl]
          exact Or.inr rfl
      | failed =>
        rw [if_neg (fun h => hok.mp h rfl)]
        constructor
        · rintro (⟨rest, hfinished, -⟩ | hout)
          · cases hfinished
          · have happend := List.append_cancel_right hout
            exact ⟨Ending.noConfusion, fun _ => List.append_left_eq_self.mp happend⟩
        · intro h
          rw [h.2 rfl]
          exact Or.inr rfl

/-! ### A daemon that stops within a reply -/

def execRequestText : Json → List UInt8
  | .object [("method", .string method),
      ("parameters", .object [("model", .string model), ("prompt", .string prompt)]),
      ("more", .bool true)] =>
    Utf8.ascii ("\x7b\"method\":\"" ++ method ++ "\",\"more\":true,\"parameters\":\x7b\"model\":\"" ++
      model ++ "\",\"prompt\":\"" ++ prompt ++ "\"\x7d\x7d").toList
  | _ => []

/-- One chunk, and the first byte of the next reply. -/
def stoppedClient : VarlinkClient := ⟨[], ⟨[], [chunkText ++ 0 :: [123]]⟩, false⟩

theorem stream_stopped :
    Stream chunkParser stoppedClient.broken stoppedClient.reader.rest [chunkMessage] .failed := by
  refine .more wellFormed_chunkText rfl (.failed (fun h => absurd h (by decide)) ?_)
  intro f rest resp heq _
  have hmem : (0 : UInt8) ∈ f ++ 0 :: rest := by simp
  rw [← heq] at hmem
  exact absurd hmem (by decide)

theorem stopped_stream_mixed :
    (runExec execRequestText chunkParser "\"/run/inferenced.sock\"" (some stoppedClient) true "llama"
        (some "hi") none true).stdout =
      Utf8.encode ("Inference: " ++ "Inference: Analyzing prompt 'hi'. " ++
        "Execution dispatched via systemd-inferenced stream filter.\n").toList ∧
    ¬ Unmixed chunkParser (some stoppedClient) (promptOf (some "hi") none)
      (runExec execRequestText chunkParser "\"/run/inferenced.sock\"" (some stoppedClient) true "llama"
        (some "hi") none true).stdout := by
  obtain ⟨hprinted, hok⟩ := liveStream_stream execRequestText stream_stopped "llama"
    (promptOf (some "hi") none)
  have hstdout : (runExec execRequestText chunkParser "\"/run/inferenced.sock\"" (some stoppedClient) true
      "llama" (some "hi") none true).stdout =
      [chunkMessage].flatMap chunkOf ++ fallbackText (promptOf (some "hi") none) ++ [10] := by
    unfold runExec
    dsimp only
    rw [if_neg (fun h => hok.mp h rfl), hprinted]
  rw [hstdout, unmixed_stream_iff stream_stopped]
  refine ⟨by decide +kernel, ?_⟩
  rintro (⟨rest, hfinished, -⟩ | hout)
  · cases hfinished
  · have hnil := List.append_left_eq_self.mp (List.append_cancel_right hout)
    exact absurd hnil (by decide +kernel)

end Inferenced.Client
