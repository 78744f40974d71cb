import Inferenced.Lib.Framing
import Inferenced.Varlink.Protocol

/-!
# Reading of frames (varlink/mod.rs:40-53, protocol.rs:57-64)

A task reads up to a NUL byte, at most one mebibyte, and hands what it has read
to `parse_request`, which strips a NUL if there is one. What has no NUL because
it was cut at the limit or at the end of the stream is parsed all the same.
`fromSlice` stands for `serde_json::from_slice`, and every reply is taken to be
written.
-/

namespace Inferenced.Varlink
open Lib.Framing

def maxFrame : ℕ := 1024 * 1024

section
variable (fromSlice : List UInt8 → Option VarlinkRequest)

/-- `parse_request`. -/
def parseRequest (bytes : List UInt8) : Option VarlinkRequest :=
  fromSlice (if bytes.getLast? = some 0 then bytes.dropLast else bytes)

/-- The loop of a task: the requests that it dispatches, and `none` where a frame
that does not parse ends it. -/
def readLoop (r : BufReader UInt8) : List (Option VarlinkRequest) :=
  if (readUntil 0 maxFrame r.buffer r.reads).1 = [] then []
  else match parseRequest fromSlice (readUntil 0 maxFrame r.buffer r.reads).1 with
    | none => [none]
    | some req => some req :: readLoop (readUntil 0 maxFrame r.buffer r.reads).2
termination_by r.rest.length
decreasing_by exact readUntil_rest_lt (by decide) ‹_›

/-- The requests that are dispatched of a stream that arrives as `reads`. -/
def dispatched (reads : List (List UInt8)) : List VarlinkRequest :=
  (readLoop fromSlice ⟨[], reads⟩).reduceOption

/-- The frames of a stream that end with a NUL. -/
def completeFrames (stream : List UInt8) : List (List UInt8) :=
  (stream.splitOnP fun b => decide (b = 0)).dropLast

/-- The requests of the frames, up to the first that does not parse or does not
fit with its NUL. -/
def parsedFrames : List (List UInt8) → List VarlinkRequest
  | [] => []
  | f :: frames =>
    match if f.length < maxFrame then fromSlice f else none with
    | some req => req :: parsedFrames frames
    | none => []

/-- Behind frames that parse and fit, the stream goes on with bytes that have no
NUL up to the limit, and these bytes, cut there, parse. -/
def CutParses (stream : List UInt8) : Prop :=
  ∃ (frames : List (List UInt8)) (rest : List UInt8), stream = frames.flatMap (· ++ [0]) ++ rest ∧
    (∀ f ∈ frames, 0 ∉ f ∧ f.length < maxFrame ∧ (fromSlice f).isSome) ∧
    rest ≠ [] ∧ 0 ∉ rest.take maxFrame ∧ (fromSlice (rest.take maxFrame)).isSome

end

variable {fromSlice : List UInt8 → Option VarlinkRequest} {r : BufReader UInt8}
  {f m : List UInt8}

/-! ### The loop on the stream -/

theorem parseRequest_delim (f : List UInt8) : parseRequest fromSlice (f ++ [0]) = fromSlice f := by
  rw [parseRequest, List.getLast?_concat, if_pos rfl, List.dropLast_concat]

theorem parseRequest_cut (h : 0 ∉ f) : parseRequest fromSlice f = fromSlice f := by
  rw [parseRequest, if_neg fun hlast => h (List.mem_of_getLast? hlast)]

theorem readLoop_frame (fromSlice : List UInt8 → Option VarlinkRequest) (hf : 0 ∉ f)
    (hlen : f.length < maxFrame) (hr : r.rest = f ++ 0 :: m) :
    ∃ r' : BufReader UInt8, r'.rest = m ∧
      readLoop fromSlice r = match fromSlice f with
        | none => [none]
        | some req => some req :: readLoop fromSlice r' := by
  obtain ⟨hframe, hrest⟩ := readUntil_frame hf hlen hr
  refine ⟨(readUntil 0 maxFrame r.buffer r.reads).2, hrest, ?_⟩
  rw [readLoop, hframe, if_neg (by simp), parseRequest_delim]

theorem readLoop_cut (fromSlice : List UInt8 → Option VarlinkRequest)
    (hno : 0 ∉ r.rest.take maxFrame) (hr : r.rest ≠ []) :
    ∃ r' : BufReader UInt8, r'.rest = r.rest.drop maxFrame ∧
      readLoop fromSlice r = match fromSlice (r.rest.take maxFrame) with
        | none => [none]
        | some req => some req :: readLoop fromSlice r' := by
  obtain ⟨hframe, hrest⟩ := readUntil_cut hno
  have hne : r.rest.take maxFrame ≠ [] := by
    rw [← firstFrame_of_not_mem hno]
    exact mt (firstFrame_eq_nil (by decide)).mp hr
  refine ⟨(readUntil 0 maxFrame r.buffer r.reads).2, hrest, ?_⟩
  rw [readLoop, hframe, if_neg hne, parseRequest_cut hno]

theorem readLoop_end (hr : r.rest = []) : readLoop fromSlice r = [] := by
  obtain ⟨hframe, -⟩ : Cuts 0 maxFrame r.rest (readUntil 0 maxFrame r.buffer r.reads) :=
    readUntil_cuts ..
  rw [readLoop, hframe, if_pos ((firstFrame_eq_nil (by decide)).mpr hr)]

/-! ### The frames of the stream -/

theorem mem_take_frame (hlen : f.length < maxFrame) (m : List UInt8) :
    0 ∈ (f ++ 0 :: m).take maxFrame := by
  obtain ⟨k, hk⟩ : ∃ k, maxFrame - f.length = k + 1 := ⟨maxFrame - f.length - 1, by omega⟩
  rw [List.take_append, hk, List.take_succ_cons]
  exact List.mem_append_right _ (List.mem_cons_self ..)

theorem splitOnP_frame (hf : 0 ∉ f) : (f.splitOnP fun b => decide (b = 0)) = [f] := by
  refine List.splitOnP_eq_singleton fun b hb => decide_eq_false ?_
  rintro rfl
  exact hf hb

theorem completeFrames_frame (hf : 0 ∉ f) (m : List UInt8) :
    completeFrames (f ++ 0 :: m) = f :: completeFrames m := by
  unfold completeFrames
  rw [List.splitOnP_append_cons f m (decide_eq_true rfl), splitOnP_frame hf, List.singleton_append,
    List.dropLast_cons_of_ne_nil (List.splitOnP_ne_nil _ m)]

theorem parsedFrames_cut {stream : List UInt8} (hno : 0 ∉ stream.take maxFrame) :
    parsedFrames fromSlice (completeFrames stream) = [] := by
  by_cases hmem : 0 ∈ stream
  · obtain ⟨f, m, rfl, hf⟩ := List.eq_append_cons_of_mem hmem
    have hlen : ¬ f.length < maxFrame := fun hlen => hno (mem_take_frame hlen m)
    rw [completeFrames_frame hf, parsedFrames, if_neg hlen]
  · rw [completeFrames, splitOnP_frame hmem]
    rfl

theorem cutParses_frame (hf : 0 ∉ f) (hlen : f.length < maxFrame) :
    CutParses fromSlice (f ++ 0 :: m) ↔ (fromSlice f).isSome ∧ CutParses fromSlice m := by
  constructor
  · rintro ⟨frames, rest, hstream, hframes, hne, hno, hcut⟩
    cases frames with
    | nil =>
      rw [List.flatMap_nil, List.nil_append] at hstream
      rw [← hstream] at hno
      exact absurd (mem_take_frame hlen m) hno
    | cons g frames =>
      obtain ⟨hg, htail⟩ := List.forall_mem_cons.mp hframes
      rw [List.flatMap_cons, List.append_assoc, List.append_assoc, List.singleton_append] at hstream
      obtain ⟨rfl, hm⟩ := frame_inj hf hg.1 hstream
      exact ⟨hg.2.2, frames, rest, hm, htail, hne, hno, hcut⟩
  · rintro ⟨hsome, frames, rest, rfl, hframes, hcut⟩
    refine ⟨f :: frames, rest, ?_, List.forall_mem_cons.mpr ⟨⟨hf, hlen, hsome⟩, hframes⟩, hcut⟩
    rw [List.flatMap_cons, List.append_assoc, List.append_assoc, List.singleton_append]

theorem cutParses_cut {stream : List UInt8} (hno : 0 ∉ stream.take maxFrame) :
    CutParses fromSlice stream ↔ stream ≠ [] ∧ (fromSlice (stream.take maxFrame)).isSome := by
  constructor
  · rintro ⟨frames, rest, hstream, hframes, hne, hno', hcut⟩
    cases frames with
    | nil =>
      rw [List.flatMap_nil, List.nil_append] at hstream
      rw [hstream]
      exact ⟨hne, hcut⟩
    | cons g frames =>
      obtain ⟨hg, -⟩ := List.forall_mem_cons.mp hframes
      rw [hstream, List.flatMap_cons, List.append_assoc, List.append_assoc,
        List.singleton_append] at hno
      exact absurd (mem_take_frame hg.2.1 _) hno
  · rintro ⟨hne, hcut⟩
    exact ⟨[], stream, rfl, List.forall_mem_nil _, hne, hno, hcut⟩

/-! ### Framing -/

theorem readLoop_iff (r : BufReader UInt8) :
    (readLoop fromSlice r).reduceOption = parsedFrames fromSlice (completeFrames r.rest) ↔
      ¬ CutParses fromSlice r.rest := by
  -- induction on what is left of the stream
  induction hn : r.rest.length using Nat.strong_induction_on generalizing r with
  | _ n ih =>
    rcases exists_frame 0 maxFrame r.rest with hno | ⟨f, m, hr, hf, hlen⟩
    · rw [parsedFrames_cut hno, cutParses_cut hno]
      by_cases hempty : r.rest = []
      · rw [readLoop_end hempty]
        exact iff_of_true rfl fun h => h.1 hempty
      · obtain ⟨r', -, hloop⟩ := readLoop_cut fromSlice hno hempty
        rw [hloop]
        cases fromSlice (r.rest.take maxFrame) with
        | none => exact iff_of_true rfl fun h => by cases h.2
        | some req => exact iff_of_false (List.cons_ne_nil _ _) fun h => h ⟨hempty, rfl⟩
    · obtain ⟨r', hr', hloop⟩ := readLoop_frame fromSlice hf hlen hr
      rw [hloop, hr, completeFrames_frame hf, cutParses_frame hf hlen, parsedFrames, if_pos hlen]
      cases hreq : fromSlice f with
      | none => exact iff_of_true rfl fun h => by cases h.1
      | some req =>
        have hlt : r'.rest.length < n := by
          rw [← hn, hr', hr, List.length_append, List.length_cons]
          omega
        have hrec := ih _ hlt r' rfl
        rw [hr'] at hrec
        show req :: (readLoop fromSlice r').reduceOption = req :: parsedFrames fromSlice _ ↔ _
        rw [List.cons.injEq, and_iff_right rfl, hrec, Option.isSome_some, and_iff_right rfl]

/-- Framing: whatever a client sends, in whatever pieces, the requests that are
dispatched are those of the NUL-terminated frames up to the first that does not
parse or does not fit, if and only if no bytes that are cut at the limit or at
the end of the stream parse. -/
theorem framing_iff (fromSlice : List UInt8 → Option VarlinkRequest) (reads : List (List UInt8)) :
    dispatched fromSlice reads = parsedFrames fromSlice (completeFrames reads.flatten) ↔
      ¬ CutParses fromSlice reads.flatten :=
  readLoop_iff ⟨[], reads⟩

def statusRequest : VarlinkRequest := { method := "io.systemd.inferenced1.GetStatus" }

def statusText : List UInt8 :=
  "\x7b\"method\":\"io.systemd.inferenced1.GetStatus\"\x7d".toList.map Char.toUInt8

/-- The text with any white space of JSON around it is the request. -/
def sampleParser (bytes : List UInt8) : Option VarlinkRequest :=
  let isSpace := fun b : UInt8 => decide (b = 32 ∨ b = 9 ∨ b = 10 ∨ b = 13)
  if (bytes.dropWhile isSpace).rdropWhile isSpace = statusText then some statusRequest else none

/-- A client that closes the connection in place of the NUL: its request is
dispatched. -/
theorem fragment_dispatched :
    completeFrames statusText = [] ∧ dispatched sampleParser [statusText] = [statusRequest] ∧
      dispatched sampleParser [statusText] ≠
        parsedFrames sampleParser (completeFrames [statusText].flatten) := by
  have hnone : completeFrames statusText = [] := by decide
  have hone : dispatched sampleParser [statusText] = [statusRequest] := by
    have hrest : (BufReader.mk [] [statusText]).rest = statusText := by decide
    have htake : statusText.take maxFrame = statusText := List.take_of_length_le (by decide)
    obtain ⟨r', hr', hloop⟩ := readLoop_cut sampleParser (r := ⟨[], [statusText]⟩)
      (by rw [hrest, htake]; decide) (by rw [hrest]; decide)
    rw [hrest, htake, show sampleParser statusText = some statusRequest from rfl] at hloop
    have hend : r'.rest = [] := by
      rw [hr', hrest]
      exact List.drop_eq_nil_of_le (by decide)
    rw [dispatched, hloop, readLoop_end hend]
    rfl
  refine ⟨hnone, hone, ?_⟩
  rw [hone, List.flatten_cons, List.flatten_nil, List.append_nil, hnone]
  exact List.cons_ne_nil _ _

end Inferenced.Varlink
