import Inferenced.FdServer
import Inferenced.Lib.Framing

/-!
# Reading of a descriptor request (fd_server.rs:157-181)

`read_framed_request` looks for a NUL first and at the size afterwards, so the
64 KiB are a limit on the bytes before the read that holds the NUL. Where the
reads are cut decides how much of a request comes with that last read.
-/

namespace Inferenced.FdServer
open Lib.Framing

def maxRequest : ℕ := 64 * 1024

def maxChunk : ℕ := 4096

/-- How `read_framed_request` ends, the errors of the socket apart. -/
inductive FdRead where
  | request (req : FdRequest)
  /-- The end of the stream. -/
  | ended
  | parseError
  | overSize

section
variable (fromSlice : List UInt8 → Option FdRequest)

/-- `serde_json::from_slice(payload)?`. -/
def parsePayload (payload : List UInt8) : FdRead :=
  match fromSlice payload with
  | some req => .request req
  | none => .parseError

/-- The loop of `read_framed_request` on the reads of a stream. -/
def readRequest (scratch : List UInt8) : List (List UInt8) → FdRead
  | [] => .ended
  | chunk :: reads =>
    if chunk = [] then .ended
    else if 0 ∈ scratch ++ chunk then
      parsePayload fromSlice ((scratch ++ chunk).takeWhile fun b => decide (b ≠ 0))
    else if maxRequest < (scratch ++ chunk).length then .overSize
    else readRequest (scratch ++ chunk) reads

/-- What a stream asks for: more than 64 KiB before the first NUL are too much,
else the bytes before it are the request. -/
def requestOf (stream : List UInt8) : FdRead :=
  if maxRequest < (stream.takeWhile fun b => decide (b ≠ 0)).length then .overSize
  else if 0 ∈ stream then parsePayload fromSlice (stream.takeWhile fun b => decide (b ≠ 0))
  else .ended

end

/-- The reads make up the stream, none is empty and each fits into the buffer. -/
structure Splits (stream : List UInt8) (reads : List (List UInt8)) : Prop where
  flatten : reads.flatten = stream
  chunk : ∀ r ∈ reads, r ≠ [] ∧ r.length ≤ maxChunk

/-- The first NUL comes behind more than 64 KiB, but so closely behind that one
read can reach over the limit to it. -/
def LateNul (stream : List UInt8) : Prop :=
  ∃ f m, stream = f ++ 0 :: m ∧ 0 ∉ f ∧ maxRequest < f.length ∧ f.length < maxRequest + maxChunk

variable {fromSlice : List UInt8 → Option FdRequest}

/-! ### The steps of a task -/

/-- The program counter behind `read_framed_request`. -/
def FdRead.pc : FdRead → FdPc
  | .request req => checkRequest req
  | .ended => .returned true
  | .parseError => .returned false
  | .overSize => .returned false

def readTurns (fromSlice : List UInt8 → Option FdRequest) (pc : FdPc) (reads : List (List UInt8)) : FdPc :=
  reads.foldl (fun pc chunk => match pc with
    | .reading scratch => readFramedRequest fromSlice (some chunk) scratch
    | pc => pc) pc

theorem readTurns_of_not_reading {pc : FdPc} (h : ∀ scratch, pc ≠ .reading scratch)
    (reads : List (List UInt8)) : readTurns fromSlice pc reads = pc := by
  induction reads with
  | nil => rfl
  | cons chunk reads ih =>
    cases pc with
    | reading scratch => exact absurd rfl (h scratch)
    | _ => exact ih

theorem checkRequest_not_reading (req : FdRequest) (scratch : List UInt8) :
    checkRequest req ≠ .reading scratch := by
  unfold checkRequest
  split
  · exact FdPc.noConfusion
  · dsimp only
    split <;> exact FdPc.noConfusion

/-- The turns of a task, up to the read that finds the end of the stream, are
the loop. -/
theorem readTurns_eq (scratch : List UInt8) (reads : List (List UInt8)) :
    readTurns fromSlice (.reading scratch) (reads ++ [[]]) = (readRequest fromSlice scratch reads).pc := by
  induction reads generalizing scratch with
  | nil => rfl
  | cons chunk reads ih =>
    show readTurns fromSlice (readFramedRequest fromSlice (some chunk) scratch) (reads ++ [[]]) = _
    cases chunk with
    | nil => exact readTurns_of_not_reading (fun _ => FdPc.noConfusion) _
    | cons b chunk =>
      rw [readRequest, if_neg (List.cons_ne_nil b chunk)]
      unfold readFramedRequest parsePayload
      dsimp only
      split
      · split
        · rename_i hparse
          rw [hparse]
          exact readTurns_of_not_reading (fun _ => FdPc.noConfusion) _
        · rename_i req hparse
          rw [hparse]
          exact readTurns_of_not_reading (checkRequest_not_reading req) _
      · split
        · rename_i hbig
          rw [if_pos (show maxRequest < _ from hbig)]
          exact readTurns_of_not_reading (fun _ => FdPc.noConfusion) _
        · rename_i hsmall
          rw [if_neg (show ¬ maxRequest < _ from hsmall)]
          exact ih _

/-! ### What a stream asks for -/

theorem requestOf_frame {f : List UInt8} (hf : 0 ∉ f) (m : List UInt8) :
    requestOf fromSlice (f ++ 0 :: m) =
      if maxRequest < f.length then .overSize else parsePayload fromSlice f := by
  rw [requestOf, takeWhile_frame hf, if_pos (List.mem_append_right _ (List.mem_cons_self ..))]

theorem takeWhile_of_not_mem {f : List UInt8} (hf : 0 ∉ f) (m : List UInt8) :
    ((f ++ m).takeWhile fun b => decide (b ≠ 0)) = f ++ m.takeWhile fun b => decide (b ≠ 0) := by
  refine List.takeWhile_append_of_pos fun b hb => decide_eq_true ?_
  rintro rfl
  exact hf hb

theorem requestOf_long {f : List UInt8} (hf : 0 ∉ f) (hlen : maxRequest < f.length) (m : List UInt8) :
    requestOf fromSlice (f ++ m) = .overSize := by
  rw [requestOf, takeWhile_of_not_mem hf, if_pos]
  rw [List.length_append]
  omega

theorem requestOf_ended {f : List UInt8} (hf : 0 ∉ f) (hlen : ¬ maxRequest < f.length) :
    requestOf fromSlice f = .ended := by
  have htake := takeWhile_of_not_mem hf []
  rw [List.append_nil, List.takeWhile_nil, List.append_nil] at htake
  rw [requestOf, htake, if_neg hlen, if_neg hf]

/-! ### The loop -/

theorem readRequest_nul {scratch f m : List UInt8} (hf : 0 ∉ scratch ++ f) (reads : List (List UInt8)) :
    readRequest fromSlice scratch ((f ++ 0 :: m) :: reads) = parsePayload fromSlice (scratch ++ f) := by
  have hnil : f ++ 0 :: m ≠ [] := by simp
  have hmem : 0 ∈ scratch ++ (f ++ 0 :: m) := by simp
  rw [readRequest, if_neg hnil, if_pos hmem, ← List.append_assoc, takeWhile_frame hf]

/-- The loop does what the stream asks for, unless the NUL comes late. -/
theorem readRequest_eq {scratch : List UInt8} {reads : List (List UInt8)} (hscratch : 0 ∉ scratch)
    (hlen : ¬ maxRequest < scratch.length) (hchunk : ∀ r ∈ reads, r ≠ [] ∧ r.length ≤ maxChunk)
    (hlate : ¬ LateNul (scratch ++ reads.flatten)) :
    readRequest fromSlice scratch reads = requestOf fromSlice (scratch ++ reads.flatten) := by
  induction reads generalizing scratch with
  | nil =>
    rw [List.flatten_nil, List.append_nil, requestOf_ended hscratch hlen]
    rfl
  | cons chunk reads ih =>
    obtain ⟨⟨hne, hle⟩, hrest⟩ := List.forall_mem_cons.mp hchunk
    rw [List.flatten_cons, ← List.append_assoc] at hlate ⊢
    by_cases hnul : 0 ∈ chunk
    · obtain ⟨f, m, rfl, hf⟩ := List.eq_append_cons_of_mem hnul
      have hsf : 0 ∉ scratch ++ f := by
        rw [List.mem_append]
        exact not_or.mpr ⟨hscratch, hf⟩
      have hstream : scratch ++ (f ++ 0 :: m) ++ reads.flatten =
          scratch ++ f ++ 0 :: (m ++ reads.flatten) := by simp
      rw [readRequest_nul hsf, hstream, requestOf_frame hsf, if_neg]
      -- a payload over the limit would end within the buffer of this read
      intro hbig
      refine hlate ⟨scratch ++ f, m ++ reads.flatten, hstream, hsf, hbig, ?_⟩
      rw [List.length_append, List.length_cons] at hle
      rw [List.length_append]
      omega
    · have hno : 0 ∉ scratch ++ chunk := by
        rw [List.mem_append]
        exact not_or.mpr ⟨hscratch, hnul⟩
      rw [readRequest, if_neg hne, if_neg hno]
      by_cases hbig : maxRequest < (scratch ++ chunk).length
      · rw [if_pos hbig, requestOf_long hno hbig]
      · rw [if_neg hbig, ih hno hbig hrest hlate]

theorem readRequest_append {scratch : List UInt8} {reads rest : List (List UInt8)}
    (hchunk : ∀ r ∈ reads, r ≠ []) (hno : 0 ∉ scratch ++ reads.flatten)
    (hlen : ¬ maxRequest < (scratch ++ reads.flatten).length) :
    readRequest fromSlice scratch (reads ++ rest) =
      readRequest fromSlice (scratch ++ reads.flatten) rest := by
  induction reads generalizing scratch with
  | nil => rw [List.flatten_nil, List.append_nil, List.nil_append]
  | cons chunk reads ih =>
    obtain ⟨hne, hrest⟩ := List.forall_mem_cons.mp hchunk
    rw [List.flatten_cons, ← List.append_assoc] at hno hlen ⊢
    have hno' : 0 ∉ scratch ++ chunk := fun h => hno (List.mem_append_left _ h)
    have hlen' : ¬ maxRequest < (scratch ++ chunk).length := by
      rw [List.length_append] at hlen
      omega
    rw [List.cons_append, readRequest, if_neg hne, if_neg hno', if_neg hlen', ih hrest hno hlen]

theorem splits_bytes (l : List UInt8) : Splits l (l.map fun b => [b]) := by
  refine ⟨?_, fun r hr => ?_⟩
  · rw [← List.flatMap_def]
    exact List.flatMap_singleton' l
  · obtain ⟨b, -, rfl⟩ := List.mem_map.mp hr
    have hone : 1 ≤ maxChunk := by decide
    exact ⟨List.cons_ne_nil _ _, hone⟩

theorem exists_splits_parse (fromSlice : List UInt8 → Option FdRequest) {f : List UInt8}
    (m : List UInt8) (hf : 0 ∉ f) (hlong : maxRequest < f.length)
    (hlen : f.length < maxRequest + maxChunk) :
    ∃ reads, Splits (f ++ 0 :: m) reads ∧ readRequest fromSlice [] reads = parsePayload fromSlice f := by
  have hbefore := splits_bytes (f.take maxRequest)
  have hbehind := splits_bytes m
  have htake : (f.take maxRequest).length = maxRequest := List.length_take_of_le (Nat.le_of_lt hlong)
  have hno : 0 ∉ f.take maxRequest := fun h => hf (List.mem_of_mem_take h)
  refine ⟨(f.take maxRequest).map (fun b => [b]) ++ (f.drop maxRequest ++ [0]) :: m.map fun b => [b],
    ⟨?_, ?_⟩, ?_⟩
  · rw [List.flatten_append, List.flatten_cons, hbefore.flatten, hbehind.flatten, ← List.append_assoc,
      ← List.append_assoc, List.take_append_drop, List.append_assoc, List.singleton_append]
  · intro r hr
    rcases List.mem_append.mp hr with hr | hr
    · exact hbefore.chunk r hr
    · rcases List.mem_cons.mp hr with rfl | hr
      · refine ⟨by simp, ?_⟩
        rw [List.length_append, List.length_drop, List.length_singleton]
        omega
      · exact hbehind.chunk r hr
  · rw [readRequest_append (fun r hr => (hbefore.chunk r hr).1) (by rwa [hbefore.flatten])
      (by rw [hbefore.flatten, List.nil_append, htake]; exact Nat.lt_irrefl _), hbefore.flatten,
      List.nil_append, readRequest_nul (by rwa [List.take_append_drop]), List.take_append_drop]

theorem parsePayload_ne_overSize (payload : List UInt8) :
    parsePayload fromSlice payload ≠ .overSize := by
  unfold parsePayload
  split <;> exact FdRead.noConfusion

/-- Framing: in whatever non-empty reads a stream arrives, the outcome is the one
that the stream asks for, if and only if its first NUL does not come late. -/
theorem fd_framing_iff (fromSlice : List UInt8 → Option FdRequest) (stream : List UInt8) :
    (∀ reads, Splits stream reads → readRequest fromSlice [] reads = requestOf fromSlice stream) ↔
      ¬ LateNul stream := by
  constructor
  · rintro h ⟨f, m, rfl, hf, hlong, hlen⟩
    obtain ⟨reads, hsplits, hread⟩ := exists_splits_parse fromSlice m hf hlong hlen
    rw [h reads hsplits, requestOf_frame hf, if_pos hlong] at hread
    exact parsePayload_ne_overSize f hread.symm
  · rintro hlate reads ⟨rfl, hchunk⟩
    exact readRequest_eq List.not_mem_nil (by decide) hchunk hlate

def createRequest : FdRequest := { action := "create", name := none, sizeBytes := none }

def createText : List UInt8 := "\x7b\"action\":\"create\"\x7d".toList.map Char.toUInt8

/-- The text behind any blanks is the request. -/
def createParser (bytes : List UInt8) : Option FdRequest :=
  if (bytes.dropWhile fun b => decide (b = 32)) = createText then some createRequest else none

/-- A request behind so many blanks that it ends 3 bytes over the limit. -/
def paddedRequest : List UInt8 := List.replicate 65520 32 ++ createText

theorem paddedRequest_accepted :
    maxRequest < paddedRequest.length ∧ 0 ∉ paddedRequest ∧
      ∃ reads, Splits (paddedRequest ++ [0]) reads ∧
        readRequest createParser [] reads = .request createRequest ∧
        readRequest createParser [] reads ≠ requestOf createParser (paddedRequest ++ [0]) := by
  have htext : createText.length = 19 := by decide
  have hlength : paddedRequest.length = 65539 := by
    rw [paddedRequest, List.length_append, List.length_replicate, htext]
  have hlong : maxRequest < paddedRequest.length := by
    rw [hlength]
    decide
  have hshort : paddedRequest.length < maxRequest + maxChunk := by
    rw [hlength]
    decide
  have hno : 0 ∉ paddedRequest := by
    rw [paddedRequest, List.mem_append, List.mem_replicate]
    decide
  have hparse : createParser paddedRequest = some createRequest := by
    have hdrop : (paddedRequest.dropWhile fun b => decide (b = 32)) = createText := by
      rw [paddedRequest, List.dropWhile_append_of_pos fun b hb => by
        rw [List.eq_of_mem_replicate hb]
        rfl]
      decide
    rw [createParser, if_pos hdrop]
  obtain ⟨reads, hsplits, hread⟩ := exists_splits_parse createParser [] hno hlong hshort
  refine ⟨hlong, hno, reads, hsplits, ?_, ?_⟩
  · rw [hread, parsePayload, hparse]
  · rw [hread, requestOf_frame hno, if_pos hlong]
    exact parsePayload_ne_overSize _

end Inferenced.FdServer
