import Inferenced.Client
import Inferenced.Lib.Utf8

/-!
# Replies of one client (client.rs:24-47)

The calls of a client share one reader. A call that finds no NUL within the
limit fails and leaves the rest of its reply in the reader. From then on there
is an unread NUL before every call, so every later call is answered by what an
earlier reply has left and not by the reply to its own request.
-/

namespace Inferenced.Client
open Lib.Framing Varlink

section
variable (toVec : Json → List UInt8) (fromSlice : List UInt8 → Option Json)

def runCalls (c : VarlinkClient) : List (String × Option Json) → List (Except CallError Json)
  | [] => []
  | (method, parameters) :: calls =>
    let out := call toVec fromSlice c method parameters true
    out.1 :: runCalls out.2 calls

/-- The outcome that a reply has by itself: that of a client that makes one
call. -/
def replyOutcome (frame : List UInt8) : Except CallError Json :=
  if frame.length < maxReply then callReply fromSlice (frame ++ [0]) else .error .framing

def replies (frames : List (List UInt8)) : List UInt8 := frames.flatMap (· ++ [0])

end

variable {toVec : Json → List UInt8} {fromSlice : List UInt8 → Option Json} {c : VarlinkClient}
  {f m p q : List UInt8} {method : String} {parameters : Option Json}

theorem replies_cons (f : List UInt8) (frames : List (List UInt8)) :
    replies (f :: frames) = f ++ 0 :: replies frames := by
  rw [replies, List.flatMap_cons, List.append_assoc]
  rfl

/-! ### One call -/

theorem call_of_readFrame {buf : List UInt8} {c' : VarlinkClient}
    (h : (c.write (toVec (callRequest method parameters))).readFrame = (some buf, c')) :
    call toVec fromSlice c method parameters true = (callReply fromSlice buf, c') := by
  rw [call, if_pos rfl, h]

theorem call_delim (toVec : Json → List UInt8) (fromSlice : List UInt8 → Option Json) (method : String)
    (parameters : Option Json) (hf : 0 ∉ f) (hlen : f.length < maxReply) (hc : c.reader.rest = f ++ 0 :: m) :
    ∃ c', call toVec fromSlice c method parameters true = (callReply fromSlice (f ++ [0]), c') ∧
      c'.reader.rest = m := by
  obtain ⟨c', hread, hrest, -⟩ :=
    readFrame_delim (c := c.write (toVec (callRequest method parameters))) hf hlen hc
  exact ⟨c', call_of_readFrame hread, hrest⟩

theorem callReply_cut {buf : List UInt8} (hne : buf ≠ []) (hno : 0 ∉ buf) :
    callReply fromSlice buf = .error .framing := by
  have hlast : buf.getLast? ≠ some 0 := fun h => hno (List.mem_of_getLast? h)
  rw [callReply, if_neg hne, if_neg hlast]

theorem call_full (toVec : Json → List UInt8) (fromSlice : List UInt8 → Option Json) (method : String)
    (parameters : Option Json) (hno : 0 ∉ c.reader.rest.take maxReply)
    (hlen : maxReply ≤ c.reader.rest.length) :
    ∃ c', call toVec fromSlice c method parameters true = (.error .framing, c') ∧
      c'.reader.rest = c.reader.rest.drop maxReply := by
  obtain ⟨c', hread, hrest, -⟩ :=
    readFrame_full (c := c.write (toVec (callRequest method parameters))) hno hlen
  have hcut : callReply fromSlice (c.reader.rest.take maxReply) = .error .framing :=
    callReply_cut (take_maxReply_ne_nil hlen) hno
  refine ⟨c', ?_, hrest⟩
  rw [call_of_readFrame hread, ← hcut]
  rfl

theorem call_overlong (toVec : Json → List UInt8) (fromSlice : List UInt8 → Option Json) (method : String)
    (parameters : Option Json) (hf : 0 ∉ f) (hlen : maxReply ≤ f.length)
    (hc : c.reader.rest = f ++ 0 :: m) :
    ∃ c', call toVec fromSlice c method parameters true = (.error .framing, c') ∧
      c'.reader.rest = f.drop maxReply ++ 0 :: m := by
  have hno : 0 ∉ c.reader.rest.take maxReply := by
    rw [hc, List.take_append_of_le_length hlen]
    exact fun h => hf (List.mem_of_mem_take h)
  have hfull : maxReply ≤ c.reader.rest.length := by
    rw [hc, List.length_append]
    omega
  obtain ⟨c', hcall, hrest⟩ := call_full toVec fromSlice method parameters hno hfull
  refine ⟨c', hcall, ?_⟩
  rw [hrest, hc, List.drop_append_of_le_length hlen]

/-! ### A reader that lags behind -/

def behind (p : List UInt8) : List UInt8 := p.drop (firstFrame 0 maxReply p).length

/-- The outcomes of calls that read from `p` only. -/
def lagged (fromSlice : List UInt8 → Option Json) : ℕ → List UInt8 → List (Except CallError Json)
  | 0, _ => []
  | n + 1, p => callReply fromSlice (firstFrame 0 maxReply p) :: lagged fromSlice n (behind p)

theorem behind_frame (hf : 0 ∉ f) (hlen : f.length < maxReply) (m : List UInt8) :
    behind (f ++ 0 :: m) = m := by
  rw [behind, firstFrame_of_delim hf hlen, List.append_cons f 0 m, List.drop_left]

theorem behind_cut (hno : 0 ∉ p.take maxReply) : behind p = p.drop maxReply := by
  rw [behind, firstFrame_of_not_mem hno, List.length_take, ← List.drop_eq_drop_min]

theorem lt_length_of_mem (h : 0 ∈ p) (hno : 0 ∉ p.take maxReply) : maxReply < p.length := by
  by_contra hle
  rw [List.take_of_length_le (Nat.le_of_not_lt hle)] at hno
  exact hno h

theorem call_lag (toVec : Json → List UInt8) (fromSlice : List UInt8 → Option Json) (method : String)
    (parameters : Option Json) (h : 0 ∈ p) (hc : c.reader.rest = p ++ q) :
    ∃ c', call toVec fromSlice c method parameters true =
        (callReply fromSlice (firstFrame 0 maxReply p), c') ∧ c'.reader.rest = behind p ++ q := by
  rcases exists_frame 0 maxReply p with hno | ⟨f, m, rfl, hf, hlen⟩
  · have hlt := lt_length_of_mem h hno
    have htake : c.reader.rest.take maxReply = p.take maxReply := by
      rw [hc, List.take_append_of_le_length (Nat.le_of_lt hlt)]
    have hlen : maxReply ≤ c.reader.rest.length := by
      rw [hc, List.length_append]
      omega
    obtain ⟨c', hcall, hrest⟩ := call_full toVec fromSlice method parameters (by rwa [htake]) hlen
    have hne := take_maxReply_ne_nil (Nat.le_of_lt hlt)
    refine ⟨c', ?_, ?_⟩
    · rw [hcall, firstFrame_of_not_mem hno, callReply_cut hne hno]
    · rw [hrest, hc, behind_cut hno, List.drop_append_of_le_length (Nat.le_of_lt hlt)]
  · rw [List.append_assoc, List.cons_append] at hc
    obtain ⟨c', hcall, hrest⟩ := call_delim toVec fromSlice method parameters hf hlen hc
    refine ⟨c', ?_, ?_⟩
    · rw [hcall, firstFrame_of_delim hf hlen]
    · rw [hrest, behind_frame hf hlen]

theorem count_behind (p : List UInt8) : p.count 0 ≤ (behind p).count 0 + 1 := by
  rcases exists_frame 0 maxReply p with hno | ⟨f, m, rfl, hf, hlen⟩
  · have hsplit : p.count 0 = (p.take maxReply).count 0 + (p.drop maxReply).count 0 := by
      rw [← List.count_append, List.take_append_drop]
    rw [behind_cut hno]
    rw [List.count_eq_zero_of_not_mem hno] at hsplit
    omega
  · rw [behind_frame hf hlen, List.count_append, List.count_eq_zero_of_not_mem hf, List.count_cons_self]
    omega

/-- As long as there are unread NULs for all calls, what the server sends later
does not matter. -/
theorem runCalls_lag (calls : List (String × Option Json)) (hcount : calls.length ≤ p.count 0)
    (hc : c.reader.rest = p ++ q) :
    runCalls toVec fromSlice c calls = lagged fromSlice calls.length p := by
  induction calls generalizing c p with
  | nil => rfl
  | cons next calls ih =>
    have hmem : 0 ∈ p := by
      rw [List.length_cons] at hcount
      exact List.count_pos_iff.mp (by omega)
    obtain ⟨c', hcall, hrest⟩ := call_lag toVec fromSlice next.1 next.2 hmem hc
    have hcount' : calls.length ≤ (behind p).count 0 := by
      have := count_behind p
      rw [List.length_cons] at hcount
      omega
    rw [runCalls, hcall, List.length_cons, lagged, ih hcount' hrest]

/-! ### The replies of a run -/

theorem replyOutcome_fits (h : f.length < maxReply) :
    replyOutcome fromSlice f = callReply fromSlice (f ++ [0]) := if_pos h

theorem runCalls_fit (calls : List (String × Option Json)) (before : List (List UInt8))
    {g : List UInt8} (hcalls : calls.length = before.length + 1) (hnul : ∀ f ∈ before, 0 ∉ f)
    (hg : 0 ∉ g) (hfit : ∀ f ∈ before, f.length < maxReply)
    (hc : c.reader.rest = replies (before ++ [g])) :
    runCalls toVec fromSlice c calls = (before ++ [g]).map (replyOutcome fromSlice) := by
  induction before generalizing c calls with
  | nil =>
    obtain ⟨next, rfl⟩ := List.length_eq_one_iff.mp hcalls
    rw [List.nil_append, replies_cons] at hc
    rw [runCalls, runCalls, List.nil_append, List.map_singleton]
    by_cases hlen : g.length < maxReply
    · obtain ⟨c', hcall, -⟩ := call_delim toVec fromSlice next.1 next.2 hg hlen hc
      rw [hcall, replyOutcome_fits hlen]
    · have hge := Nat.le_of_not_lt hlen
      obtain ⟨c', hcall, -⟩ := call_overlong toVec fromSlice next.1 next.2 hg hge hc
      rw [hcall, replyOutcome, if_neg hlen]
  | cons f before ih =>
    obtain ⟨hf, hnul⟩ := List.forall_mem_cons.mp hnul
    obtain ⟨hlen, hfit⟩ := List.forall_mem_cons.mp hfit
    cases calls with
    | nil => cases hcalls
    | cons next calls =>
      rw [List.cons_append, replies_cons] at hc
      obtain ⟨c', hcall, hrest⟩ := call_delim toVec fromSlice next.1 next.2 hf hlen hc
      rw [runCalls, hcall, List.cons_append, List.map_cons, replyOutcome_fits hlen,
        ih calls (Nat.succ.inj hcalls) hnul hfit hrest]

theorem count_replies (frames : List (List UInt8)) : frames.length ≤ (replies frames).count 0 := by
  induction frames with
  | nil => exact Nat.zero_le _
  | cons f frames ih =>
    rw [replies_cons, List.count_append, List.count_cons_self, List.length_cons]
    omega

theorem runCalls_overlong (toVec : Json → List UInt8) (fromSlice : List UInt8 → Option Json)
    (calls : List (String × Option Json)) (before : List (List UInt8))
    (hcalls : calls.length = before.length + 1) (hnul : ∀ f ∈ before, 0 ∉ f)
    (hlong : ∃ f ∈ before, maxReply ≤ f.length) :
    ∃ outcomes, ∀ (g : List UInt8) (c : VarlinkClient), c.reader.rest = replies (before ++ [g]) →
      runCalls toVec fromSlice c calls = outcomes := by
  induction before generalizing calls with
  | nil =>
    obtain ⟨f, hf, -⟩ := hlong
    cases hf
  | cons f before ih =>
    obtain ⟨hf, hnul⟩ := List.forall_mem_cons.mp hnul
    cases calls with
    | nil => cases hcalls
    | cons next calls =>
      have hcalls' : calls.length = before.length + 1 := Nat.succ.inj hcalls
      by_cases hlen : f.length < maxReply
      · have hlong' : ∃ f ∈ before, maxReply ≤ f.length := by
          obtain ⟨x, hx, hxlen⟩ := hlong
          rcases List.mem_cons.mp hx with rfl | hx
          · exact absurd hlen (Nat.not_lt_of_le hxlen)
          · exact ⟨x, hx, hxlen⟩
        obtain ⟨outcomes, houtcomes⟩ := ih calls hcalls' hnul hlong'
        refine ⟨callReply fromSlice (f ++ [0]) :: outcomes, fun g c hc => ?_⟩
        rw [List.cons_append, replies_cons] at hc
        obtain ⟨c', hcall, hrest⟩ := call_delim toVec fromSlice next.1 next.2 hf hlen hc
        rw [runCalls, hcall, houtcomes g c' hrest]
      · -- the rest of `f` and the replies before the last hold a NUL for every call
        have hge := Nat.le_of_not_lt hlen
        refine ⟨.error .framing ::
          lagged fromSlice calls.length (f.drop maxReply ++ 0 :: replies before), fun g c hc => ?_⟩
        rw [List.cons_append, replies_cons] at hc
        obtain ⟨c', hcall, hrest⟩ := call_overlong toVec fromSlice next.1 next.2 hf hge hc
        have hsplit : c'.reader.rest = (f.drop maxReply ++ 0 :: replies before) ++ replies [g] := by
          rw [hrest, List.append_assoc, List.cons_append]
          simp only [replies, List.flatMap_append]
        have hcount : calls.length ≤ (f.drop maxReply ++ 0 :: replies before).count 0 := by
          have := count_replies before
          rw [List.count_append, List.count_cons_self, hcalls']
          omega
        rw [runCalls, hcall, runCalls_lag calls hcount hsplit]

theorem callReply_delim_ne_framing (f : List UInt8) :
    callReply fromSlice (f ++ [0]) ≠ .error .framing := by
  rw [callReply, if_neg (by simp), List.getLast?_concat, if_pos rfl, List.dropLast_concat, checkReply]
  split
  · rename_i hcheck
    split at hcheck
    · cases hcheck
      exact fun h => by cases h
    · split at hcheck
      · cases hcheck
        exact fun h => by cases h
      · cases hcheck
  · exact fun h => by cases h

/-- Replies are not mixed up: whatever the last reply is and in whatever pieces
the replies arrive, every call gets the outcome of its own reply, if and only if
no earlier reply exceeds the limit. -/
theorem replies_not_mixed_iff (toVec : Json → List UInt8) (fromSlice : List UInt8 → Option Json)
    (broken : Bool) (calls : List (String × Option Json)) (before : List (List UInt8))
    (hcalls : calls.length = before.length + 1) (hnul : ∀ f ∈ before, 0 ∉ f) :
    (∀ g, 0 ∉ g → ∀ reads : List (List UInt8), reads.flatten = replies (before ++ [g]) →
      runCalls toVec fromSlice ⟨[], ⟨[], reads⟩, broken⟩ calls =
        (before ++ [g]).map (replyOutcome fromSlice)) ↔
    ∀ f ∈ before, f.length < maxReply := by
  constructor
  · intro h
    by_contra hnot
    have hlong : ∃ f ∈ before, maxReply ≤ f.length := by
      simpa only [not_forall, exists_prop, Nat.not_lt] using hnot
    obtain ⟨outcomes, houtcomes⟩ := runCalls_overlong toVec fromSlice calls before hcalls hnul hlong
    have hall : ∀ g, 0 ∉ g → (before ++ [g]).map (replyOutcome fromSlice) = outcomes := by
      intro g hg
      have hflat : [replies (before ++ [g])].flatten = replies (before ++ [g]) := by simp
      rw [← h g hg [replies (before ++ [g])] hflat]
      exact houtcomes g _ hflat
    -- an empty reply and an overlong one have different outcomes
    have hlong : 0 ∉ List.replicate maxReply (1 : UInt8) := fun h => by
      cases List.eq_of_mem_replicate h
    have hsame := (hall [] List.not_mem_nil).trans (hall (List.replicate maxReply 1) hlong).symm
    rw [List.map_append, List.map_append, List.append_right_inj, List.map_singleton,
      List.map_singleton, List.singleton_inj, replyOutcome_fits (by decide), replyOutcome,
      if_neg (by rw [List.length_replicate]; exact Nat.lt_irrefl _)] at hsame
    exact callReply_delim_ne_framing [] hsame
  · intro hfit g hg reads hreads
    exact runCalls_fit calls before hcalls hnul hg hfit hreads

/-! ### A reply of one mebibyte -/

def textOf (s : String) : List UInt8 := Lib.Utf8.ascii s.toList

def requestText : Json → List UInt8
  | .object [("method", .string method), ("parameters", .object [])] =>
    textOf ("\x7b\"method\":\"" ++ method ++ "\",\"parameters\":\x7b\x7d\x7d")
  | _ => []

def emptyReply : List UInt8 := textOf "\x7b\"parameters\":\x7b\x7d\x7d"

def emptyReplyParser (bytes : List UInt8) : Option Json :=
  if bytes = emptyReply then some (.object [("parameters", .object [])]) else none

def dumpCalls : List (String × Option Json) :=
  [("io.systemd.inferenced1.ListModels", none), ("org.varlink.service.GetInfo", none)]

theorem replyOutcome_emptyReply : replyOutcome emptyReplyParser emptyReply = .ok (.object []) := by
  have hfits : emptyReply.length < maxReply := by decide
  rw [replyOutcome_fits hfits, callReply, if_neg (by decide), List.getLast?_concat, if_pos rfl,
    List.dropLast_concat, checkReply, emptyReplyParser, if_pos rfl]
  rfl

theorem short_replies_not_mixed :
    runCalls requestText emptyReplyParser ⟨[], ⟨[], [replies [emptyReply, emptyReply]]⟩, false⟩ dumpCalls =
      [.ok (.object []), .ok (.object [])] := by
  have hiff := replies_not_mixed_iff requestText emptyReplyParser false dumpCalls [emptyReply] rfl
    (List.forall_mem_singleton.mpr (by decide))
  have hfit : ∀ f ∈ [emptyReply], f.length < maxReply := List.forall_mem_singleton.mpr (by decide)
  rw [hiff.mpr hfit emptyReply (by decide) _ (by simp)]
  simp only [List.singleton_append, List.map_cons, List.map_nil, replyOutcome_emptyReply]

/-- The second call of a dump reads the NUL of the first reply. -/
theorem overlong_reply_answers_next_call :
    runCalls requestText emptyReplyParser
        ⟨[], ⟨[], [replies [List.replicate maxReply 32, emptyReply]]⟩, false⟩ dumpCalls =
      [.error .framing, .error .parse] ∧
    [.error .framing, .error .parse] ≠
      [List.replicate maxReply 32, emptyReply].map (replyOutcome emptyReplyParser) := by
  have hblanks : 0 ∉ List.replicate maxReply (32 : UInt8) := fun h => by
    cases List.eq_of_mem_replicate h
  have hlength : (List.replicate maxReply (32 : UInt8)).length = maxReply := List.length_replicate
  constructor
  · have hrest : (BufReader.mk [] [replies [List.replicate maxReply 32, emptyReply]]).rest =
        List.replicate maxReply 32 ++ 0 :: replies [emptyReply] := by
      simp [BufReader.rest, replies_cons]
    obtain ⟨c₁, hcall₁, hrest₁⟩ := call_overlong requestText emptyReplyParser
      "io.systemd.inferenced1.ListModels" none
      (c := ⟨[], ⟨[], [replies [List.replicate maxReply 32, emptyReply]]⟩, false⟩)
      hblanks (Nat.le_of_eq hlength.symm) hrest
    have hdrop : c₁.reader.rest = [] ++ 0 :: replies [emptyReply] := by
      rw [hrest₁, List.drop_eq_nil_of_le (Nat.le_of_eq hlength)]
    obtain ⟨c₂, hcall₂, -⟩ := call_delim requestText emptyReplyParser
      "org.varlink.service.GetInfo" none List.not_mem_nil (by decide) hdrop
    rw [dumpCalls, runCalls, hcall₁, runCalls, hcall₂, runCalls]
    rfl
  · intro h
    have hsecond := congrArg (fun l => l[1]?) h
    simp only [List.map_cons, List.map_nil, List.getElem?_cons_succ, List.getElem?_cons_zero,
      replyOutcome_emptyReply, Option.some_inj] at hsecond
    cases hsecond

end Inferenced.Client
