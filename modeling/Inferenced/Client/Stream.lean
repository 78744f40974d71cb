import Inferenced.Client
import Inferenced.Lib.Utf8

/-!
# Streams of replies (client.rs:49-88)

A stream of replies is complete when it comes to a reply without `continues`.
The loop of `stream_call` also returns `Ok` when the connection is closed
between two replies, so a stream that has been cut there passes for a complete
one.
-/

namespace Inferenced.Client
open Lib.Framing Varlink

inductive Ending where
  /-- A reply without `continues`; the bytes behind it. -/
  | finished (rest : List UInt8)
  /-- The connection is closed where the next reply would begin. -/
  | cut
  /-- A reply that is an error, does not parse or does not fit, or the stream
  ends in the middle of a reply, or a read fails. -/
  | failed

section
variable (fromSlice : List UInt8 → Option Json)

/-- The bytes are a reply that is not an error, and its NUL is within the
limit. -/
structure WellFormed (f : List UInt8) (resp : Json) : Prop where
  noNul : 0 ∉ f
  fits : f.length < maxReply
  check : checkReply fromSlice f = .ok resp

/-- A stream of bytes is the replies `msgs` and then ends in this way; `broken`
says that it ends with a read that fails. -/
inductive Stream (broken : Bool) : List UInt8 → List Json → Ending → Prop
  | finished {f rest : List UInt8} {resp : Json} (hf : WellFormed fromSlice f resp)
      (hlast : continues resp = false) : Stream broken (f ++ 0 :: rest) [resp] (.finished rest)
  | more {f rest : List UInt8} {resp : Json} {msgs : List Json} {e : Ending}
      (hf : WellFormed fromSlice f resp) (hmore : continues resp = true)
      (hrest : Stream broken rest msgs e) : Stream broken (f ++ 0 :: rest) (resp :: msgs) e
  | cut (hb : broken = false) : Stream broken [] [] .cut
  | failed {stream : List UInt8} (hend : stream = [] → broken = true)
      (hbad : ∀ f rest resp, stream = f ++ 0 :: rest → ¬ WellFormed fromSlice f resp) :
      Stream broken stream [] .failed

end

/-- The calls of a callback, in order, up to one that fails. -/
def feed {σ ε : Type} (onMessage : σ → Json → Except ε Unit × σ) (s : σ) :
    List Json → Except ε Unit × σ
  | [] => (.ok (), s)
  | msg :: msgs =>
    match onMessage s msg with
    | (.error e, s') => (.error e, s')
    | (.ok (), s') => feed onMessage s' msgs

variable {fromSlice : List UInt8 → Option Json} {broken : Bool} {σ ε : Type}
  {onMessage : σ → Json → Except ε Unit × σ} {c c' : VarlinkClient} {s : σ} {stream : List UInt8}
  {msgs : List Json} {e : Ending}

/-! ### Every stream is of one kind -/

theorem Stream.exists_of (fromSlice : List UInt8 → Option Json) (broken : Bool) (stream : List UInt8) :
    ∃ msgs e, Stream fromSlice broken stream msgs e := by
  induction hn : stream.length using Nat.strong_induction_on generalizing stream with
  | _ n ih =>
    by_cases hgood : ∃ f rest resp, stream = f ++ 0 :: rest ∧ WellFormed fromSlice f resp
    · obtain ⟨f, rest, resp, rfl, hf⟩ := hgood
      cases hcont : continues resp with
      | false => exact ⟨_, _, .finished hf hcont⟩
      | true =>
        have hlt : rest.length < n := by
          rw [← hn, List.length_append, List.length_cons]
          omega
        obtain ⟨msgs, e, hrest⟩ := ih _ hlt rest rfl
        exact ⟨_, _, .more hf hcont hrest⟩
    · have hbad : ∀ f rest resp, stream = f ++ 0 :: rest → ¬ WellFormed fromSlice f resp :=
        fun f rest resp heq hf => hgood ⟨f, rest, resp, heq, hf⟩
      by_cases hcut : stream = [] ∧ broken = false
      · obtain ⟨rfl, hb⟩ := hcut
        exact ⟨_, _, .cut hb⟩
      · refine ⟨_, _, .failed (fun hnil => ?_) hbad⟩
        by_contra hb
        exact hcut ⟨hnil, Bool.eq_false_iff.mpr hb⟩

theorem WellFormed.unique {f g m n : List UInt8} {resp resp' : Json} (hf : WellFormed fromSlice f resp)
    (hg : WellFormed fromSlice g resp') (h : f ++ 0 :: m = g ++ 0 :: n) : m = n ∧ resp = resp' := by
  obtain ⟨rfl, hmn⟩ := frame_inj hf.noNul hg.noNul h
  have hcheck := hf.check.symm.trans hg.check
  exact ⟨hmn, Except.ok.inj hcheck⟩

theorem Stream.inv (h : Stream fromSlice broken stream msgs e) :
    (∃ f rest resp, stream = f ++ 0 :: rest ∧ WellFormed fromSlice f resp ∧
      (continues resp = false ∧ msgs = [resp] ∧ e = .finished rest ∨
        continues resp = true ∧ ∃ msgs', msgs = resp :: msgs' ∧ Stream fromSlice broken rest msgs' e)) ∨
    (stream = [] ∧ broken = false ∧ msgs = [] ∧ e = .cut) ∨
    ((stream = [] → broken = true) ∧ msgs = [] ∧ e = .failed ∧
      ∀ f rest resp, stream = f ++ 0 :: rest → ¬ WellFormed fromSlice f resp) := by
  cases h with
  | finished hf hlast => exact Or.inl ⟨_, _, _, rfl, hf, Or.inl ⟨hlast, rfl, rfl⟩⟩
  | more hf hmore hrest => exact Or.inl ⟨_, _, _, rfl, hf, Or.inr ⟨hmore, _, rfl, hrest⟩⟩
  | cut hb => exact Or.inr (Or.inl ⟨rfl, hb, rfl, rfl⟩)
  | failed hend hbad => exact Or.inr (Or.inr ⟨hend, rfl, rfl, hbad⟩)

theorem Stream.unique {msgs' : List Json} {e' : Ending} (h : Stream fromSlice broken stream msgs e)
    (h' : Stream fromSlice broken stream msgs' e') : msgs = msgs' ∧ e = e' := by
  induction h generalizing msgs' e' with
  | finished hf hlast =>
    rcases h'.inv with ⟨g, rest', resp', heq, hg, hcase⟩ | ⟨hnil, -⟩ | ⟨-, -, -, hbad⟩
    · obtain ⟨rfl, rfl⟩ := hf.unique hg heq
      rcases hcase with ⟨-, rfl, rfl⟩ | ⟨hmore, -⟩
      · exact ⟨rfl, rfl⟩
      · rw [hlast] at hmore
        cases hmore
    · simp at hnil
    · exact absurd hf (hbad _ _ _ rfl)
  | more hf hmore hrest ih =>
    rcases h'.inv with ⟨g, rest', resp', heq, hg, hcase⟩ | ⟨hnil, -⟩ | ⟨-, -, -, hbad⟩
    · obtain ⟨rfl, rfl⟩ := hf.unique hg heq
      rcases hcase with ⟨hlast, -⟩ | ⟨-, msgs'', rfl, hrest'⟩
      · rw [hlast] at hmore
        cases hmore
      · obtain ⟨rfl, rfl⟩ := ih hrest'
        exact ⟨rfl, rfl⟩
    · simp at hnil
    · exact absurd hf (hbad _ _ _ rfl)
  | cut hb =>
    rcases h'.inv with ⟨g, rest', resp', heq, -⟩ | ⟨-, -, rfl, rfl⟩ | ⟨hend, -⟩
    · simp at heq
    · exact ⟨rfl, rfl⟩
    · rw [hb] at hend
      cases hend rfl
  | failed hend hbad =>
    rcases h'.inv with ⟨g, rest', resp', heq, hg, -⟩ | ⟨hnil, hb, -⟩ | ⟨-, rfl, rfl, -⟩
    · exact absurd hg (hbad _ _ _ heq)
    · rw [hend hnil] at hb
      cases hb
    · exact ⟨rfl, rfl⟩

/-! ### The turns of the loop -/

theorem streamLoop_read (h : c.readFrame = (none, c')) :
    streamLoop fromSlice onMessage c s = (.error (.call .read), s, c') := by
  rw [streamLoop]
  split
  · rename_i h'
    rw [h] at h'
    cases h'
    rfl
  · rename_i h'
    rw [h] at h'
    cases h'

theorem streamLoop_some {buf : List UInt8} (h : c.readFrame = (some buf, c')) :
    streamLoop fromSlice onMessage c s =
      if buf = [] then (.ok (), s, c')
      else if buf.getLast? = some 0 then
        match checkReply fromSlice buf.dropLast with
        | .error e => (.error (.call e), s, c')
        | .ok resp =>
          match onMessage s resp with
          | (.error e, s') => (.error (.onMessage e), s', c')
          | (.ok (), s') =>
            if continues resp then streamLoop fromSlice onMessage c' s' else (.ok (), s', c')
      else (.error (.call .framing), s, c') := by
  rw [streamLoop]
  split
  · rename_i h'
    rw [h] at h'
    cases h'
  · rename_i h'
    rw [h] at h'
    cases h'
    rfl

theorem streamLoop_framing {buf : List UInt8} (h : c.readFrame = (some buf, c')) (hne : buf ≠ [])
    (hno : 0 ∉ buf) : streamLoop fromSlice onMessage c s = (.error (.call .framing), s, c') := by
  have hlast : buf.getLast? ≠ some 0 := fun h => hno (List.mem_of_getLast? h)
  rw [streamLoop_some h, if_neg hne, if_neg hlast]

theorem streamLoop_delim (fromSlice : List UInt8 → Option Json)
    (onMessage : σ → Json → Except ε Unit × σ) (s : σ) {f m : List UInt8} (hf : 0 ∉ f)
    (hlen : f.length < maxReply) (hc : c.reader.rest = f ++ 0 :: m) :
    ∃ c', c'.reader.rest = m ∧ c'.broken = c.broken ∧
      streamLoop fromSlice onMessage c s =
        match checkReply fromSlice f with
        | .error e => (.error (.call e), s, c')
        | .ok resp =>
          match onMessage s resp with
          | (.error e, s') => (.error (.onMessage e), s', c')
          | (.ok (), s') =>
            if continues resp then streamLoop fromSlice onMessage c' s' else (.ok (), s', c') := by
  obtain ⟨c', hread, hrest, hbroken⟩ := readFrame_delim hf hlen hc
  refine ⟨c', hrest, hbroken, ?_⟩
  rw [streamLoop_some hread, if_neg (by simp), List.getLast?_concat, if_pos rfl, List.dropLast_concat]

theorem streamLoop_failed (onMessage : σ → Json → Except ε Unit × σ) (s : σ)
    (hend : c.reader.rest = [] → c.broken = true)
    (hbad : ∀ f rest resp, c.reader.rest = f ++ 0 :: rest → ¬ WellFormed fromSlice f resp) :
    ∃ e c', streamLoop fromSlice onMessage c s = (.error (.call e), s, c') := by
  rcases exists_frame 0 maxReply c.reader.rest with hno | ⟨f, m, hc, hf, hlen⟩
  · by_cases hlen : maxReply ≤ c.reader.rest.length
    · obtain ⟨c', hread, -⟩ := readFrame_full hno hlen
      exact ⟨_, _, streamLoop_framing hread (take_maxReply_ne_nil hlen) hno⟩
    · have hlt := Nat.lt_of_not_le hlen
      rw [List.take_of_length_le (Nat.le_of_lt hlt)] at hno
      obtain ⟨c', hread⟩ := readFrame_end hno hlt
      cases hb : c.broken with
      | true =>
        rw [hb, if_pos rfl] at hread
        exact ⟨_, _, streamLoop_read hread⟩
      | false =>
        rw [hb, if_neg Bool.false_ne_true] at hread
        have hne : c.reader.rest ≠ [] := fun hnil => by
          rw [hend hnil] at hb
          cases hb
        exact ⟨_, _, streamLoop_framing hread hne hno⟩
  · obtain ⟨c', -, -, hloop⟩ := streamLoop_delim fromSlice onMessage s hf hlen hc
    cases hcheck : checkReply fromSlice f with
    | error e =>
      rw [hcheck] at hloop
      exact ⟨_, _, hloop⟩
    | ok resp => exact absurd ⟨hf, hlen, hcheck⟩ (hbad f m resp hc)

/-! ### The loop on a stream -/

/-- What the loop makes of a stream: the callback sees its messages in order,
and the result is `Ok` unless the callback or the stream fails. -/
theorem streamLoop_stream (onMessage : σ → Json → Except ε Unit × σ)
    (h : Stream fromSlice broken stream msgs e) (hc : c.reader.rest = stream) (hb : c.broken = broken)
    (s : σ) :
    (streamLoop fromSlice onMessage c s).2.1 = (feed onMessage s msgs).2 ∧
      ((streamLoop fromSlice onMessage c s).1 = .ok () ↔
        (feed onMessage s msgs).1 = .ok () ∧ e ≠ .failed) ∧
      ∀ rest, e = .finished rest → (feed onMessage s msgs).1 = .ok () →
        (streamLoop fromSlice onMessage c s).2.2.reader.rest = rest := by
  induction h generalizing c s with
  | @finished f rest resp hf hlast =>
    obtain ⟨c', hrest, -, hloop⟩ := streamLoop_delim fromSlice onMessage s hf.noNul hf.fits hc
    rw [hf.check] at hloop
    rw [hloop]
    simp only [feed]
    rcases onMessage s resp with ⟨_ | _, s'⟩
    · exact ⟨rfl, by simp, fun _ _ h => by cases h⟩
    · simp only [hlast, Bool.false_eq_true, if_false]
      refine ⟨trivial, by simp, fun rest' h _ => ?_⟩
      cases h
      exact hrest
  | @more f rest resp msgs e hf hmore hstream ih =>
    obtain ⟨c', hrest, hbroken, hloop⟩ := streamLoop_delim fromSlice onMessage s hf.noNul hf.fits hc
    rw [hf.check] at hloop
    rw [hloop]
    simp only [feed]
    rcases onMessage s resp with ⟨_ | _, s'⟩
    · exact ⟨rfl, by simp, fun _ _ h => by cases h⟩
    · simp only [hmore, if_true]
      exact ih hrest (hbroken.trans hb) s'
  | cut hclosed =>
    obtain ⟨c', hread⟩ := readFrame_end (c := c) (by rw [hc]; exact List.not_mem_nil) (by rw [hc]; decide)
    rw [hb, hclosed, if_neg Bool.false_ne_true, hc] at hread
    rw [streamLoop_some hread, if_pos rfl]
    exact ⟨rfl, by simp [feed], fun _ h => by cases h⟩
  | failed hend hbad =>
    obtain ⟨err, c', hloop⟩ := streamLoop_failed (c := c) onMessage s
      (fun hnil => hb.trans (hend (hc.symm.trans hnil)))
      (fun f rest resp heq => hbad f rest resp (hc.symm.trans heq))
    rw [hloop]
    exact ⟨rfl, by simp, fun _ h => by cases h⟩

/-- A truncated stream is an error: `stream_call` returns `Ok` only after a
complete stream of replies, all of which the callback has seen in order, if and
only if it is not the case that the request was written and the connection was
closed between two replies of which the callback refused none. -/
theorem stream_call_complete_iff (toVec : Json → List UInt8) (fromSlice : List UInt8 → Option Json)
    (onMessage : σ → Json → Except ε Unit × σ) (c : VarlinkClient) (method : String)
    (parameters : Option Json) (written : Bool) (s : σ) :
    ((streamCall toVec fromSlice onMessage c method parameters written s).1 = .ok () →
      ∃ msgs rest, Stream fromSlice c.broken c.reader.rest msgs (.finished rest) ∧
        feed onMessage s msgs =
          (.ok (), (streamCall toVec fromSlice onMessage c method parameters written s).2.1) ∧
        (streamCall toVec fromSlice onMessage c method parameters written s).2.2.reader.rest = rest) ↔
    ¬ (written = true ∧ ∃ msgs, Stream fromSlice c.broken c.reader.rest msgs .cut ∧
      (feed onMessage s msgs).1 = .ok ()) := by
  cases written with
  | false =>
    have hwrite : (streamCall toVec fromSlice onMessage c method parameters false s).1 ≠ .ok () :=
      fun h => by cases h
    exact iff_of_true (fun h => absurd h hwrite) fun h => by cases h.1
  | true =>
    obtain ⟨msgs, e, hstream⟩ := Stream.exists_of fromSlice c.broken c.reader.rest
    obtain ⟨hstate, hok, hrest⟩ := streamLoop_stream onMessage
      (c := c.write (toVec (streamRequest method parameters))) hstream rfl rfl s
    rw [streamCall, if_pos rfl, hok]
    constructor
    · rintro h ⟨-, msgs', hcut, hfeed⟩
      obtain ⟨rfl, rfl⟩ := hstream.unique hcut
      obtain ⟨msgs'', rest, hfinished, -⟩ := h ⟨hfeed, fun h => by cases h⟩
      cases (hcut.unique hfinished).2
    · rintro h ⟨hfeed, hne⟩
      cases e with
      | finished rest => exact ⟨msgs, rest, hstream, Prod.ext hfeed hstate.symm, hrest rest rfl hfeed⟩
      | cut => exact absurd ⟨rfl, msgs, hstream, hfeed⟩ h
      | failed => exact absurd rfl hne

/-! ### A daemon that stops between two chunks -/

def chunkText : List UInt8 :=
  Lib.Utf8.ascii "\x7b\"continues\":true,\"parameters\":\x7b\"chunk\":\"Inference: \"\x7d\x7d".toList

def chunkMessage : Json :=
  .object [("continues", .bool true), ("parameters", .object [("chunk", .string "Inference: ")])]

def chunkParser (bytes : List UInt8) : Option Json :=
  if bytes = chunkText then some chunkMessage else none

def streamRequestText : Json → List UInt8
  | .object [("method", .string method), ("parameters", .object []), ("more", .bool true)] =>
    Lib.Utf8.ascii ("\x7b\"method\":\"" ++ method ++ "\",\"more\":true,\"parameters\":\x7b\x7d\x7d").toList
  | _ => []

theorem wellFormed_chunkText : WellFormed chunkParser chunkText chunkMessage := by
  have hparse : chunkParser chunkText = some chunkMessage := if_pos rfl
  have hcheck : checkReply chunkParser chunkText = .ok chunkMessage := by
    rw [checkReply, hparse]
    rfl
  exact ⟨by decide, by decide, hcheck⟩

theorem stream_chunkText : Stream chunkParser false (chunkText ++ [0]) [chunkMessage] .cut :=
  .more wellFormed_chunkText rfl (.cut rfl)

def collect (seen : List Json) (msg : Json) : Except Unit Unit × List Json := (.ok (), seen ++ [msg])

theorem cut_stream_accepted :
    (streamCall streamRequestText chunkParser collect ⟨[], ⟨[], [chunkText ++ [0]]⟩, false⟩
        "io.systemd.inferenced1.StreamInference" none true []).1 = .ok () ∧
      ¬ ∃ msgs rest, Stream chunkParser false (chunkText ++ [0]) msgs (.finished rest) := by
  constructor
  · have hloop := streamLoop_stream collect
      (c := VarlinkClient.write ⟨[], ⟨[], [chunkText ++ [0]]⟩, false⟩
        (streamRequestText (streamRequest "io.systemd.inferenced1.StreamInference" none)))
      stream_chunkText (by decide) rfl []
    rw [streamCall, if_pos rfl, hloop.2.1]
    exact ⟨rfl, fun h => by cases h⟩
  · rintro ⟨msgs, rest, hfinished⟩
    cases (stream_chunkText.unique hfinished).2

end Inferenced.Client
