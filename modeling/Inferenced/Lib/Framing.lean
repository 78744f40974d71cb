import Mathlib.Data.List.Basic

/-! # Framing by a delimiter

A reader receives a stream in pieces and cuts it behind each delimiter, or
where a frame reaches a limit. What it cuts does not depend on the pieces:
`readUntil` works on them, `firstFrame` on the whole stream. -/

namespace Inferenced.Lib.Framing

variable {α : Type*} [DecidableEq α] {delim : α}

/-- A buffered reader; `reads` is what the further reads return, up to the end
of the stream. -/
structure BufReader (α : Type*) where
  buffer : List α
  reads : List (List α)

def BufReader.rest (r : BufReader α) : List α := r.buffer ++ r.reads.flatten

/-- `AsyncBufReadExt::read_until` on a reader limited by `take`: every turn looks
at what is in the buffer, and reads again when there is no delimiter in it. -/
def readUntil (delim : α) (limit : ℕ) (buffer : List α) (reads : List (List α)) :
    List α × BufReader α :=
  let avail := buffer.take limit
  if delim ∈ avail then
    let frame := avail.takeWhile (fun a => decide (a ≠ delim)) ++ [delim]
    (frame, ⟨buffer.drop frame.length, reads⟩)
  else if limit ≤ avail.length then (avail, ⟨buffer.drop avail.length, reads⟩)
  else match reads with
    | [] => (avail, ⟨[], []⟩)
    | piece :: reads =>
      let (bytes, r) := readUntil delim (limit - avail.length) piece reads
      (avail ++ bytes, r)

/-- The stream up to its first delimiter, at most `limit` of it. -/
def firstFrame (delim : α) : ℕ → List α → List α
  | 0, _ => []
  | _ + 1, [] => []
  | n + 1, a :: l => if a = delim then [a] else a :: firstFrame delim n l

theorem firstFrame_append {l : List α} (h : delim ∉ l) {n : ℕ} (hn : l.length ≤ n) (m : List α) :
    firstFrame delim n (l ++ m) = l ++ firstFrame delim (n - l.length) m := by
  induction l generalizing n with
  | nil => rfl
  | cons a l ih =>
    obtain ⟨ha, hl⟩ := not_or.mp (mt List.mem_cons.mpr h)
    obtain ⟨k, rfl⟩ : ∃ k, n = k + 1 := ⟨n - 1, by simp only [List.length_cons] at hn; omega⟩
    rw [List.length_cons] at hn ⊢
    rw [List.cons_append, firstFrame, if_neg (Ne.symm ha), ih hl (by omega), Nat.add_sub_add_right,
      List.cons_append]

theorem firstFrame_of_delim {f : List α} (h : delim ∉ f) {n : ℕ} (hn : f.length < n) (m : List α) :
    firstFrame delim n (f ++ delim :: m) = f ++ [delim] := by
  rw [firstFrame_append h (Nat.le_of_lt hn)]
  obtain ⟨k, hk⟩ : ∃ k, n - f.length = k + 1 := ⟨n - f.length - 1, by omega⟩
  rw [hk, firstFrame, if_pos rfl]

theorem firstFrame_of_not_mem {l : List α} {n : ℕ} (h : delim ∉ l.take n) :
    firstFrame delim n l = l.take n := by
  rcases Nat.le_total l.length n with hn | hn
  · rw [List.take_of_length_le hn] at h ⊢
    have happ := firstFrame_append h hn []
    rw [List.append_nil] at happ
    rw [happ]
    cases n - l.length <;> exact List.append_nil l
  · have hlen : (l.take n).length = n := List.length_take_of_le hn
    have happ := firstFrame_append h (Nat.le_of_eq hlen) (l.drop n)
    rw [List.take_append_drop, hlen, Nat.sub_self] at happ
    exact happ.trans (List.append_nil _)

/-- A stream begins with a frame below the limit, or has no delimiter up to it. -/
theorem exists_frame (delim : α) (n : ℕ) (l : List α) :
    delim ∉ l.take n ∨ ∃ f m, l = f ++ delim :: m ∧ delim ∉ f ∧ f.length < n := by
  by_cases h : delim ∈ l.take n
  · right
    obtain ⟨f, m, hsplit, hf⟩ := List.eq_append_cons_of_mem h
    refine ⟨f, m ++ l.drop n, ?_, hf, ?_⟩
    · rw [← List.cons_append, ← List.append_assoc, ← hsplit, List.take_append_drop]
    · have hlen := congrArg List.length hsplit
      rw [List.length_append, List.length_cons, List.length_take] at hlen
      omega
  · exact Or.inl h

theorem takeWhile_frame {f : List α} (h : delim ∉ f) (m : List α) :
    (f ++ delim :: m).takeWhile (fun a => decide (a ≠ delim)) = f := by
  have hall : ∀ a ∈ f, decide (a ≠ delim) = true := by
    intro a ha
    refine decide_eq_true ?_
    rintro rfl
    exact h ha
  rw [List.takeWhile_append_of_pos hall, List.takeWhile_cons_of_neg (by simp), List.append_nil]

theorem frame_inj {f g m n : List α} (hf : delim ∉ f) (hg : delim ∉ g)
    (h : f ++ delim :: m = g ++ delim :: n) : f = g ∧ m = n := by
  have htake := congrArg (List.takeWhile fun a => decide (a ≠ delim)) h
  rw [takeWhile_frame hf, takeWhile_frame hg] at htake
  subst htake
  exact ⟨rfl, (List.cons.inj (List.append_cancel_left h)).2⟩

/-! ### The turns of the reader -/

theorem readUntil_delim {f : List α} (h : delim ∉ f) {n : ℕ} (hn : f.length < n) (m : List α)
    (reads : List (List α)) :
    readUntil delim n (f ++ delim :: m) reads = (f ++ [delim], ⟨m, reads⟩) := by
  obtain ⟨k, hk⟩ : ∃ k, n - f.length = k + 1 := ⟨n - f.length - 1, by omega⟩
  have havail : (f ++ delim :: m).take n = f ++ delim :: m.take k := by
    rw [List.take_append, List.take_of_length_le (Nat.le_of_lt hn), hk, List.take_succ_cons]
  have hdrop : (f ++ delim :: m).drop (f ++ [delim]).length = m := by
    rw [List.append_cons f delim m, List.drop_left]
  unfold readUntil
  dsimp only
  rw [havail, if_pos (List.mem_append_right _ (List.mem_cons_self ..)), takeWhile_frame h, hdrop]

theorem readUntil_full {buffer : List α} {n : ℕ} (h : delim ∉ buffer.take n) (hn : n ≤ buffer.length)
    (reads : List (List α)) :
    readUntil delim n buffer reads = (buffer.take n, ⟨buffer.drop n, reads⟩) := by
  have hlen : (buffer.take n).length = n := List.length_take_of_le hn
  unfold readUntil
  dsimp only
  rw [if_neg h, hlen, if_pos (Nat.le_refl n)]

theorem readUntil_end {buffer : List α} {n : ℕ} (h : delim ∉ buffer) (hn : buffer.length < n) :
    readUntil delim n buffer [] = (buffer, ⟨[], []⟩) := by
  unfold readUntil
  dsimp only
  rw [List.take_of_length_le (Nat.le_of_lt hn), if_neg h, if_neg (Nat.not_le_of_lt hn)]

theorem readUntil_more {buffer : List α} {n : ℕ} (h : delim ∉ buffer) (hn : buffer.length < n)
    (piece : List α) (reads : List (List α)) :
    readUntil delim n buffer (piece :: reads) =
      (buffer ++ (readUntil delim (n - buffer.length) piece reads).1,
        (readUntil delim (n - buffer.length) piece reads).2) := by
  rw [readUntil]
  dsimp only
  rw [List.take_of_length_le (Nat.le_of_lt hn), if_neg h, if_neg (Nat.not_le_of_lt hn)]

/-- The reader cuts the first frame off `stream`. -/
def Cuts (delim : α) (n : ℕ) (stream : List α) (out : List α × BufReader α) : Prop :=
  out.1 = firstFrame delim n stream ∧ out.2.rest = stream.drop (firstFrame delim n stream).length

theorem readUntil_cuts_buffer {n : ℕ} {buffer : List α}
    (h : delim ∈ buffer.take n ∨ n ≤ buffer.length) (reads : List (List α)) :
    Cuts delim n (buffer ++ reads.flatten) (readUntil delim n buffer reads) := by
  rcases exists_frame delim n buffer with hno | ⟨f, m, rfl, hf, hlen⟩
  · have hn := h.resolve_left hno
    have htake : (buffer ++ reads.flatten).take n = buffer.take n := List.take_append_of_le_length hn
    have hframe : firstFrame delim n (buffer ++ reads.flatten) = buffer.take n := by
      rw [firstFrame_of_not_mem (by rwa [htake]), htake]
    rw [Cuts, readUntil_full hno hn, hframe, List.length_take_of_le hn]
    exact ⟨rfl, (List.drop_append_of_le_length hn).symm⟩
  · have hframe : firstFrame delim n (f ++ delim :: m ++ reads.flatten) = f ++ [delim] := by
      rw [List.append_assoc, List.cons_append, firstFrame_of_delim hf hlen]
    rw [Cuts, readUntil_delim hf hlen, hframe]
    refine ⟨rfl, ?_⟩
    rw [List.append_cons f delim m, List.append_assoc, List.drop_left]
    rfl

theorem readUntil_cuts (n : ℕ) (buffer : List α) (reads : List (List α)) :
    Cuts delim n (buffer ++ reads.flatten) (readUntil delim n buffer reads) := by
  induction reads generalizing n buffer with
  | nil =>
    by_cases h : delim ∈ buffer.take n ∨ n ≤ buffer.length
    · exact readUntil_cuts_buffer h []
    · obtain ⟨hno, hn⟩ := not_or.mp h
      rw [Nat.not_le] at hn
      rw [List.take_of_length_le (Nat.le_of_lt hn)] at hno
      have hframe : firstFrame delim n (buffer ++ [].flatten) = buffer := by
        rw [firstFrame_append hno (Nat.le_of_lt hn), List.flatten_nil]
        cases n - buffer.length <;> exact List.append_nil buffer
      rw [Cuts, readUntil_end hno hn, hframe]
      exact ⟨rfl, (List.drop_left ..).symm⟩
  | cons piece reads ih =>
    by_cases h : delim ∈ buffer.take n ∨ n ≤ buffer.length
    · exact readUntil_cuts_buffer h (piece :: reads)
    · obtain ⟨hno, hn⟩ := not_or.mp h
      rw [Nat.not_le] at hn
      rw [List.take_of_length_le (Nat.le_of_lt hn)] at hno
      obtain ⟨hframe, hrest⟩ := ih (n - buffer.length) piece
      rw [Cuts, readUntil_more hno hn, List.flatten_cons,
        firstFrame_append hno (Nat.le_of_lt hn), hframe, hrest]
      refine ⟨rfl, ?_⟩
      rw [List.length_append, ← List.drop_drop, List.drop_left]

theorem firstFrame_eq_nil {n : ℕ} (hn : 0 < n) {l : List α} :
    firstFrame delim n l = [] ↔ l = [] := by
  obtain ⟨k, rfl⟩ : ∃ k, n = k + 1 := ⟨n - 1, by omega⟩
  cases l with
  | nil => exact iff_of_true rfl rfl
  | cons a l =>
    rw [firstFrame]
    split <;> simp

/-! ### One frame of a reader -/

section
variable {n : ℕ} {r : BufReader α}

theorem readUntil_frame {f m : List α} (hf : delim ∉ f) (hlen : f.length < n)
    (hr : r.rest = f ++ delim :: m) :
    (readUntil delim n r.buffer r.reads).1 = f ++ [delim] ∧
      (readUntil delim n r.buffer r.reads).2.rest = m := by
  obtain ⟨hframe, hrest⟩ : Cuts delim n r.rest (readUntil delim n r.buffer r.reads) :=
    readUntil_cuts ..
  rw [hr, firstFrame_of_delim hf hlen] at hframe hrest
  refine ⟨hframe, ?_⟩
  rw [hrest, List.append_cons f delim m, List.drop_left]

theorem readUntil_cut (hno : delim ∉ r.rest.take n) :
    (readUntil delim n r.buffer r.reads).1 = r.rest.take n ∧
      (readUntil delim n r.buffer r.reads).2.rest = r.rest.drop n := by
  obtain ⟨hframe, hrest⟩ : Cuts delim n r.rest (readUntil delim n r.buffer r.reads) :=
    readUntil_cuts ..
  rw [firstFrame_of_not_mem hno] at hframe hrest
  refine ⟨hframe, ?_⟩
  rw [hrest, List.length_take, ← List.drop_eq_drop_min]

theorem readUntil_rest_lt (hn : 0 < n) (h : (readUntil delim n r.buffer r.reads).1 ≠ []) :
    (readUntil delim n r.buffer r.reads).2.rest.length < r.rest.length := by
  obtain ⟨hframe, hrest⟩ : Cuts delim n r.rest (readUntil delim n r.buffer r.reads) :=
    readUntil_cuts ..
  rw [hframe] at h
  rw [hrest, List.length_drop]
  have hpos := List.length_pos_iff.mpr h
  have hne := List.length_pos_iff.mpr (mt (firstFrame_eq_nil hn).mpr h)
  omega

end

/-! ### Frames that arrive bit by bit -/

omit [DecidableEq α] in
/-- What has arrived of a sequence of frames, once it has a delimiter or fills
the limit: a whole frame, and what has arrived of those behind it. -/
theorem first_of_frames {β : Type*} {encode : β → List α} {n : ℕ} (hn : 0 < n) {frames : List β}
    {arrived later : List α} (hfit : ∀ b ∈ frames, delim ∉ encode b ∧ (encode b).length < n)
    (h : arrived ++ later = frames.flatMap fun b => encode b ++ [delim])
    (hready : delim ∈ arrived.take n ∨ n ≤ arrived.length) :
    ∃ b rest m, frames = b :: rest ∧ arrived = encode b ++ delim :: m ∧
      m ++ later = rest.flatMap fun b => encode b ++ [delim] := by
  cases frames with
  | nil =>
    obtain ⟨rfl, -⟩ := List.append_eq_nil_iff.mp h
    rcases hready with hmem | hlen
    · rw [List.take_nil] at hmem
      cases hmem
    · exact absurd hlen (Nat.not_le_of_lt hn)
  | cons b rest =>
    obtain ⟨hno, hlen⟩ := hfit b (List.mem_cons_self ..)
    rw [List.flatMap_cons, List.append_assoc, List.singleton_append] at h
    rcases List.append_eq_append_iff.mp h with ⟨as, hsplit, -⟩ | ⟨bs, rfl, hrest⟩
    · -- less than the frame has arrived: there is no delimiter, and the limit is not reached
      have hshort := congrArg List.length hsplit
      rw [List.length_append] at hshort
      rcases hready with hmem | hfull
      · refine absurd (List.mem_of_mem_take hmem) fun hmem => hno ?_
        rw [hsplit]
        exact List.mem_append_left _ hmem
      · omega
    · cases bs with
      | nil =>
        rw [List.append_nil] at hready
        rcases hready with hmem | hfull
        · exact absurd (List.mem_of_mem_take hmem) hno
        · omega
      | cons d m =>
        obtain ⟨rfl, hm⟩ := List.cons.inj hrest
        exact ⟨b, rest, m, rfl, rfl, hm.symm⟩

end Inferenced.Lib.Framing
