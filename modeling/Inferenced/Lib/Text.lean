import Mathlib.Data.List.DropRight
import Mathlib.Data.List.Infix
import Mathlib.Data.UInt

/-! # Text

The string functions of the standard library that the daemon uses, on lists of
characters (lists of bytes for what is read before decoding). Where a function
of `List` does the same, it is used directly. -/

namespace Inferenced.Lib.Text

/-- `str::contains`. -/
def contains {α : Type*} [DecidableEq α] (text pattern : List α) : Bool := decide (pattern <:+: text)

theorem prefix_of_prefix_append {α : Type*} {word l m : List α} {c : α} (hc : c ∉ word)
    (h : word <+: l ++ c :: m) : word <+: l := by
  rcases Nat.le_total word.length l.length with hle | hle
  · exact List.prefix_of_prefix_length_le h (List.prefix_append ..) hle
  · obtain ⟨rest, rfl⟩ := List.prefix_of_prefix_length_le (List.prefix_append l (c :: m)) h hle
    cases rest with
    | nil => rw [List.append_nil]
    | cons d rest =>
      have hhead := (List.prefix_append_right_inj l).mp h
      obtain ⟨rfl, -⟩ := List.cons_prefix_cons.mp hhead
      exact absurd (List.mem_append_right _ (List.mem_cons_self ..)) hc

/-- A word without `c` does not reach over a `c` of the text. -/
theorem infix_append_cons {α : Type*} {word l m : List α} {c : α} (hc : c ∉ word) :
    word <:+: l ++ c :: m ↔ word <:+: l ∨ word <:+: m := by
  constructor
  · intro h
    induction l with
    | nil =>
      rcases List.infix_cons_iff.mp h with h | h
      · exact Or.inl (prefix_of_prefix_append (l := []) hc h).isInfix
      · exact Or.inr h
    | cons x l ih =>
      rcases List.infix_cons_iff.mp h with h | h
      · exact Or.inl (prefix_of_prefix_append (l := x :: l) hc h).isInfix
      · rcases ih h with h | h
        · exact Or.inl (List.infix_cons h)
        · exact Or.inr h
  · rintro (h | h)
    · exact List.infix_append_of_infix_left h
    · exact List.infix_append_of_infix_right (List.infix_cons h)

/-! ### The pieces of a text -/

section
variable {α : Type*} [DecidableEq α] {sep : α} {l m : List α}

theorem splitOnP_of_not_mem (h : sep ∉ l) : (l.splitOnP fun c => decide (c = sep)) = [l] := by
  refine List.splitOnP_eq_singleton fun c hc => decide_eq_false fun he => ?_
  exact h (he ▸ hc)

theorem splitOnP_append_sep (h : sep ∉ l) :
    ((l ++ sep :: m).splitOnP fun c => decide (c = sep)) =
      l :: m.splitOnP fun c => decide (c = sep) := by
  rw [List.splitOnP_append_cons l m (decide_eq_true rfl), splitOnP_of_not_mem h]
  rfl

/-- Induction over the pieces of a text. -/
theorem piece_induction (sep : α) {P : List α → Prop} (last : ∀ l, sep ∉ l → P l)
    (more : ∀ l m, sep ∉ l → P m → P (l ++ sep :: m)) (text : List α) : P text := by
  induction hn : text.length using Nat.strong_induction_on generalizing text with
  | _ n ih =>
    by_cases hsep : sep ∈ text
    · obtain ⟨l, m, rfl, hl⟩ := List.eq_append_cons_of_mem hsep
      have hlt : m.length < n := by
        rw [← hn, List.length_append, List.length_cons]
        omega
      exact more l m hl (ih m.length hlt m rfl)
    · exact last text hsep

/-- A word without separator is inside the text if and only if it is inside one
of the pieces. -/
theorem infix_iff_piece {word : List α} (hword : sep ∉ word) (text : List α) :
    word <:+: text ↔ ∃ p ∈ text.splitOnP (fun c => decide (c = sep)), word <:+: p := by
  induction text using piece_induction sep with
  | last l hl => simp [splitOnP_of_not_mem hl]
  | more l m hl ih => simp [infix_append_cons hword, splitOnP_append_sep hl, ih]

end

/-! ### Functions of `str` -/

/-- `str::starts_with`. -/
def startsWith {α : Type*} [DecidableEq α] (text pattern : List α) : Bool :=
  decide (pattern <+: text)

/-- `str::strip_prefix`. -/
def stripPrefix {α : Type*} [DecidableEq α] (text pattern : List α) : Option (List α) :=
  if startsWith text pattern then some (text.drop pattern.length) else none

theorem stripPrefix_suffix {α : Type*} [DecidableEq α] {text pattern rest : List α}
    (h : stripPrefix text pattern = some rest) : rest <:+ text := by
  unfold stripPrefix at h
  split at h
  · cases h
    exact List.drop_suffix _ _
  · cases h

/-- `str::split_once` at a character. -/
def splitOnce {α : Type*} [DecidableEq α] (text : List α) (sep : α) : Option (List α × List α) :=
  if sep ∈ text then
    some (text.takeWhile fun c => decide (c ≠ sep), (text.dropWhile fun c => decide (c ≠ sep)).tail)
  else none

theorem takeWhile_ne_append {α : Type*} [DecidableEq α] {sep : α} {l : List α} (h : sep ∉ l)
    (m : List α) : (l ++ sep :: m).takeWhile (fun c => decide (c ≠ sep)) = l := by
  have hall : ∀ c ∈ l, decide (c ≠ sep) = true := fun c hc =>
    decide_eq_true (ne_of_mem_of_not_mem hc h)
  rw [List.takeWhile_append_of_pos hall]
  simp

theorem dropWhile_ne_append {α : Type*} [DecidableEq α] {sep : α} {l : List α} (h : sep ∉ l)
    (m : List α) : (l ++ sep :: m).dropWhile (fun c => decide (c ≠ sep)) = sep :: m := by
  have hall : ∀ c ∈ l, decide (c ≠ sep) = true := fun c hc =>
    decide_eq_true (ne_of_mem_of_not_mem hc h)
  rw [List.dropWhile_append_of_pos hall]
  simp

theorem splitOnce_append {α : Type*} [DecidableEq α] {sep : α} {l : List α} (h : sep ∉ l)
    (m : List α) : splitOnce (l ++ sep :: m) sep = some (l, m) := by
  rw [splitOnce, if_pos (List.mem_append_right _ (List.mem_cons_self ..)), takeWhile_ne_append h,
    dropWhile_ne_append h]
  rfl

theorem splitOnce_eq_some {α : Type*} [DecidableEq α] {sep : α} {text l m : List α} :
    splitOnce text sep = some (l, m) ↔ text = l ++ sep :: m ∧ sep ∉ l := by
  constructor
  · intro h
    by_cases hsep : sep ∈ text
    · obtain ⟨l', m', rfl, hl'⟩ := List.eq_append_cons_of_mem hsep
      rw [splitOnce_append hl'] at h
      cases h
      exact ⟨rfl, hl'⟩
    · rw [splitOnce, if_neg hsep] at h
      cases h
  · rintro ⟨rfl, hl⟩
    exact splitOnce_append hl m

/-- The pieces of a text ended by `nl`; a `cr` before the `nl` goes with it, and
nothing after the last `nl` is no line. -/
def lines {α : Type*} [DecidableEq α] (nl cr : α) (text : List α) : List (List α) :=
  let pieces := text.splitOnP fun c => decide (c = nl)
  let ended := pieces.dropLast.map fun p => if p.getLast? = some cr then p.dropLast else p
  ended ++ (pieces.getLast?.toList.filter fun p => !p.isEmpty)

/-- `std::str::from_utf8`. -/
def fromUtf8 (bytes : List UInt8) : Option (List Char) :=
  (ByteArray.utf8Decode? ⟨bytes.toArray⟩).map Array.toList

/-- `char::is_whitespace`: the Unicode property `White_Space`. -/
def isWhitespace (c : Char) : Bool :=
  let n := c.toNat
  (9 ≤ n && n ≤ 13) || n == 0x20 || n == 0x85 || n == 0xA0 || n == 0x1680 ||
    (0x2000 ≤ n && n ≤ 0x200A) || n == 0x2028 || n == 0x2029 || n == 0x202F || n == 0x205F ||
    n == 0x3000

/-- `str::trim`. -/
def trim (text : List Char) : List Char := (text.dropWhile isWhitespace).rdropWhile isWhitespace

theorem trim_isEmpty (text : List Char) : (trim text).isEmpty = text.all isWhitespace := by
  rw [Bool.eq_iff_iff, List.isEmpty_iff, trim, List.rdropWhile_eq_nil_iff, List.all_eq_true]
  constructor
  · intro h
    rw [← List.dropWhile_eq_nil_iff]
    by_contra hne
    -- the head of what is left is no whitespace
    obtain ⟨c, rest, hc⟩ := List.exists_cons_of_ne_nil hne
    have hhead := List.head_dropWhile_not isWhitespace hne
    have hall := h c (by rw [hc]; exact List.mem_cons_self ..)
    simp only [hc, List.head_cons] at hhead
    rw [hall] at hhead
    cases hhead
  · intro h c hc
    exact h c ((List.dropWhile_suffix _).subset hc)

/-- Nothing is stripped off a text that neither starts nor ends with such a
character. -/
theorem strip_eq_self_iff {α : Type*} {p : α → Bool} {l : List α} :
    (l.dropWhile p).rdropWhile p = l ↔
      (∀ c, l.head? = some c → p c = false) ∧ ∀ c, l.getLast? = some c → p c = false := by
  constructor
  · intro h
    -- the text is its own trimmed front and its own trimmed rear
    have hlen := (List.rdropWhile_prefix p (l.dropWhile p)).length_le
    have hfront : l.dropWhile p = l :=
      (List.dropWhile_suffix p).eq_of_length_le (by rw [h] at hlen; exact hlen)
    rw [hfront] at h
    refine ⟨fun c hc => ?_, fun c hc => ?_⟩
    · obtain ⟨rest, rfl⟩ := List.head?_eq_some_iff.mp hc
      by_contra hp
      rw [List.dropWhile_cons_of_pos (by simpa using hp)] at hfront
      have := (List.dropWhile_suffix p (l := rest)).length_le
      rw [hfront, List.length_cons] at this
      omega
    · obtain ⟨init, rfl⟩ := List.getLast?_eq_some_iff.mp hc
      simpa using List.rdropWhile_eq_self_iff.mp h (by simp)
  · rintro ⟨hhead, hlast⟩
    have hfront : l.dropWhile p = l := by
      cases l with
      | nil => rfl
      | cons c rest => exact List.dropWhile_cons_of_neg (by simp [hhead c rfl])
    rw [hfront, List.rdropWhile_eq_self_iff]
    intro hne
    simp [hlast _ (List.getLast?_eq_some_getLast hne)]

theorem trim_trim (text : List Char) : trim (trim text) = trim text := by
  refine strip_eq_self_iff.mpr ⟨fun c hc => ?_, fun c hc => ?_⟩
  · obtain ⟨rest, hrest⟩ := List.head?_eq_some_iff.mp hc
    have hprefix : c :: rest <+: text.dropWhile isWhitespace :=
      hrest ▸ List.rdropWhile_prefix isWhitespace _
    obtain ⟨tail, htail⟩ := hprefix
    have hhead := List.head_dropWhile_not isWhitespace (l := text) (by rw [← htail]; simp)
    simpa [← htail] using hhead
  · obtain ⟨init, hinit⟩ := List.getLast?_eq_some_iff.mp hc
    have hsplit : (text.dropWhile isWhitespace).rdropWhile isWhitespace = init ++ [c] := hinit
    have hlast := List.rdropWhile_last_not isWhitespace (text.dropWhile isWhitespace)
      (by rw [hsplit]; simp)
    simpa [hsplit] using hlast

theorem dropWhile_append_cons {α : Type*} (q : α → Bool) (front rest : List α) {c : α}
    (hc : q c = false) : ∃ front', (front ++ c :: rest).dropWhile q = front' ++ c :: rest := by
  rw [List.dropWhile_append]
  split
  · exact ⟨[], by simp [hc]⟩
  · exact ⟨_, rfl⟩

/-- A word inside the text is inside the trimmed text. -/
theorem contains_trim {word : List Char} (hne : word ≠ []) (hword : ∀ c ∈ word, isWhitespace c = false)
    (text : List Char) : contains (trim text) word = contains text word := by
  simp only [contains, decide_eq_decide]
  constructor
  · exact fun h => h.trans ((List.rdropWhile_prefix _ _).isInfix.trans (List.dropWhile_suffix _).isInfix)
  · rintro ⟨front, rest, rfl⟩
    obtain ⟨c, tail, rfl⟩ := List.exists_cons_of_ne_nil hne
    obtain ⟨front', hfront⟩ := dropWhile_append_cons isWhitespace front (tail ++ rest)
      (hword c (List.mem_cons_self ..))
    obtain ⟨init, last, hsplit⟩ : ∃ init last, c :: tail = init ++ [last] :=
      ⟨_, _, (List.dropLast_append_getLast hne).symm⟩
    have hlast : isWhitespace last = false := hword last (by rw [hsplit]; simp)
    obtain ⟨rest', hrest⟩ := dropWhile_append_cons isWhitespace rest.reverse
      (init.reverse ++ front'.reverse) hlast
    have hdrop : (front ++ c :: tail ++ rest).dropWhile isWhitespace =
        front' ++ (init ++ [last]) ++ rest := by
      rw [← hsplit]
      simpa using hfront
    refine ⟨front', rest'.reverse, ?_⟩
    rw [trim, hdrop, hsplit, List.rdropWhile]
    have hback : (front' ++ (init ++ [last]) ++ rest).reverse =
        rest.reverse ++ last :: (init.reverse ++ front'.reverse) := by simp
    rw [hback, hrest]
    simp

/-- `str::split_whitespace`. -/
def splitWhitespace (text : List Char) : List (List Char) :=
  (text.splitOnP isWhitespace).filter fun p => !p.isEmpty

/-- `str::parse::<u64>`: digits, after at most one `+`, of a value below
`2 ^ 64`. -/
def parseU64 (text : List Char) : Option UInt64 :=
  let digits := (stripPrefix text ['+']).getD text
  if digits.isEmpty || !digits.all (·.isDigit) then none
  else
    let n := digits.foldl (fun n c => 10 * n + (c.toNat - 48)) 0
    if n < 2 ^ 64 then some (UInt64.ofNat n) else none

/-- The value of a non-empty text of decimal digits. -/
def decimal (digits : List Char) : Option ℕ :=
  if digits.isEmpty || !digits.all (·.isDigit) then none
  else some (digits.foldl (fun n c => 10 * n + (c.toNat - 48)) 0)

/-- `str::parse::<u32>`. -/
def parseU32 (text : List Char) : Option UInt32 :=
  ((decimal ((stripPrefix text ['+']).getD text)).filter (· < 2 ^ 32)).map UInt32.ofNat

/-- `str::parse::<i32>`. -/
def parseI32 (text : List Char) : Option ℤ :=
  match stripPrefix text ['-'] with
  | some digits => ((decimal digits).filter (· ≤ 2 ^ 31)).map fun n => -(n : ℤ)
  | none => ((decimal ((stripPrefix text ['+']).getD text)).filter (· < 2 ^ 31)).map Int.ofNat

/-- `char::to_lowercase`, as far as ASCII patterns can tell: besides the ASCII
capitals, only the Kelvin sign and the capital I with a dot have an ASCII
letter in their lower case. Every other character is left as it is. -/
def lowerChar (c : Char) : List Char :=
  if c.toNat = 0x212A then ['k']
  else if c.toNat = 0x0130 then ['i', Char.ofNat 0x307]
  else [c.toLower]

/-- `str::to_lowercase`, as far as ASCII patterns can tell. -/
def toLowercase (text : List Char) : List Char := text.flatMap lowerChar

theorem toLowercase_append (a b : List Char) : toLowercase (a ++ b) = toLowercase a ++ toLowercase b := by
  simp only [toLowercase, List.flatMap_append]

end Inferenced.Lib.Text
