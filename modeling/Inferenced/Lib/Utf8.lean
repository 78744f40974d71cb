import Inferenced.Lib.Text

/-! # ASCII words in UTF-8 texts

The bytes of an ASCII character stand for it alone: a byte below 128 is never
part of the code of another character. So a word of ASCII characters occurs in
a text exactly where its bytes occur in the bytes of the text. -/

namespace Inferenced.Lib.Utf8

def encode (text : List Char) : List UInt8 := text.flatMap String.utf8EncodeChar

def ascii (word : List Char) : List UInt8 := word.map fun c => UInt8.ofNat c.toNat

def IsAscii (word : List Char) : Prop := ∀ c ∈ word, c.toNat < 128

instance (word : List Char) : Decidable (IsAscii word) :=
  List.decidableBAll (fun c : Char => c.toNat < 128) word

theorem encodeChar_ascii {c : Char} (h : c.toNat < 128) :
    String.utf8EncodeChar c = [UInt8.ofNat c.toNat] := by
  have hle : c.val.toNat ≤ 0x7f := Nat.le_of_lt_succ h
  rw [String.utf8EncodeChar, if_pos hle]
  rfl

theorem encodeChar_high {c : Char} (h : 128 ≤ c.toNat) :
    ∀ b ∈ String.utf8EncodeChar c, 128 ≤ b.toNat := by
  have hnot : ¬ c.val.toNat ≤ 0x7f := Nat.not_le_of_lt h
  intro b hb
  rw [String.utf8EncodeChar, if_neg hnot] at hb
  split at hb
  · simp only [List.mem_cons, List.not_mem_nil, or_false] at hb
    rcases hb with rfl | rfl <;> rw [UInt8.toNat_ofNat'] <;> omega
  · split at hb
    · simp only [List.mem_cons, List.not_mem_nil, or_false] at hb
      rcases hb with rfl | rfl | rfl <;> rw [UInt8.toNat_ofNat'] <;> omega
    · simp only [List.mem_cons, List.not_mem_nil, or_false] at hb
      rcases hb with rfl | rfl | rfl | rfl <;> rw [UInt8.toNat_ofNat'] <;> omega

theorem encode_append (l m : List Char) : encode (l ++ m) = encode l ++ encode m :=
  List.flatMap_append

theorem encode_cons (c : Char) (l : List Char) :
    encode (c :: l) = String.utf8EncodeChar c ++ encode l := List.flatMap_cons

theorem encode_ascii {word : List Char} (h : IsAscii word) : encode word = ascii word := by
  induction word with
  | nil => rfl
  | cons c word ih =>
    obtain ⟨hc, hword⟩ := List.forall_mem_cons.mp h
    rw [encode_cons, encodeChar_ascii hc, ih hword]
    rfl

theorem byte_inj {c d : Char} (hc : c.toNat < 128) (hd : d.toNat < 128)
    (h : UInt8.ofNat c.toNat = UInt8.ofNat d.toNat) : c = d := by
  have hnat := congrArg UInt8.toNat h
  rw [UInt8.toNat_ofNat', UInt8.toNat_ofNat'] at hnat
  refine Char.toNat_inj.mp ?_
  omega

theorem prefix_of_prefix_encode {word text : List Char} (hword : IsAscii word)
    (h : ascii word <+: encode text) : word <+: text := by
  induction word generalizing text with
  | nil => exact List.nil_prefix
  | cons a word ih =>
    obtain ⟨ha, hrest⟩ := List.forall_mem_cons.mp hword
    cases text with
    | nil => exact absurd (List.prefix_nil.mp h) (List.cons_ne_nil _ _)
    | cons c text =>
      rw [encode_cons] at h
      by_cases hc : c.toNat < 128
      · rw [encodeChar_ascii hc] at h
        obtain ⟨hhead, htail⟩ := List.cons_prefix_cons.mp h
        rw [byte_inj ha hc hhead]
        exact List.cons_prefix_cons.mpr ⟨rfl, ih hrest htail⟩
      · -- the first byte of `c` is not a byte of the word
        obtain ⟨b, bs, hbs⟩ := List.exists_cons_of_ne_nil (String.utf8EncodeChar_ne_nil (c := c))
        rw [hbs] at h
        obtain ⟨hhead, -⟩ := List.cons_prefix_cons.mp h
        have hhigh := encodeChar_high (Nat.le_of_not_lt hc) b (by rw [hbs]; exact List.mem_cons_self ..)
        rw [← hhead, UInt8.toNat_ofNat'] at hhigh
        omega

theorem infix_of_infix_append {α : Type*} {a : α} {word l m : List α} (ha : a ∉ l)
    (h : a :: word <:+: l ++ m) : a :: word <:+: m := by
  induction l with
  | nil => exact h
  | cons x l ih =>
    obtain ⟨hax, hal⟩ := not_or.mp (mt List.mem_cons.mpr ha)
    rcases List.infix_cons_iff.mp h with h | h
    · exact absurd (List.cons_prefix_cons.mp h).1 hax
    · exact ih hal h

theorem infix_of_infix_encode {a : Char} {word text : List Char} (hword : IsAscii (a :: word))
    (h : ascii (a :: word) <:+: encode text) : a :: word <:+: text := by
  induction text with
  | nil => exact absurd (List.infix_nil.mp h) (List.cons_ne_nil _ _)
  | cons c text ih =>
    have ha : a.toNat < 128 := hword a (List.mem_cons_self ..)
    by_cases hc : c.toNat < 128
    · have hcons : encode (c :: text) = UInt8.ofNat c.toNat :: encode text := by
        rw [encode_cons, encodeChar_ascii hc]
        rfl
      rw [hcons] at h
      rcases List.infix_cons_iff.mp h with h | h
      · rw [← hcons] at h
        exact (prefix_of_prefix_encode hword h).isInfix
      · exact List.infix_cons (ih h)
    · rw [encode_cons] at h
      have hnot : UInt8.ofNat a.toNat ∉ String.utf8EncodeChar c := by
        intro hmem
        have hhigh := encodeChar_high (Nat.le_of_not_lt hc) _ hmem
        rw [UInt8.toNat_ofNat'] at hhigh
        omega
      exact List.infix_cons (ih (infix_of_infix_append hnot h))

theorem infix_encode_iff {word : List Char} (hword : IsAscii word) (text : List Char) :
    ascii word <:+: encode text ↔ word <:+: text := by
  constructor
  · intro h
    cases word with
    | nil => exact List.nil_infix
    | cons a word => exact infix_of_infix_encode hword h
  · rintro ⟨front, back, rfl⟩
    rw [encode_append, encode_append, encode_ascii hword]
    exact List.infix_append ..

theorem mem_encode_iff {a : Char} (ha : a.toNat < 128) (text : List Char) :
    UInt8.ofNat a.toNat ∈ encode text ↔ a ∈ text := by
  have hword : IsAscii [a] := List.forall_mem_singleton.mpr ha
  rw [← List.singleton_infix_iff, ← List.singleton_infix_iff]
  exact infix_encode_iff hword text

theorem encode_toList (s : String) : encode s.toList = s.toByteArray.data.toList := by
  rw [← String.utf8Encode_toList, List.utf8Encode, List.toList_data_toByteArray]
  rfl

theorem encode_of_fromUTF8? {bytes : List UInt8} {s : String}
    (h : String.fromUTF8? ⟨bytes.toArray⟩ = some s) : encode s.toList = bytes := by
  have hs : s.toByteArray = ⟨bytes.toArray⟩ := by
    unfold String.fromUTF8? at h
    split at h
    · cases h
      rfl
    · cases h
  rw [encode_toList, hs]

/-! ### Decoding -/

theorem utf8Encode_eq (text : List Char) : text.utf8Encode = ⟨(encode text).toArray⟩ := by
  refine ByteArray.ext (Array.toList_inj.mp ?_)
  rw [List.utf8Encode, List.toList_data_toByteArray]
  rfl

theorem fromUtf8_encode (text : List Char) : Text.fromUtf8 (encode text) = some text := by
  rw [Text.fromUtf8, ← utf8Encode_eq, List.utf8Decode?_utf8Encode]
  rfl

theorem fromUtf8_eq_some {bytes : List UInt8} {text : List Char} :
    Text.fromUtf8 bytes = some text ↔ encode text = bytes := by
  constructor
  · intro h
    have hsome : (ByteArray.utf8Decode? ⟨bytes.toArray⟩).isSome := by
      obtain ⟨chars, hchars, -⟩ := Option.map_eq_some_iff.mp h
      rw [hchars]
      rfl
    obtain ⟨l, hl⟩ := ByteArray.isSome_utf8Decode?_iff.mp hsome
    have hbytes : encode l = bytes := by
      rw [utf8Encode_eq] at hl
      simpa using (congrArg (fun b => b.data.toList) hl).symm
    rw [← hbytes, fromUtf8_encode] at h
    rw [← Option.some.inj h, hbytes]
  · rintro rfl
    exact fromUtf8_encode text

end Inferenced.Lib.Utf8
