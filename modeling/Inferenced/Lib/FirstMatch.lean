import Mathlib.Data.List.Nodup

/-! # Updating the first match of a list

`modifyFirst p f` is the list after `iter_mut().find(p)` has been updated by
`f`: only the first element that satisfies `p` changes. -/

namespace Inferenced.Lib

variable {α β κ : Type*}

/-- Apply `f` to the first element that satisfies `p`. -/
def modifyFirst (p : α → Bool) (f : α → α) : List α → List α
  | [] => []
  | x :: xs => if p x then f x :: xs else x :: modifyFirst p f xs

theorem map_modifyFirst (p : α → Bool) (f : α → α) (g : α → β) (hg : ∀ x, g (f x) = g x)
    (l : List α) : (modifyFirst p f l).map g = l.map g := by
  induction l with
  | nil => rfl
  | cons x xs ih =>
    simp only [modifyFirst]
    split
    · simp only [List.map_cons, hg]
    · simp only [List.map_cons, ih]

theorem mem_modifyFirst {p : α → Bool} {f : α → α} {l : List α} {y : α}
    (h : y ∈ modifyFirst p f l) : y ∈ l ∨ ∃ x ∈ l, p x = true ∧ y = f x := by
  induction l with
  | nil => exact Or.inl h
  | cons x xs ih =>
    simp only [modifyFirst] at h
    split at h
    · rename_i hp
      rcases List.mem_cons.mp h with rfl | h
      · exact Or.inr ⟨x, List.mem_cons_self .., hp, rfl⟩
      · exact Or.inl (List.mem_cons_of_mem _ h)
    · rcases List.mem_cons.mp h with rfl | h
      · exact Or.inl (List.mem_cons_self ..)
      · rcases ih h with h | ⟨z, hz, hp, hy⟩
        · exact Or.inl (List.mem_cons_of_mem _ h)
        · exact Or.inr ⟨z, List.mem_cons_of_mem _ hz, hp, hy⟩

theorem filter_modifyFirst_of_not {p q : α → Bool} {f : α → α} (hq : ∀ x, p x = true → q x = false)
    (hf : ∀ x, q (f x) = q x) (l : List α) : (modifyFirst p f l).filter q = l.filter q := by
  induction l with
  | nil => rfl
  | cons x xs ih =>
    simp only [modifyFirst]
    split
    · rename_i hp
      simp only [List.filter_cons, hf, hq x hp]
      rfl
    · simp only [List.filter_cons, ih]

theorem filter_modifyFirst_of_match {p q : α → Bool} {f : α → α}
    (hq : ∀ x, p x = true → q x = true) (hf : ∀ x, q (f x) = q x) (l : List α) :
    (modifyFirst p f l).filter q = modifyFirst p f (l.filter q) := by
  induction l with
  | nil => rfl
  | cons x xs ih =>
    by_cases hp : p x = true
    · simp only [modifyFirst, hp, if_true, List.filter_cons, hf, hq x hp]
    · by_cases hqx : q x = true
      · simp only [modifyFirst, hp, if_false, List.filter_cons, hqx, if_true, ih, Bool.false_eq_true]
      · simp only [modifyFirst, hp, if_false, List.filter_cons, hqx, ih, Bool.false_eq_true]

theorem filter_modifyFirst_of_new {p q : α → Bool} {f : α → α} {l : List α}
    (hl : ∀ x ∈ l, q x = false) (hf : ∀ x, q (f x) = true) :
    (modifyFirst p f l).filter q = ((l.find? p).map f).toList := by
  induction l with
  | nil => rfl
  | cons x xs ih =>
    obtain ⟨hx, hxs⟩ := List.forall_mem_cons.mp hl
    by_cases hp : p x = true
    · have htail : xs.filter q = [] := List.filter_eq_nil_iff.mpr fun y hy => by simp [hxs y hy]
      simp only [modifyFirst, hp, if_true, List.filter_cons, hf, htail, List.find?_cons_of_pos hp]
      rfl
    · rw [modifyFirst, if_neg hp, List.filter_cons_of_neg (by simp [hx]), ih hxs,
        List.find?_cons_of_neg hp]

/-- The update by index: of the first match, and of nothing else. -/
theorem getElem?_modifyFirst (p : α → Bool) (f : α → α) (l : List α) (i : ℕ) :
    (modifyFirst p f l)[i]? = if l.findIdx? p = some i then (l[i]?).map f else l[i]? := by
  induction l generalizing i with
  | nil => simp [modifyFirst]
  | cons y ys ih =>
    rw [modifyFirst, List.findIdx?_cons]
    cases hy : p y with
    | true =>
      cases i with
      | zero => simp
      | succ i => simp
    | false =>
      cases i with
      | zero => simp
      | succ i => simp [ih]

theorem getElem?_modifyFirst_of_not {p : α → Bool} (f : α → α) {l : List α} {i : ℕ} {x : α}
    (h : l[i]? = some x) (hx : p x = false) : (modifyFirst p f l)[i]? = some x := by
  rw [getElem?_modifyFirst, if_neg, h]
  intro hfind
  obtain ⟨hlt, hp, -⟩ := List.findIdx?_eq_some_iff_getElem.mp hfind
  rw [List.getElem?_eq_getElem hlt] at h
  rw [Option.some.inj h, hx] at hp
  cases hp

/-- Lookup by a unique key after an update of the first match of `p`: only the
key of that match sees the update. -/
theorem find?_modifyFirst [DecidableEq κ] (key : α → κ) (p : α → Bool) (f : α → α)
    (hf : ∀ x, key (f x) = key x) (l : List α) (hn : (l.map key).Nodup) (k : κ) :
    (modifyFirst p f l).find? (fun x => decide (key x = k)) =
      if (l.find? p).map key = some k then (l.find? fun x => decide (key x = k)).map f
      else l.find? fun x => decide (key x = k) := by
  induction l with
  | nil => simp [modifyFirst]
  | cons x xs ih =>
    rw [List.map_cons, List.nodup_cons] at hn
    by_cases hp : p x = true
    · by_cases hk : key x = k
      · simp [modifyFirst, hp, hk, hf]
      · simp [modifyFirst, hp, hk, hf]
    · have ih := ih hn.2
      by_cases hk : key x = k
      · -- the key sits at the head, so no later match of `p` can carry it
        have hne : (xs.find? p).map key ≠ some k := by
          intro he
          obtain ⟨y, hy, hyk⟩ := Option.map_eq_some_iff.mp he
          exact hn.1 (List.mem_map.mpr ⟨y, List.mem_of_find?_eq_some hy, hyk.trans hk.symm⟩)
        simp [modifyFirst, hp, hk, hne]
      · simp [modifyFirst, hp, hk, ih]

theorem modify_eq_modifyFirst [DecidableEq κ] (key : α → κ) (f : α → α) (l : List α)
    (hn : (l.map key).Nodup) (i : ℕ) (x : α) (hx : l[i]? = some x) :
    l.modify i f = modifyFirst (fun y => decide (key y = key x)) f l := by
  induction l generalizing i with
  | nil => simp at hx
  | cons y ys ih =>
    rw [List.map_cons, List.nodup_cons] at hn
    cases i with
    | zero =>
      rw [List.getElem?_cons_zero] at hx
      cases hx
      simp [modifyFirst]
    | succ i =>
      rw [List.getElem?_cons_succ] at hx
      have hne : key y ≠ key x := fun h =>
        hn.1 (List.mem_map.mpr ⟨x, List.mem_of_getElem? hx, h.symm⟩)
      simp [modifyFirst, hne, ih hn.2 i hx]

end Inferenced.Lib
