import Mathlib.Data.List.Sort

/-! # Selecting and sorting by a key

`maxByKey` and `minBy` follow the iterator adaptors `max_by_key` and
`min_by`: among equals the maximum is the last and the minimum the first
element. `sortByKey` is the stable sort by a key. -/

namespace Inferenced.Lib

variable {α : Type*}

/-- The last of the elements with the largest key. -/
def maxByKey (f : α → ℕ) : List α → Option α
  | [] => none
  | x :: xs => match maxByKey f xs with
    | none => some x
    | some y => if f x ≤ f y then some y else some x

theorem maxByKey_eq_none (f : α → ℕ) (l : List α) : maxByKey f l = none ↔ l = [] := by
  cases l with
  | nil => simp [maxByKey]
  | cons x xs =>
    simp only [maxByKey, reduceCtorEq, iff_false]
    cases maxByKey f xs with
    | none => simp
    | some y =>
      dsimp only
      split <;> simp

theorem maxByKey_split {f : α → ℕ} {l : List α} {x : α} (h : maxByKey f l = some x) :
    ∃ before after, l = before ++ x :: after ∧ (∀ y ∈ before, f y ≤ f x) ∧ ∀ y ∈ after, f y < f x := by
  induction l generalizing x with
  | nil => simp [maxByKey] at h
  | cons z zs ih =>
    simp only [maxByKey] at h
    cases hm : maxByKey f zs with
    | none =>
      rw [hm] at h
      cases h
      rw [(maxByKey_eq_none f zs).mp hm]
      exact ⟨[], [], rfl, by simp, by simp⟩
    | some w =>
      rw [hm] at h
      dsimp only at h
      obtain ⟨before, after, rfl, hbefore, hafter⟩ := ih hm
      split at h
      · rename_i hle
        cases h
        refine ⟨z :: before, after, rfl, fun y hy => ?_, hafter⟩
        rcases List.mem_cons.mp hy with rfl | hy
        · exact hle
        · exact hbefore y hy
      · rename_i hgt
        cases h
        refine ⟨[], before ++ w :: after, rfl, by simp, fun y hy => ?_⟩
        rcases List.mem_append.mp hy with hy | hy
        · have := hbefore y hy
          omega
        · rcases List.mem_cons.mp hy with rfl | hy
          · omega
          · have := hafter y hy
            omega

theorem maxByKey_mem {f : α → ℕ} {l : List α} {x : α} (h : maxByKey f l = some x) : x ∈ l := by
  obtain ⟨before, after, rfl, -, -⟩ := maxByKey_split h
  exact List.mem_append_right _ (List.mem_cons_self ..)

theorem le_maxByKey {f : α → ℕ} {l : List α} {x : α} (h : maxByKey f l = some x) :
    ∀ y ∈ l, f y ≤ f x := by
  obtain ⟨before, after, rfl, hbefore, hafter⟩ := maxByKey_split h
  intro y hy
  rcases List.mem_append.mp hy with hy | hy
  · exact hbefore y hy
  · rcases List.mem_cons.mp hy with rfl | hy
    · exact Nat.le_refl _
    · exact Nat.le_of_lt (hafter y hy)

/-- The first of the elements that are minimal for `lt`. -/
def minBy (lt : α → α → Bool) : List α → Option α
  | [] => none
  | x :: xs => match minBy lt xs with
    | none => some x
    | some y => if lt y x then some y else some x

theorem minBy_eq_none (lt : α → α → Bool) (l : List α) : minBy lt l = none ↔ l = [] := by
  cases l with
  | nil => simp [minBy]
  | cons x xs =>
    simp only [minBy, reduceCtorEq, iff_false]
    cases minBy lt xs with
    | none => simp
    | some y =>
      dsimp only
      split <;> simp

theorem minBy_cons_cases {lt : α → α → Bool} {y x : α} {ys : List α} (h : minBy lt (y :: ys) = some x) :
    (x = y ∧ ∀ z, minBy lt ys = some z → lt z y = false) ∨ (minBy lt ys = some x ∧ lt x y = true) := by
  simp only [minBy] at h
  cases hm : minBy lt ys with
  | none =>
    rw [hm] at h
    exact .inl ⟨(Option.some.inj h).symm, by simp⟩
  | some w =>
    rw [hm] at h
    dsimp only at h
    split at h
    · rename_i hlt
      cases h
      exact .inr ⟨rfl, hlt⟩
    · rename_i hge
      cases h
      refine .inl ⟨rfl, fun z hz => ?_⟩
      rw [← Option.some.inj hz]
      exact Bool.eq_false_iff.mpr hge

theorem minBy_mem {lt : α → α → Bool} {l : List α} {x : α} (h : minBy lt l = some x) : x ∈ l := by
  induction l generalizing x with
  | nil => cases h
  | cons y ys ih =>
    rcases minBy_cons_cases h with ⟨rfl, -⟩ | ⟨htail, -⟩
    · exact List.mem_cons_self ..
    · exact List.mem_cons_of_mem _ (ih htail)

/-- No element comes before the minimum, if `lt` is a strict weak order. -/
theorem not_lt_minBy {lt : α → α → Bool} (hasymm : ∀ a b, lt a b = true → lt b a = false)
    (htrans : ∀ a b c, lt a b = false → lt b c = false → lt a c = false) {l : List α} {x : α}
    (h : minBy lt l = some x) : ∀ y ∈ l, lt y x = false := by
  have hirrefl : ∀ a, lt a a = false := by
    intro a
    cases ha : lt a a with
    | false => rfl
    | true => exact ha.symm.trans (hasymm a a ha)
  induction l generalizing x with
  | nil => exact fun y hy => absurd hy List.not_mem_nil
  | cons z zs ih =>
    intro y hy
    rcases minBy_cons_cases h with ⟨rfl, hhead⟩ | ⟨htail, hlt⟩
    · rcases List.mem_cons.mp hy with rfl | hy
      · exact hirrefl _
      · -- the tail has a minimum, which does not come before the head
        cases hm : minBy lt zs with
        | none => exact absurd ((minBy_eq_none lt zs).mp hm ▸ hy) List.not_mem_nil
        | some w => exact htrans y w _ (ih hm y hy) (hhead w hm)
    · rcases List.mem_cons.mp hy with rfl | hy
      · exact hasymm _ _ hlt
      · exact ih htail y hy

def sortByKey (f : α → ℕ) (l : List α) : List α := l.insertionSort fun a b => f a ≤ f b

theorem sortByKey_sorted (f : α → ℕ) (l : List α) : (sortByKey f l).Pairwise fun a b => f a ≤ f b :=
  List.pairwise_insertionSort (r := fun a b => f a ≤ f b) l

theorem sortByKey_perm (f : α → ℕ) (l : List α) : (sortByKey f l).Perm l :=
  List.perm_insertionSort _ l

end Inferenced.Lib
