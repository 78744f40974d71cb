import Mathlib.Algebra.Order.Ring.Nat
import Mathlib.Data.List.Nodup
import Mathlib.Data.List.Infix

/-! # Runs of a deterministic machine

A machine is a step function `step : S → A → S`. A run is the list of its
actions; `exec` is the state it ends in and `Along` says that every action of
the run meets a condition on the state it is taken in. Actions draw names, and
in a fresh run no name is drawn twice; the induction rules packaged here carry
an invariant that may mention the names in use. -/

namespace Inferenced.Lib.Runs

variable {S A N : Type*} {step : S → A → S} {C D : S → A → Prop}

/-- State after the actions `as`, taken in order from `s`. -/
def exec (step : S → A → S) (s : S) (as : List A) : S := as.foldl step s

theorem exec_append (s : S) (as bs : List A) :
    exec step s (as ++ bs) = exec step (exec step s as) bs := by
  simp only [exec, List.foldl_append]

/-- Every action of the run meets `C` in the state it is taken in. -/
def Along (step : S → A → S) (C : S → A → Prop) : S → List A → Prop
  | _, [] => True
  | s, a :: as => C s a ∧ Along step C (step s a) as

instance decidableAlong [∀ s a, Decidable (C s a)] (s : S) (as : List A) :
    Decidable (Along step C s as) :=
  match as with
  | [] => .isTrue trivial
  | a :: as =>
    have := decidableAlong (step s a) as
    inferInstanceAs (Decidable (C s a ∧ Along step C (step s a) as))

theorem Along.imp (h : ∀ s a, C s a → D s a) (s : S) (as : List A) (hc : Along step C s as) :
    Along step D s as := by
  induction as generalizing s with
  | nil => exact trivial
  | cons a as ih => exact ⟨h s a hc.1, ih _ hc.2⟩

theorem along_of_forall (as : List A) (h : ∀ a ∈ as, ∀ s, C s a) (s : S) : Along step C s as := by
  induction as generalizing s with
  | nil => exact trivial
  | cons a as ih =>
    exact ⟨h a (List.mem_cons_self ..) s, ih (fun b hb => h b (List.mem_cons_of_mem _ hb)) _⟩

theorem along_append (s : S) (as bs : List A) :
    Along step C s (as ++ bs) ↔ Along step C s as ∧ Along step C (exec step s as) bs := by
  induction as generalizing s with
  | nil => exact ⟨fun h => ⟨trivial, h⟩, fun h => h.2⟩
  | cons a as ih => exact (and_congr_right fun _ => ih (step s a)).trans and_assoc.symm

/-- Invariant rule: what every action that meets `C` keeps, a run of such actions
keeps. -/
theorem exec_inv_along (I : S → Prop) (hstep : ∀ s a, C s a → I s → I (step s a)) (s : S)
    (as : List A) (hs : I s) (hc : Along step C s as) : I (exec step s as) := by
  induction as generalizing s with
  | nil => exact hs
  | cons a as ih => exact ih _ (hstep s a hc.1 hs) hc.2

theorem exec_inv (I : S → Prop) (hstep : ∀ s a, I s → I (step s a)) (s : S) (as : List A)
    (hs : I s) : I (exec step s as) :=
  exec_inv_along (C := fun _ _ => True) I (fun s a _ h => hstep s a h) s as hs
    (along_of_forall as (fun _ _ _ => trivial) s)

/-! ### Counting -/

/-- The number of actions of the run that are counted in the state they are
taken in. -/
def ticks (step : S → A → S) (counts : S → A → Bool) : S → List A → ℕ
  | _, [] => 0
  | s, a :: as => (counts s a).toNat + ticks step counts (step s a) as

/-- Invariant rule: the invariant may mention the number of counted actions. -/
theorem exec_inv_ticks {counts : S → A → Bool} (I : ℕ → S → Prop)
    (hstep : ∀ n s a, C s a → I n s → I (n + (counts s a).toNat) (step s a)) (n : ℕ) (s : S)
    (as : List A) (hs : I n s) (hc : Along step C s as) : I (n + ticks step counts s as) (exec step s as) := by
  induction as generalizing n s with
  | nil => exact hs
  | cons a as ih =>
    rw [ticks, ← Nat.add_assoc]
    exact ih _ _ (hstep n s a hc.1 hs) hc.2

/-- What the actions of the run give out, in order. -/
def emitted {B : Type*} (step : S → A → S) (out : S → A → List B) : S → List A → List B
  | _, [] => []
  | s, a :: as => out s a ++ emitted step out (step s a) as

/-- Invariant rule: the invariant may mention what has been given out. -/
theorem exec_inv_emitted {B : Type*} {out : S → A → List B} (I : List B → S → Prop)
    (hstep : ∀ l s a, C s a → I l s → I (l ++ out s a) (step s a)) (l : List B) (s : S) (as : List A)
    (hs : I l s) (hc : Along step C s as) : I (l ++ emitted step out s as) (exec step s as) := by
  induction as generalizing l s with
  | nil =>
    rw [emitted, List.append_nil]
    exact hs
  | cons a as ih =>
    rw [emitted, ← List.append_assoc]
    exact ih _ _ (hstep l s a hc.1 hs) hc.2

/-! ### Fresh names -/

def drawn (names : A → List N) (as : List A) : List N := as.flatMap names

@[simp] theorem drawn_cons (names : A → List N) (a : A) (as : List A) :
    drawn names (a :: as) = names a ++ drawn names as := rfl

theorem drawn_append (names : A → List N) (as bs : List A) :
    drawn names (as ++ bs) = drawn names as ++ drawn names bs := by
  simp only [drawn, List.flatMap_append]

/-- The names of `as` are drawn without repetition and none is among `used`. -/
def Fresh (names : A → List N) (used : List N) (as : List A) : Prop :=
  (drawn names as).Nodup ∧ ∀ n ∈ drawn names as, n ∉ used

theorem Fresh.tail {names : A → List N} {used : List N} {a : A} {as : List A}
    (h : Fresh names used (a :: as)) : Fresh names (names a ++ used) as := by
  obtain ⟨hn, hu⟩ := h
  rw [drawn_cons, List.nodup_append] at hn
  refine ⟨hn.2.1, fun n hmem => ?_⟩
  rw [List.mem_append]
  rintro (hr | hr)
  · exact hn.2.2 n hr n hmem rfl
  · exact hu n (List.mem_append_right _ hmem) hr

theorem Fresh.head {names : A → List N} {used : List N} {a : A} {as : List A}
    (h : Fresh names used (a :: as)) : ∀ n ∈ names a, n ∉ used :=
  fun n hn => h.2 n (List.mem_append_left _ hn)

theorem Fresh.of_append_left {names : A → List N} {used : List N} {as bs : List A}
    (h : Fresh names used (as ++ bs)) : Fresh names used as := by
  rw [Fresh, drawn_append] at h
  exact ⟨(List.nodup_append.mp h.1).1, fun n hn => h.2 n (List.mem_append_left _ hn)⟩

theorem fresh_of_nameless (used : List N) (as : List A) : Fresh (fun _ => []) used as := by
  have h : drawn (fun _ : A => ([] : List N)) as = [] := List.flatMap_eq_nil_iff.mpr fun _ _ => rfl
  rw [Fresh, h]
  exact ⟨List.nodup_nil, fun _ hn => absurd hn List.not_mem_nil⟩

/-- Names in use after a run: the last drawn first. -/
def usedAfter (names : A → List N) : List N → List A → List N
  | used, [] => used
  | used, a :: as => usedAfter names (names a ++ used) as

theorem mem_usedAfter (names : A → List N) (used : List N) (as : List A) (n : N) :
    n ∈ usedAfter names used as ↔ n ∈ used ∨ n ∈ drawn names as := by
  induction as generalizing used with
  | nil => simp [usedAfter, drawn]
  | cons a as ih =>
    simp only [usedAfter, drawn_cons, ih, List.mem_append]
    tauto

theorem Fresh.of_append_right {names : A → List N} {used : List N} {as bs : List A}
    (h : Fresh names used (as ++ bs)) : Fresh names (usedAfter names used as) bs := by
  induction as generalizing used with
  | nil => exact h
  | cons a as ih => exact ih h.tail

/-- Invariant rule with fresh names: the invariant may mention the names in
use, and each step may assume that the names it draws are not among them. -/
theorem exec_inv_fresh {names : A → List N} (I : List N → S → Prop)
    (hstep : ∀ used s a, I used s → (∀ n ∈ names a, n ∉ used) → C s a →
      I (names a ++ used) (step s a))
    (used : List N) (s : S) (as : List A) (hs : I used s) (hf : Fresh names used as)
    (hc : Along step C s as) : I (usedAfter names used as) (exec step s as) := by
  induction as generalizing used s with
  | nil => exact hs
  | cons a as ih => exact ih _ _ (hstep used s a hs hf.head hc.1) hf.tail hc.2

theorem exec_inv_fresh_all {names : A → List N} (I : List N → S → Prop)
    (hstep : ∀ used s a, I used s → (∀ n ∈ names a, n ∉ used) → I (names a ++ used) (step s a))
    (used : List N) (s : S) (as : List A) (hs : I used s) (hf : Fresh names used as) :
    I (usedAfter names used as) (exec step s as) :=
  exec_inv_fresh (C := fun _ _ => True) I (fun used s a h hn _ => hstep used s a h hn) used s as hs
    hf (along_of_forall as (fun _ _ _ => trivial) s)

/-- What an invariant gives of every single step, it gives along the run. -/
theorem along_fresh {names : A → List N} (I : List N → S → Prop)
    (hstep : ∀ used s a, I used s → (∀ n ∈ names a, n ∉ used) → C s a →
      I (names a ++ used) (step s a))
    (hC : ∀ used s a, I used s → (∀ n ∈ names a, n ∉ used) → C s a → D s a)
    (used : List N) (s : S) (as : List A) (hs : I used s) (hf : Fresh names used as)
    (hc : Along step C s as) : Along step D s as := by
  induction as generalizing used s with
  | nil => exact trivial
  | cons a as ih =>
    exact ⟨hC used s a hs hf.head hc.1, ih _ _ (hstep used s a hs hf.head hc.1) hf.tail hc.2⟩

/-- A property that one step keeps exactly when the step meets `C`: it holds in
every state a run passes through if and only if every step of the run meets
`C`. The invariant `I` and the side condition `D` carry what the steps may
assume; the invariant has to survive only the steps that meet `C`. -/
theorem inv_iff_along {names : A → List N} (I : List N → S → Prop) (P : S → Prop)
    (hI : ∀ used s a, I used s → (∀ n ∈ names a, n ∉ used) → D s a → C s a →
      I (names a ++ used) (step s a))
    (hstep : ∀ used s a, I used s → (∀ n ∈ names a, n ∉ used) → D s a → P s →
      (P (step s a) ↔ C s a))
    (used : List N) (s : S) (as : List A) (hs : I used s) (hp : P s)
    (hf : Fresh names used as) (hd : Along step D s as) :
    (∀ bs, bs <+: as → P (exec step s bs)) ↔ Along step C s as := by
  induction as generalizing used s with
  | nil =>
    refine ⟨fun _ => trivial, fun _ bs hb => ?_⟩
    rw [List.prefix_nil.mp hb]
    exact hp
  | cons a as ih =>
    have hiff := hstep used s a hs hf.head hd.1 hp
    have hnext := fun hc => hI used s a hs hf.head hd.1 hc
    constructor
    · intro h
      have h1 : P (step s a) := h [a] (List.cons_prefix_cons.mpr ⟨rfl, List.nil_prefix⟩)
      have hc := hiff.mp h1
      refine ⟨hc, (ih _ _ (hnext hc) h1 hf.tail hd.2).mp fun bs hb => ?_⟩
      exact h (a :: bs) (List.cons_prefix_cons.mpr ⟨rfl, hb⟩)
    · rintro ⟨hc, hrest⟩ bs hb
      cases bs with
      | nil => exact hp
      | cons b bs =>
        obtain ⟨rfl, hb'⟩ := List.cons_prefix_cons.mp hb
        exact (ih _ _ (hnext hc) (hiff.mpr hc) hf.tail hd.2).mpr hrest bs hb'

/-! ### Parties

The parties of a machine are the entries of a list, and a step updates one of
them. -/

theorem getElem?_set_cases {α : Type*} {l : List α} {i j : ℕ} {a x : α}
    (h : (l.set i a)[j]? = some x) : (j = i ∧ x = a) ∨ l[j]? = some x := by
  rw [List.getElem?_set] at h
  split at h
  · rename_i hij
    split at h
    · exact Or.inl ⟨hij.symm, (Option.some.inj h).symm⟩
    · cases h
  · exact Or.inr h

theorem getElem?_set_of_getElem? {α : Type*} {l : List α} {i j : ℕ} {a b x : α}
    (hi : l[i]? = some b) (hx : l[j]? = some x) :
    (l.set i a)[j]? = some (if i = j then a else x) := by
  rw [List.getElem?_set]
  have hlt : i < l.length := (List.getElem?_eq_some_iff.mp hi).1
  split
  · rfl
  · exact hx

theorem sum_map_set {α : Type*} (f : α → ℕ) {l : List α} {i : ℕ} {a b : α} (h : l[i]? = some b) :
    ((l.set i a).map f).sum + f b = (l.map f).sum + f a := by
  induction l generalizing i with
  | nil => cases h
  | cons x l ih =>
    cases i with
    | zero =>
      obtain rfl : x = b := Option.some.inj h
      simp only [List.set_cons_zero, List.map_cons, List.sum_cons]
      omega
    | succ i =>
      have hrest := ih (i := i) h
      simp only [List.set_cons_succ, List.map_cons, List.sum_cons]
      omega

end Inferenced.Lib.Runs
