import Mathlib.Algebra.Order.BigOperators.Group.List
import Mathlib.Algebra.Order.Ring.Nat
import Mathlib.Data.List.Nodup
import Mathlib.Data.List.Perm.Basic

/-! # Finite maps of self-keyed values

A hash map whose values carry their own key is the list of its values; the
structure keeps the keys pairwise distinct. The order of `entries` is no
property of the map: code that iterates over it does so in the order an
`IterOrder` chooses. `weight w` sums a quantity over all values; its lemmas say
by how much each operation moves the sum. -/

namespace Inferenced.Lib

/-- Values of type `V`, at most one for each key. -/
structure KeyedMap (K V : Type*) (key : V → K) where
  entries : List V
  nodup : (entries.map key).Nodup

/-- An order in which the elements of a collection are visited. -/
structure IterOrder (α : Type*) where
  order : List α → List α
  perm : ∀ l, (order l).Perm l

def IterOrder.stored {α : Type*} : IterOrder α := ⟨id, fun l => List.Perm.refl l⟩

def IterOrder.reversed {α : Type*} : IterOrder α := ⟨List.reverse, List.reverse_perm⟩

namespace KeyedMap

variable {K V : Type*} {key : V → K}

@[ext] theorem ext {m n : KeyedMap K V key} (h : m.entries = n.entries) : m = n := by
  cases m
  cases n
  simpa using h

def empty : KeyedMap K V key := ⟨[], List.nodup_nil⟩

def len (m : KeyedMap K V key) : ℕ := m.entries.length

variable [DecidableEq K]

def get? (m : KeyedMap K V key) (k : K) : Option V := m.entries.find? fun v => decide (key v = k)

/-- Update of the value of one key; the update may not change the key. -/
def modify (m : KeyedMap K V key) (k : K) (f : V → V) (hf : ∀ v, key (f v) = key v) :
    KeyedMap K V key :=
  ⟨m.entries.map fun v => if key v = k then f v else v, by
    have h : (m.entries.map fun v => if key v = k then f v else v).map key = m.entries.map key := by
      rw [List.map_map]
      refine List.map_congr_left fun v _ => ?_
      simp only [Function.comp_apply]
      split
      · exact hf v
      · rfl
    rw [h]
    exact m.nodup⟩

/-- Keep the values that satisfy `p`. -/
def retain (m : KeyedMap K V key) (p : V → Bool) : KeyedMap K V key :=
  ⟨m.entries.filter p, m.nodup.sublist (List.filter_sublist.map key)⟩

def insert (m : KeyedMap K V key) (v : V) : KeyedMap K V key :=
  ⟨v :: m.entries.filter fun w => decide (key w ≠ key v), by
    rw [List.map_cons, List.nodup_cons]
    refine ⟨fun h => ?_, m.nodup.sublist (List.filter_sublist.map key)⟩
    obtain ⟨w, hw, hk⟩ := List.mem_map.mp h
    have := (List.mem_filter.mp hw).2
    simp only [hk, ne_eq, not_true_eq_false, decide_false, Bool.false_eq_true] at this⟩

/-! ### Lookup -/

@[simp] theorem get?_empty (k : K) : (empty : KeyedMap K V key).get? k = none := rfl

theorem get?_eq_some {m : KeyedMap K V key} {k : K} {v : V} :
    m.get? k = some v ↔ v ∈ m.entries ∧ key v = k := by
  constructor
  · intro h
    exact ⟨List.mem_of_find?_eq_some h, by simpa using List.find?_some h⟩
  · rintro ⟨hv, rfl⟩
    cases h : m.get? (key v) with
    | none =>
      have := List.find?_eq_none.mp h v hv
      simp at this
    | some w =>
      have hw : w ∈ m.entries ∧ key w = key v :=
        ⟨List.mem_of_find?_eq_some h, by simpa using List.find?_some h⟩
      rw [List.inj_on_of_nodup_map m.nodup hw.1 hv hw.2]

theorem get?_key {m : KeyedMap K V key} {k : K} {v : V} (h : m.get? k = some v) : key v = k :=
  (get?_eq_some.mp h).2

theorem get?_of_mem {m : KeyedMap K V key} {v : V} (h : v ∈ m.entries) :
    m.get? (key v) = some v := get?_eq_some.mpr ⟨h, rfl⟩

theorem get?_modify (m : KeyedMap K V key) (k : K) (f : V → V) (hf : ∀ v, key (f v) = key v)
    (j : K) : (m.modify k f hf).get? j = if j = k then (m.get? j).map f else m.get? j := by
  have h : ∀ v : V, decide (key (if key v = k then f v else v) = j) = decide (key v = j) := by
    intro v
    split
    · rw [hf]
    · rfl
  simp only [get?, modify, List.find?_map, Function.comp_def, h]
  split
  · rename_i hj
    cases hg : m.entries.find? fun v => decide (key v = j) with
    | none => rfl
    | some v =>
      have hk : key v = j := by simpa using List.find?_some hg
      simp only [Option.map_some, hk, hj, if_true]
  · rename_i hj
    cases hg : m.entries.find? fun v => decide (key v = j) with
    | none => rfl
    | some v =>
      have hk : key v = j := by simpa using List.find?_some hg
      simp only [Option.map_some, hk, hj, if_false]

theorem get?_retain (m : KeyedMap K V key) (p : V → Bool) (k : K) :
    (m.retain p).get? k = (m.get? k).filter p := by
  cases h : m.get? k with
  | none =>
    have hn := List.find?_eq_none.mp h
    rw [Option.filter_none]
    exact List.find?_eq_none.mpr fun v hv => hn v (List.mem_filter.mp hv).1
  | some v =>
    obtain ⟨hv, hk⟩ := get?_eq_some.mp h
    by_cases hp : p v = true
    · rw [Option.filter_some_pos hp]
      exact get?_eq_some.mpr ⟨List.mem_filter.mpr ⟨hv, hp⟩, hk⟩
    · rw [Option.filter_some_neg (Bool.eq_false_iff.mpr hp)]
      refine List.find?_eq_none.mpr fun w hw => ?_
      obtain ⟨hw, hpw⟩ := List.mem_filter.mp hw
      intro hwk
      have he : w = v := by
        refine List.inj_on_of_nodup_map m.nodup hw hv ?_
        rw [hk]
        simpa using hwk
      exact hp (he ▸ hpw)

theorem get?_insert (m : KeyedMap K V key) (v : V) (j : K) :
    (m.insert v).get? j = if j = key v then some v else m.get? j := by
  by_cases hj : j = key v
  · simp [get?, insert, hj]
  · have hne : key v ≠ j := fun h => hj h.symm
    rw [if_neg hj]
    refine Option.ext fun w => ?_
    simp only [get?_eq_some, insert, List.mem_cons, List.mem_filter, decide_eq_true_eq]
    constructor
    · rintro ⟨rfl | hw, hk⟩
      · exact absurd hk hne
      · exact ⟨hw.1, hk⟩
    · rintro ⟨hw, hk⟩
      exact ⟨Or.inr ⟨hw, fun h => hne (h.symm.trans hk)⟩, hk⟩

theorem filter_perm_cons {m : KeyedMap K V key} {k : K} {v : V} (h : m.get? k = some v)
    {p q : V → Bool} (hp : p v = true) (hq : q v = false) (hpq : ∀ w, key w ≠ k → p w = q w) :
    (m.entries.filter p).Perm (v :: m.entries.filter q) := by
  obtain ⟨hv, hk⟩ := get?_eq_some.mp h
  have hn : m.entries.Nodup := List.Nodup.of_map key m.nodup
  have hnot : v ∉ m.entries.filter q := fun hmem => by
    rw [(List.mem_filter.mp hmem).2] at hq
    cases hq
  refine (List.perm_ext_iff_of_nodup (hn.filter p)
    (List.nodup_cons.mpr ⟨hnot, hn.filter q⟩)).mpr fun w => ?_
  by_cases hw : key w = k
  · -- only `v` has this key
    constructor
    · intro hmem
      refine List.mem_cons.mpr (Or.inl ?_)
      exact List.inj_on_of_nodup_map m.nodup (List.mem_filter.mp hmem).1 hv (hw.trans hk.symm)
    · intro hmem
      rcases List.mem_cons.mp hmem with rfl | hmem
      · exact List.mem_filter.mpr ⟨hv, hp⟩
      · have he := List.inj_on_of_nodup_map m.nodup (List.mem_filter.mp hmem).1 hv (hw.trans hk.symm)
        exact absurd (he ▸ hmem) hnot
  · have hne : w ≠ v := fun he => hw (he ▸ hk)
    rw [List.mem_cons, List.mem_filter, List.mem_filter, hpq w hw]
    exact ⟨Or.inr, fun h => h.resolve_left hne⟩

/-! ### Sums -/

/-- Sum of `w` over all values. -/
def weight (m : KeyedMap K V key) (w : V → ℕ) : ℕ := (m.entries.map w).sum

omit [DecidableEq K] in
theorem weight_congr (m : KeyedMap K V key) {w w' : V → ℕ} (h : ∀ v ∈ m.entries, w v = w' v) :
    m.weight w = m.weight w' := by
  simp only [weight, List.map_congr_left h]

omit [DecidableEq K] in
theorem weight_add (m : KeyedMap K V key) (w w' : V → ℕ) :
    m.weight (fun v => w v + w' v) = m.weight w + m.weight w' := List.sum_map_add

omit [DecidableEq K] in
theorem weight_eq_zero (m : KeyedMap K V key) {w : V → ℕ} (h : ∀ v ∈ m.entries, w v = 0) :
    m.weight w = 0 := by
  rw [weight_congr m h, weight]
  simp

theorem le_weight {m : KeyedMap K V key} {k : K} {v : V} (w : V → ℕ) (h : m.get? k = some v) :
    w v ≤ m.weight w :=
  List.single_le_sum (fun _ _ => Nat.zero_le _) _ (List.mem_map_of_mem (get?_eq_some.mp h).1)

private theorem sum_map_update (w : V → ℕ) (k : K) (f : V → V) (v : V) (l : List V)
    (hn : (l.map key).Nodup) (hv : v ∈ l) (hk : key v = k) :
    ((l.map fun v => if key v = k then f v else v).map w).sum + w v = (l.map w).sum + w (f v) := by
  induction l with
  | nil => cases hv
  | cons x xs ih =>
    rw [List.map_cons, List.nodup_cons] at hn
    rcases List.mem_cons.mp hv with rfl | hv
    · -- no later value has this key, so the tail is unchanged
      have htail : (xs.map fun v => if key v = k then f v else v) = xs := by
        conv_rhs => rw [← List.map_id xs]
        refine List.map_congr_left fun y hy => ?_
        have hne : key y ≠ k := fun he =>
          hn.1 (List.mem_map.mpr ⟨y, hy, he.trans hk.symm⟩)
        simp [hne]
      simp only [List.map_cons, hk, if_true, htail, List.sum_cons]
      omega
    · have hne : key x ≠ k := fun he =>
        hn.1 (List.mem_map.mpr ⟨v, hv, hk.trans he.symm⟩)
      have := ih hn.2 hv
      simp only [List.map_cons, hne, if_false, List.sum_cons]
      omega

theorem weight_modify {m : KeyedMap K V key} {k : K} {v : V} (w : V → ℕ) (f : V → V)
    (hf : ∀ v, key (f v) = key v) (h : m.get? k = some v) :
    (m.modify k f hf).weight w + w v = m.weight w + w (f v) :=
  sum_map_update w k f v m.entries m.nodup (get?_eq_some.mp h).1 (get?_eq_some.mp h).2

omit [DecidableEq K] in
theorem weight_retain (m : KeyedMap K V key) (p : V → Bool) (w : V → ℕ)
    (h : ∀ v ∈ m.entries, p v = false → w v = 0) : (m.retain p).weight w = m.weight w := by
  obtain ⟨l, hn⟩ := m
  simp only [weight, retain] at h ⊢
  clear hn
  induction l with
  | nil => rfl
  | cons x xs ih =>
    have ih := ih fun v hv => h v (List.mem_cons_of_mem _ hv)
    cases hp : p x with
    | true => simp [hp, ih]
    | false => simp [hp, ih, h x (List.mem_cons_self ..) hp]

theorem weight_insert (m : KeyedMap K V key) (v : V) (w : V → ℕ) (h : m.get? (key v) = none) :
    (m.insert v).weight w = m.weight w + w v := by
  have hall : m.entries.filter (fun x => decide (key x ≠ key v)) = m.entries := by
    refine List.filter_eq_self.mpr fun x hx => ?_
    have := List.find?_eq_none.mp h x hx
    simpa using this
  simp only [weight, insert, hall, List.map_cons, List.sum_cons]
  omega

/-! ### Number of entries -/

theorem len_insert_le (m : KeyedMap K V key) (v : V) : (m.insert v).len ≤ m.len + 1 := by
  simp only [len, insert, List.length_cons]
  exact Nat.succ_le_succ (List.length_filter_le _ _)

theorem len_modify (m : KeyedMap K V key) (k : K) (f : V → V) (hf : ∀ v, key (f v) = key v) :
    (m.modify k f hf).len = m.len := List.length_map ..

theorem length_filter_key {m : KeyedMap K V key} {k : K} {v : V} (h : m.get? k = some v) :
    (m.entries.filter fun w => decide (key w ≠ k)).length + 1 = m.len := by
  have hperm := filter_perm_cons h (p := fun _ => true) (q := fun w => decide (key w ≠ k)) rfl
    (by simpa using get?_key h) (fun w hw => (decide_eq_true hw).symm)
  have hlen := hperm.length_eq
  rw [List.filter_true, List.length_cons] at hlen
  exact hlen.symm

theorem len_insert_of_some {m : KeyedMap K V key} {v w : V} (h : m.get? (key v) = some w) :
    (m.insert v).len = m.len := length_filter_key h

end KeyedMap

end Inferenced.Lib
