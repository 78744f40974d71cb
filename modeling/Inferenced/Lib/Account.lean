import Mathlib.Algebra.BigOperators.Group.List.Basic
import Mathlib.Algebra.Order.Ring.Nat

/-! # Accounts with a free and a held part

An account of capacity `cap` has `free` units left and `held` units handed out.
`take` hands units out with truncated subtraction, `give` takes them back with
an addition modulo `word` and a cap. `Exact c` says that nothing was lost or
made, `Covered c` that the free part is what the held part leaves of `c`, which
is weaker when more than `c` has been handed out. -/

namespace Inferenced.Lib

@[ext] structure Account where
  free : ℕ
  held : ℕ

namespace Account

variable {a : Account} {b c cap put word : ℕ}

def take (a : Account) (b : ℕ) : Account := ⟨a.free - b, a.held + b⟩

def give (a : Account) (word cap b : ℕ) : Account := ⟨min ((a.free + b) % word) cap, a.held - b⟩

/-- Free and held units add up to `c`. -/
def Exact (c : ℕ) (a : Account) : Prop := a.free + a.held = c

def Covered (c : ℕ) (a : Account) : Prop := a.free = c - a.held

theorem Exact.covered (h : Exact c a) : Covered c a := by
  unfold Exact Covered at *
  omega

theorem Exact.take_iff (h : Exact c a) : Exact c (a.take b) ↔ b ≤ a.free := by
  unfold Exact take at *
  dsimp only
  omega

theorem Exact.give (h : Exact c a) (hb : b ≤ a.held) (hcap : c ≤ cap) (hword : c < word) :
    Exact c (a.give word cap b) := by
  unfold Exact Account.give at *
  have hlt : a.free + b < word := by omega
  have hle : a.free + b ≤ cap := by omega
  dsimp only
  rw [Nat.mod_eq_of_lt hlt, Nat.min_eq_left hle]
  omega

theorem Covered.take (h : Covered c a) (b : ℕ) : Covered c (a.take b) := by
  unfold Covered Account.take at *
  dsimp only
  omega

/-- Giving `b` units back makes no more free than the held part leaves: nothing
is given, no more than `c` is held, or the cap hides the excess. -/
def Creditable (c cap b : ℕ) (a : Account) : Prop :=
  b = 0 ∨ a.held ≤ c ∨ cap = 0 ∨ a.held = b ∧ cap = c

/-- What a covered account has after giving back: the addition never wraps. -/
theorem Covered.free_give (h : Covered c a) (hb : b ≤ a.held) (hbw : b < word) (hcw : c < word) :
    (a.give word cap b).free = min (c - a.held + b) cap := by
  unfold Covered at h
  have hlt : a.free + b < word := by omega
  show min ((a.free + b) % word) cap = _
  rw [Nat.mod_eq_of_lt hlt, h]

theorem Covered.give (h : Covered c a) (hb : b ≤ a.held) (hcap : c ≤ cap) (hbw : b < word)
    (hcw : c < word) (hcred : Creditable c cap b a) : Covered c (a.give word cap b) := by
  unfold Covered
  rw [h.free_give hb hbw hcw]
  show _ = c - (a.held - b)
  unfold Creditable at hcred
  omega

theorem Covered.give_le_iff (h : Covered c a) (hb : b ≤ a.held) (hcap : c ≤ cap) (hbw : b < word)
    (hcw : c < word) :
    (a.give word cap b).free ≤ c - (a.give word cap b).held ↔ Creditable c cap b a := by
  rw [h.free_give hb hbw hcw]
  show _ ≤ c - (a.held - b) ↔ _
  unfold Creditable
  omega

theorem Covered.held_take_le (h : Covered c a) (hb : b ≤ a.free) (hpos : 0 < b) :
    (a.take b).held ≤ c := by
  unfold Covered Account.take at *
  dsimp only
  omega

/-- From `start` on, `a` has only been given back to, at most `put` units and
without a wrap: what is no longer held is free, up to the cap. -/
structure Refunded (start : Account) (cap put : ℕ) (a : Account) : Prop where
  free : a.free = min cap (start.free + (start.held - a.held))
  held : a.held ≤ start.held
  put : start.held ≤ a.held + put

theorem refunded_start (a : Account) (h : a.free ≤ cap) : Refunded a cap 0 a := by
  refine ⟨?_, Nat.le_refl _, Nat.le_refl _⟩
  rw [Nat.sub_self, Nat.add_zero, Nat.min_eq_right h]

theorem Refunded.mono {start : Account} {put' : ℕ} (h : Refunded start cap put a) (hle : put ≤ put') :
    Refunded start cap put' a :=
  ⟨h.free, h.held, h.put.trans (Nat.add_le_add_left hle _)⟩

theorem Refunded.give {start : Account} (h : Refunded start cap put a) (hb : b ≤ a.held)
    (hword : min cap (start.free + put) + b < word) :
    Refunded start cap (put + b) (a.give word cap b) := by
  obtain ⟨hfree, hheld, hput⟩ := h
  have hlt : a.free + b < word := by omega
  have hfree' : (a.give word cap b).free = min (a.free + b) cap := by
    rw [Account.give, Nat.mod_eq_of_lt hlt]
  have hheld' : (a.give word cap b).held = a.held - b := rfl
  refine ⟨?_, ?_, ?_⟩ <;> omega

end Account

/-! ### Several amounts given back

The amounts come one after the other, each with a cap on what is then free: only
the last cap counts, so that neither their order nor their number matters. -/

/-- What is free once the amounts `bs` have been given back; where there is none
of them, the cap has not been looked at. -/
def cappedSum (free cap : ℕ) (bs : List ℕ) : ℕ := if bs = [] then free else min (free + bs.sum) cap

theorem cappedSum_cons (free cap b : ℕ) (bs : List ℕ) :
    cappedSum free cap (b :: bs) = min (cappedSum free cap bs + b) cap := by
  unfold cappedSum
  rw [if_neg (List.cons_ne_nil b bs), List.sum_cons]
  by_cases h : bs = []
  · subst h
    rw [if_pos rfl, List.sum_nil, Nat.add_zero]
  · rw [if_neg h]
    omega

theorem cappedSum_perm {bs bs' : List ℕ} (h : bs.Perm bs') (free cap : ℕ) :
    cappedSum free cap bs = cappedSum free cap bs' := by
  unfold cappedSum
  rw [h.sum_eq]
  by_cases hnil : bs' = []
  · rw [if_pos hnil, if_pos (hnil ▸ h).eq_nil]
  · rw [if_neg hnil, if_neg fun he => hnil (he ▸ h).nil_eq.symm]

end Inferenced.Lib
