import Mathlib.Data.List.Basic

/-! # Custody of names

Parties hold names, and some names are alive. Custody is kept when every name
that is alive has a holder and no name has two. A step passes custody on when
names come into the hands of a party only by being granted to it, and a party
lets go only of names that are no longer alive; a step that grants fresh names
keeps custody. -/

namespace Inferenced.Lib.Custody

variable {T N : Type*} {used names granted : List N} {alive alive' : N → Prop}
  {held held' : T → N → Prop} {t₀ : T}

structure Kept (used : List N) (alive : N → Prop) (held : T → N → Prop) : Prop where
  sole : ∀ t u n, held t n → held u n → t = u
  drawn : ∀ t n, held t n → n ∈ used
  owned : ∀ n, alive n → ∃ t, held t n

/-- The names `granted` go to `t₀`; `alive'` are the names that are alive after
the step. -/
structure Passes (alive' : N → Prop) (held held' : T → N → Prop) (granted : List N) (t₀ : T) : Prop where
  gained : ∀ t n, held' t n → held t n ∨ t = t₀ ∧ n ∈ granted
  kept : ∀ t n, held t n → alive' n → held' t n
  taken : ∀ n ∈ granted, held' t₀ n

theorem Passes.refl (alive' : N → Prop) (held : T → N → Prop) (t₀ : T) :
    Passes alive' held held [] t₀ :=
  ⟨fun _ _ h => Or.inl h, fun _ _ h _ => h, fun _ h => absurd h List.not_mem_nil⟩

theorem Kept.step (h : Kept used alive held) (hp : Passes alive' held held' granted t₀)
    (hnew : ∀ n ∈ granted, n ∈ names) (hfresh : ∀ n ∈ names, n ∉ used)
    (halive : ∀ n, alive' n → alive n ∨ n ∈ granted) : Kept (names ++ used) alive' held' := by
  have hdrawn : ∀ {t n}, held t n → n ∉ granted := fun hn hg =>
    hfresh _ (hnew _ hg) (h.drawn _ _ hn)
  refine ⟨fun t u n ht hu => ?_, fun t n ht => ?_, fun n hn => ?_⟩
  · rcases hp.gained t n ht with ht | ⟨rfl, hg⟩
    · rcases hp.gained u n hu with hu | ⟨-, hg⟩
      · exact h.sole t u n ht hu
      · exact absurd hg (hdrawn ht)
    · rcases hp.gained u n hu with hu | ⟨rfl, -⟩
      · exact absurd hg (hdrawn hu)
      · rfl
  · rcases hp.gained t n ht with ht | ⟨-, hg⟩
    · exact List.mem_append_right _ (h.drawn t n ht)
    · exact List.mem_append_left _ (hnew n hg)
  · rcases halive n hn with hbefore | hg
    · obtain ⟨t, ht⟩ := h.owned n hbefore
      exact ⟨t, hp.kept t n ht hn⟩
    · exact ⟨t₀, hp.taken n hg⟩

end Inferenced.Lib.Custody
