import Inferenced.Lib.Text

/-! # Lists of assignments

A text of lines `name=value`, each ended by a line break. What may break a line
and what stands between name and value are parameters. An assignment carries the
proof that it stays in its line, so what is written is what a reader finds. -/

namespace Inferenced.Lib

variable {α : Type*} {breaks : α → Bool} {eq nl : α}

structure Assignment (breaks : α → Bool) (eq : α) where
  name : List α
  value : List α
  split : eq ∉ name
  name_unbroken : ∀ c ∈ name, breaks c = false
  value_unbroken : ∀ c ∈ value, breaks c = false

namespace Assignment

def line (a : Assignment breaks eq) : List α := a.name ++ eq :: a.value

def pair (a : Assignment breaks eq) : List α × List α := (a.name, a.value)

theorem line_unbroken (heq : breaks eq = false) (a : Assignment breaks eq) :
    ∀ c ∈ a.line, breaks c = false := by
  intro c hc
  rcases List.mem_append.mp hc with hc | hc
  · exact a.name_unbroken c hc
  · rcases List.mem_cons.mp hc with rfl | hc
    · exact heq
    · exact a.value_unbroken c hc

end Assignment

def writeAssignments (nl : α) (as : List (Assignment breaks eq)) : List α :=
  as.flatMap fun a => a.line ++ [nl]

variable [DecidableEq α]

/-- The lines that have an `eq`, split at the first. -/
def readAssignments (breaks : α → Bool) (eq : α) (text : List α) : List (List α × List α) :=
  (text.splitOnP breaks).filterMap fun line => Text.splitOnce line eq

theorem readAssignments_nil : readAssignments breaks eq [] = [] := by
  rw [readAssignments, List.splitOnP_nil]
  rfl

theorem readAssignments_line (hnl : breaks nl = true) (heq : breaks eq = false)
    (a : Assignment breaks eq) (text : List α) :
    readAssignments breaks eq (a.line ++ nl :: text) = a.pair :: readAssignments breaks eq text := by
  have hsplit : Text.splitOnce a.line eq = some a.pair := Text.splitOnce_append a.split a.value
  rw [readAssignments, List.splitOnP_append_cons _ _ hnl, List.splitOnP_eq_singleton (a.line_unbroken heq),
    List.singleton_append, List.filterMap_cons_some (f := fun line => Text.splitOnce line eq) hsplit]
  rfl

/-- A reader finds the assignments that were written, in order, and then those
of what follows. -/
theorem readAssignments_write (hnl : breaks nl = true) (heq : breaks eq = false)
    (as : List (Assignment breaks eq)) (text : List α) :
    readAssignments breaks eq (writeAssignments nl as ++ text) =
      as.map Assignment.pair ++ readAssignments breaks eq text := by
  induction as with
  | nil => rfl
  | cons a as ih =>
    have happend : writeAssignments nl (a :: as) ++ text =
        a.line ++ nl :: (writeAssignments nl as ++ text) := by
      simp only [writeAssignments, List.flatMap_cons, List.append_assoc, List.cons_append, List.nil_append]
    rw [happend, readAssignments_line hnl heq, ih]
    rfl

end Inferenced.Lib
