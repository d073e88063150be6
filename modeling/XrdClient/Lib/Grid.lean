/-
  Lib/Grid.lean --- a sequence laid over a grid of cells.

  The cells of a grid are `unit` long and start at the multiples of `unit`.  A sequence
  that is laid down from a position on is cut where the cells end, so its first and its
  last piece may be short.  `Gridded` says so of a list of pieces; `cells` is the one list
  of pieces that a sequence has.
-/
import Mathlib

set_option autoImplicit false

namespace XrdClient.Lib

variable {α β : Type}

/-- How much of the cell at `start` is still in `remaining`. -/
def cellSpan (unit start remaining : Nat) : Nat := min remaining (unit - start % unit)

/-- The pieces of a sequence that is laid down from `start` on. -/
inductive Gridded (unit : Nat) : Nat → List (List α) → Prop where
  | nil {start : Nat} : Gridded unit start []
  | cons {start : Nat} {piece : List α} {rest : List (List α)} (some_ : piece ≠ [])
      (span : piece.length = cellSpan unit start (piece ++ rest.flatten).length)
      (more : Gridded unit (start + piece.length) rest) : Gridded unit start (piece :: rest)

def cellsFrom (unit : Nat) : Nat → Nat → List α → List (List α)
  | 0, _, _ => []
  | left + 1, start, xs =>
      if xs.isEmpty then []
      else
        let span := cellSpan unit start xs.length
        xs.take span :: cellsFrom unit left (start + span) (xs.drop span)

/-- `xs` cut into cells. -/
def cells (unit start : Nat) (xs : List α) : List (List α) := cellsFrom unit xs.length start xs

theorem cellSpan_pos {unit start remaining : Nat} (hunit : 0 < unit) (h : 0 < remaining) :
    0 < cellSpan unit start remaining := by
  have := Nat.mod_lt start hunit
  unfold cellSpan
  omega

theorem cellSpan_le (unit start remaining : Nat) : cellSpan unit start remaining ≤ remaining :=
  Nat.min_le_left _ _

/-- Behind a whole cell the next one starts. -/
theorem mod_of_cell {unit start : Nat} (hunit : 0 < unit) : (start + (unit - start % unit)) % unit = 0 := by
  have hlt := Nat.mod_lt start hunit
  have hdiv := Nat.div_add_mod start unit
  have heq : start + (unit - start % unit) = unit * (start / unit + 1) := by
    rw [Nat.mul_add, Nat.mul_one]
    omega
  rw [heq, Nat.mul_mod_right]

theorem cellsFrom_spec {unit : Nat} (hunit : 0 < unit) : ∀ (left start : Nat) (xs : List α), xs.length ≤ left →
    Gridded unit start (cellsFrom unit left start xs) ∧ (cellsFrom unit left start xs).flatten = xs := by
  intro left
  induction left with
  | zero =>
    intro start xs h
    obtain rfl : xs = [] := List.eq_nil_of_length_eq_zero (Nat.le_zero.mp h)
    exact ⟨.nil, rfl⟩
  | succ left ih =>
    intro start xs h
    unfold cellsFrom
    cases hxs : xs.isEmpty with
    | true => exact ⟨.nil, (List.isEmpty_iff.mp hxs).symm⟩
    | false =>
      have hne : xs ≠ [] := fun e => by simp [e] at hxs
      have hpos : 0 < cellSpan unit start xs.length := cellSpan_pos hunit (List.length_pos_iff.mpr hne)
      have hle := cellSpan_le unit start xs.length
      have hlen : (xs.take (cellSpan unit start xs.length)).length = cellSpan unit start xs.length :=
        List.length_take_of_le hle
      obtain ⟨hgrid, hflat⟩ := ih (start + cellSpan unit start xs.length)
        (xs.drop (cellSpan unit start xs.length)) (by rw [List.length_drop]; omega)
      simp only [Bool.false_eq_true, if_false]
      refine ⟨.cons ?_ ?_ (hlen.symm ▸ hgrid), ?_⟩
      · exact List.ne_nil_of_length_pos (hlen.symm ▸ hpos)
      · rw [hflat, List.take_append_drop, hlen]
      · rw [List.flatten_cons, hflat, List.take_append_drop]

theorem gridded_cells {unit : Nat} (hunit : 0 < unit) (start : Nat) (xs : List α) :
    Gridded unit start (cells unit start xs) :=
  (cellsFrom_spec hunit _ start xs (Nat.le_refl _)).1

@[simp] theorem flatten_cells {unit : Nat} (hunit : 0 < unit) (start : Nat) (xs : List α) :
    (cells unit start xs).flatten = xs :=
  (cellsFrom_spec hunit _ start xs (Nat.le_refl _)).2

namespace Gridded

variable {unit start : Nat} {piece : List α} {pieces rest before after : List (List α)}

/-- No piece is empty. -/
theorem ne_nil (h : Gridded unit start pieces) : ∀ p ∈ pieces, p ≠ [] := by
  induction h with
  | nil => exact fun p hp => absurd hp (by simp)
  | cons some_ _ _ ih => exact List.forall_mem_cons.mpr ⟨some_, ih⟩

/-- A piece fits its cell. -/
theorem length_le (h : Gridded unit start (piece :: rest)) : piece.length ≤ unit - start % unit := by
  cases h with
  | cons _ span _ => exact span ▸ Nat.min_le_right _ _

/-- A piece that another follows fills its cell. -/
theorem length_eq (h : Gridded unit start (piece :: rest)) (hrest : rest ≠ []) :
    piece.length = unit - start % unit := by
  cases h with
  | cons _ span more =>
    have hpos : 0 < rest.flatten.length := by
      cases more with
      | nil => exact absurd rfl hrest
      | cons some_ _ _ =>
        have := List.length_pos_iff.mpr some_
        rw [List.flatten_cons, List.length_append]
        omega
    rw [List.length_append, cellSpan] at span
    omega

/-- The piece that follows another starts a cell. -/
theorem start_mod (hunit : 0 < unit) (h : Gridded unit start (piece :: rest)) (hrest : rest ≠ []) :
    (start + piece.length) % unit = 0 := by
  rw [h.length_eq hrest, mod_of_cell hunit]

/-- The pieces behind some others are laid down behind them. -/
theorem drop (h : Gridded unit start (before ++ rest)) :
    Gridded unit (start + before.flatten.length) rest := by
  induction before generalizing start with
  | nil => exact h
  | cons piece before ih =>
    cases h with
    | cons _ _ more =>
      have hrest := ih more
      rwa [Nat.add_assoc, ← List.length_append, ← List.flatten_cons] at hrest

/-- Every piece spans what is left of its cell, and every piece but the first starts one. -/
theorem piece_at (hunit : 0 < unit) (h : Gridded unit start (before ++ piece :: after)) :
    piece.length = cellSpan unit (start + before.flatten.length) (piece ++ after.flatten).length ∧
      (before ≠ [] → (start + before.flatten.length) % unit = 0) := by
  constructor
  · cases h.drop with
    | cons _ span _ => exact span
  · induction before generalizing start with
    | nil => exact fun hnil => absurd rfl hnil
    | cons first before ih =>
      intro _
      rw [List.flatten_cons, List.length_append, ← Nat.add_assoc]
      by_cases hbefore : before = []
      · subst hbefore
        rw [List.flatten_nil, List.length_nil, Nat.add_zero]
        exact start_mod hunit h (by simp)
      · cases h with
        | cons _ _ more => exact ih more hbefore

/-- As many pieces as the cells they reach into. -/
theorem length_pieces (hunit : 0 < unit) (h : Gridded unit start pieces) (hsome : pieces ≠ []) :
    pieces.length = (start % unit + pieces.flatten.length + (unit - 1)) / unit := by
  induction h with
  | nil => exact absurd rfl hsome
  | @cons start piece rest some_ span more ih =>
    have hgrid : Gridded unit start (piece :: rest) := .cons some_ span more
    have hpos := List.length_pos_iff.mpr some_
    have hmod := Nat.mod_lt start hunit
    rw [List.flatten_cons, List.length_append, List.length_cons]
    by_cases hrest : rest = []
    · subst hrest
      have hle := hgrid.length_le
      have hone : start % unit + (piece.length + 0) + (unit - 1) =
          (start % unit + piece.length - 1) + unit := by omega
      rw [List.length_nil, List.flatten_nil, List.length_nil, hone, Nat.add_div_right _ hunit,
        Nat.div_eq_of_lt (by omega)]
    · have hlen := hgrid.length_eq hrest
      have hnext : start % unit + (piece.length + rest.flatten.length) + (unit - 1) =
          (0 + rest.flatten.length + (unit - 1)) + unit := by omega
      rw [hnext, Nat.add_div_right _ hunit, ih hrest, hgrid.start_mod hunit hrest]

/-- A sequence has one list of pieces. -/
theorem unique {others : List (List α)} (h : Gridded unit start pieces) (h' : Gridded unit start others)
    (heq : pieces.flatten = others.flatten) : pieces = others := by
  induction h generalizing others with
  | nil =>
    cases h' with
    | nil => rfl
    | cons some_ _ _ =>
      rw [List.flatten_nil, List.flatten_cons] at heq
      exact absurd (List.append_eq_nil_iff.mp heq.symm).1 some_
  | @cons start piece rest some_ span more ih =>
    cases h' with
    | nil =>
      rw [List.flatten_nil, List.flatten_cons] at heq
      exact absurd (List.append_eq_nil_iff.mp heq).1 some_
    | @cons _ piece' rest' some' span' more' =>
      rw [List.flatten_cons, List.flatten_cons] at heq
      have hlen : piece.length = piece'.length := by rw [span, span', heq]
      obtain ⟨rfl, hrest⟩ := List.append_inj heq hlen
      rw [ih more' hrest]

end Gridded

end XrdClient.Lib
