/-
  Lib/Loop.lean --- a `while True` loop as a total function, with its output.

  A `Loop` is a body that either leaves the loop (`none`) or goes round again
  with some output, together with a measure that every turn lowers.  Carrying
  the measure in the structure is what makes `run` total without fuel appearing
  in any statement: `run_eq` is the loop's own equation.

  `run_feed` is the rule behind every resumable decoder: if a turn that can be
  taken can still be taken, with the same output, after more input has arrived,
  then running now and again later is running once on the whole input.
-/
import Mathlib

set_option autoImplicit false

namespace XrdClient.Lib

/-- A loop body over states `σ` with output `ω`, and the measure it lowers. -/
structure Loop (σ ω : Type) where
  /-- One turn: `none` leaves the loop. -/
  turn : σ → Option (List ω × σ)
  /-- How many turns a state can still take, at most. -/
  measure : σ → Nat
  turn_lt : ∀ {s s' : σ} {out : List ω}, turn s = some (out, s') → measure s' < measure s

namespace Loop

variable {σ ω : Type} (L : Loop σ ω)

/-- At most `n` turns from `s`: the output, and where they end. -/
def iterate : Nat → σ → List ω × σ
  | 0, s => ([], s)
  | n + 1, s =>
      match L.turn s with
      | none => ([], s)
      | some (out, s') => (out ++ (iterate n s').1, (iterate n s').2)

/-- The loop, run until it leaves. -/
def run (s : σ) : List ω × σ := L.iterate (L.measure s) s

/-- More turns than the measure allows change nothing. -/
theorem iterate_eq_of_le : ∀ (n m : Nat) (s : σ), L.measure s ≤ n → L.measure s ≤ m →
    L.iterate n s = L.iterate m s := by
  intro n
  induction n with
  | zero =>
    intro m s hn _
    have hstop : L.turn s = none := by
      cases ht : L.turn s with
      | none => rfl
      | some p =>
        have hlt : L.measure p.2 < L.measure s := L.turn_lt ht
        omega
    cases m with
    | zero => rfl
    | succ m => simp [iterate, hstop]
  | succ n ih =>
    intro m s hn hm
    cases ht : L.turn s with
    | none => cases m <;> simp [iterate, ht]
    | some p =>
      have hlt : L.measure p.2 < L.measure s := L.turn_lt ht
      cases m with
      | zero => omega
      | succ m => simp only [iterate, ht, ih m p.2 (by omega) (by omega)]

theorem run_of_none {s : σ} (h : L.turn s = none) : L.run s = ([], s) := by
  unfold run
  cases L.measure s <;> simp [iterate, h]

theorem run_of_some {s s' : σ} {out : List ω} (h : L.turn s = some (out, s')) :
    L.run s = (out ++ (L.run s').1, (L.run s').2) := by
  have hlt := L.turn_lt h
  unfold run
  cases hm : L.measure s with
  | zero => omega
  | succ n =>
    simp only [iterate, h]
    rw [L.iterate_eq_of_le n (L.measure s') s' (by omega) (Nat.le_refl _)]

/-- Induction along a run: a property of the last state that every turn carries
backwards holds of the first. -/
theorem run_induction {P : σ → Prop}
    (stop : ∀ s, L.turn s = none → P s)
    (turn : ∀ s s' out, L.turn s = some (out, s') → P s' → P s) (s : σ) : P s := by
  induction hn : L.measure s using Nat.strongRecOn generalizing s with
  | ind n ih =>
    subst hn
    cases ht : L.turn s with
    | none => exact stop s ht
    | some p => exact turn s p.2 p.1 ht (ih _ (L.turn_lt ht) p.2 rfl)

/-- What every turn preserves, a run preserves. -/
theorem run_invariant {I : σ → Prop}
    (turn : ∀ s s' out, L.turn s = some (out, s') → I s → I s') {s : σ} (h : I s) :
    I (L.run s).2 := by
  revert h
  refine L.run_induction (P := fun s => I s → I (L.run s).2) ?_ ?_ s
  · intro s hs h
    rwa [L.run_of_none hs]
  · intro s s' out hs ih h
    rw [L.run_of_some hs]
    exact ih (turn s s' out hs h)

/-- A run ends where the loop leaves. -/
theorem turn_run (s : σ) : L.turn (L.run s).2 = none := by
  refine L.run_induction (P := fun s => L.turn (L.run s).2 = none) ?_ ?_ s
  · intro s hs
    rwa [L.run_of_none hs]
  · intro s s' out hs ih
    rw [L.run_of_some hs]
    exact ih

/-- A run that follows on from a feed.  `feed` adds input; `I` is what makes a
turn indifferent to input that has not been reached yet. -/
theorem run_feed {I : σ → Prop} (feed : σ → σ)
    (turn : ∀ s s' out, I s → L.turn s = some (out, s') →
      I s' ∧ L.turn (feed s) = some (out, feed s')) {s : σ} (h : I s) :
    L.run (feed s) =
      ((L.run s).1 ++ (L.run (feed (L.run s).2)).1, (L.run (feed (L.run s).2)).2) := by
  revert h
  refine L.run_induction (P := fun s => I s → L.run (feed s) =
    ((L.run s).1 ++ (L.run (feed (L.run s).2)).1, (L.run (feed (L.run s).2)).2)) ?_ ?_ s
  · intro s hs _
    simp [L.run_of_none hs]
  · intro s s' out hs ih h
    obtain ⟨hI, hfeed⟩ := turn s s' out h hs
    rw [L.run_of_some hfeed, L.run_of_some hs, ih hI]
    simp

end Loop

end XrdClient.Lib
