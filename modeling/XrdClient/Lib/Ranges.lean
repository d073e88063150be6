/-
  Lib/Ranges.lean --- ranges of positions, and how often they have one.

  A range is a start and a length.  Ranges that follow one another from one position to
  another are a `Chain`: they add up, and every position between the two is in one of them,
  once.  `hits` counts, so that a bookkeeping over many lists of ranges is an equation of
  sums.
-/
import XrdClient.Lib.Extent

set_option autoImplicit false

namespace XrdClient.Lib

/-! ## Sums over a list that changes in one place -/

theorem sum_map_set_add {α : Type} (f : α → Nat) {l : List α} {i : Nat} {x : α} (h : l[i]? = some x) (y : α) :
    ((l.set i y).map f).sum + f x = (l.map f).sum + f y := by
  induction l generalizing i with
  | nil => cases h
  | cons a l ih =>
    cases i with
    | zero =>
      obtain rfl : a = x := by simpa using h
      simp only [List.set_cons_zero, List.map_cons, List.sum_cons]
      omega
    | succ i =>
      have hrest := ih (i := i) (by simpa using h)
      simp only [List.set_cons_succ, List.map_cons, List.sum_cons]
      omega

theorem sum_map_zero {α : Type} {f : α → Nat} {l : List α} (h : ∀ x ∈ l, f x = 0) : (l.map f).sum = 0 := by
  rw [List.map_congr_left h]
  simp

theorem le_sum_map {α : Type} (f : α → Nat) {l : List α} {x : α} (h : x ∈ l) : f x ≤ (l.map f).sum := by
  induction l with
  | nil => cases h
  | cons a l ih =>
    rw [List.map_cons, List.sum_cons]
    rcases List.mem_cons.mp h with rfl | h
    · omega
    · have := ih h
      omega

theorem sum_eraseIdx_add {α : Type} (f : α → Nat) {l : List α} {i : Nat} {x : α} (h : l[i]? = some x) :
    ((l.eraseIdx i).map f).sum + f x = (l.map f).sum := by
  induction l generalizing i with
  | nil => cases h
  | cons a l ih =>
    cases i with
    | zero =>
      obtain rfl : a = x := by simpa using h
      simp only [List.eraseIdx_cons_zero, List.map_cons, List.sum_cons]
      omega
    | succ i =>
      have hrest := ih (i := i) (by simpa using h)
      simp only [List.eraseIdx_cons_succ, List.map_cons, List.sum_cons]
      omega

/-! ## Counting -/

/-- Whether a range has a byte, as a number. -/
def hits (p : Nat) (range : Nat × Nat) : Nat := if range.1 ≤ p ∧ p < range.1 + range.2 then 1 else 0

@[simp] theorem hits_none (p : Nat) : hits p (0, 0) = 0 := by
  simp [hits]

/-- A range and the one that follows it are one longer range. -/
theorem hits_append (p start n m : Nat) : hits p (start, n) + hits p (start + n, m) = hits p (start, n + m) := by
  unfold hits
  simp only
  split <;> split <;> split <;> omega

/-! ## Ranges that follow one another -/

/-- Ranges that follow one another from `pos` to `stop`. -/
def Chain : Nat → List (Nat × Nat) → Nat → Prop
  | pos, [], stop => pos = stop
  | pos, (offset, length) :: rest, stop => offset = pos ∧ 0 < length ∧ Chain (pos + length) rest stop

theorem Chain.concat {pos stop : Nat} {issued : List (Nat × Nat)} (h : Chain pos issued stop) {n : Nat} (hn : 0 < n) :
    Chain pos (issued ++ [(stop, n)]) (stop + n) := by
  induction issued generalizing pos with
  | nil =>
    obtain rfl : pos = stop := h
    exact ⟨rfl, hn, rfl⟩
  | cons e rest ih =>
    obtain ⟨offset, length⟩ := e
    obtain ⟨rfl, hpos, hrest⟩ := h
    exact ⟨rfl, hpos, ih hrest⟩

theorem Chain.le {pos stop : Nat} {issued : List (Nat × Nat)} (h : Chain pos issued stop) :
    pos ≤ stop ∧ ∀ e ∈ issued, pos ≤ e.1 := by
  induction issued generalizing pos with
  | nil =>
    obtain rfl : pos = stop := h
    exact ⟨Nat.le_refl _, fun e he => by cases he⟩
  | cons e rest ih =>
    obtain ⟨offset, length⟩ := e
    obtain ⟨rfl, -, hrest⟩ := h
    obtain ⟨hle, hall⟩ := ih hrest
    refine ⟨by omega, fun e he => ?_⟩
    rcases List.mem_cons.mp he with rfl | he
    · exact Nat.le_refl _
    · have := hall e he
      omega

/-- The first ranges of a chain, and the others. -/
theorem Chain.split {pos stop : Nat} {first rest : List (Nat × Nat)} (h : Chain pos (first ++ rest) stop) :
    ∃ mid, Chain pos first mid ∧ Chain mid rest stop := by
  induction first generalizing pos with
  | nil => exact ⟨pos, rfl, h⟩
  | cons e first ih =>
    obtain ⟨offset, length⟩ := e
    obtain ⟨rfl, hpos, hrest⟩ := h
    obtain ⟨mid, hfirst, htail⟩ := ih hrest
    exact ⟨mid, ⟨rfl, hpos, hfirst⟩, htail⟩

/-- No range of a chain goes beyond its end. -/
theorem Chain.ends {pos stop : Nat} {ranges : List (Nat × Nat)} (h : Chain pos ranges stop) :
    ∀ e ∈ ranges, e.1 + e.2 ≤ stop := by
  induction ranges generalizing pos with
  | nil => exact fun e he => by cases he
  | cons e rest ih =>
    obtain ⟨offset, length⟩ := e
    obtain ⟨rfl, -, hrest⟩ := h
    intro e he
    rcases List.mem_cons.mp he with rfl | he
    · exact hrest.le.1
    · exact ih hrest e he

/-- A chain, moved as a whole. -/
theorem Chain.shift {pos stop : Nat} {ranges : List (Nat × Nat)} (h : Chain pos ranges stop) (start : Nat) :
    Chain (start + pos) (ranges.map fun e => (start + e.1, e.2)) (start + stop) := by
  induction ranges generalizing pos with
  | nil => exact congrArg (start + ·) h
  | cons e rest ih =>
    obtain ⟨offset, length⟩ := e
    obtain ⟨rfl, hpos, hrest⟩ := h
    exact ⟨rfl, hpos, by rw [Nat.add_assoc]; exact ih hrest⟩

theorem Chain.pos {pos stop : Nat} {ranges : List (Nat × Nat)} (h : Chain pos ranges stop) : ∀ e ∈ ranges, 0 < e.2 := by
  induction ranges generalizing pos with
  | nil => exact fun e he => by cases he
  | cons e rest ih =>
    obtain ⟨offset, length⟩ := e
    obtain ⟨rfl, hpos, hrest⟩ := h
    intro e he
    rcases List.mem_cons.mp he with rfl | he
    · exact hpos
    · exact ih hrest e he

/-- A position between the two ends is in one of the ranges. -/
theorem Chain.covers {pos stop : Nat} {ranges : List (Nat × Nat)} (h : Chain pos ranges stop) {i : Nat}
    (hle : pos ≤ i) (hlt : i < stop) : ∃ e ∈ ranges, e.1 ≤ i ∧ i < e.1 + e.2 := by
  induction ranges generalizing pos with
  | nil =>
    obtain rfl : pos = stop := h
    omega
  | cons e rest ih =>
    obtain ⟨offset, length⟩ := e
    obtain ⟨rfl, -, hrest⟩ := h
    by_cases hin : i < offset + length
    · exact ⟨_, List.mem_cons_self .., hle, hin⟩
    · obtain ⟨e, he, hcovers⟩ := ih hrest (by omega)
      exact ⟨e, List.mem_cons_of_mem _ he, hcovers⟩

/-- Ranges that follow one another add up, and have every byte once. -/
theorem Chain.sums {pos stop : Nat} {ranges : List (Nat × Nat)} (h : Chain pos ranges stop) :
    pos + (ranges.map Prod.snd).sum = stop ∧ ∀ p, (ranges.map (hits p)).sum = hits p (pos, stop - pos) := by
  induction ranges generalizing pos with
  | nil =>
    obtain rfl : pos = stop := h
    exact ⟨rfl, fun p => by simp [hits]⟩
  | cons e rest ih =>
    obtain ⟨offset, length⟩ := e
    obtain ⟨rfl, -, hrest⟩ := h
    obtain ⟨hsum, hhits⟩ := ih hrest
    have hle := hrest.le.1
    refine ⟨by simp only [List.map_cons, List.sum_cons]; omega, fun p => ?_⟩
    rw [List.map_cons, List.sum_cons, hhits p]
    have hlen : stop - offset = length + (stop - (offset + length)) := by omega
    rw [hlen]
    exact hits_append p offset length _

/-- What is read range by range is what is read at once, when it can be cut anywhere. -/
theorem Chain.flatMap_eq {β : Type} {pos stop : Nat} {ranges : List (Nat × Nat)} (h : Chain pos ranges stop)
    (f : Nat → Nat → List β) (hnil : ∀ p, f p 0 = [])
    (hcut : ∀ p n m, p + n + m ≤ stop → f p (n + m) = f p n ++ f (p + n) m) :
    ranges.flatMap (fun e => f e.1 e.2) = f pos (stop - pos) := by
  induction ranges generalizing pos with
  | nil =>
    obtain rfl : pos = stop := h
    rw [Nat.sub_self, hnil, List.flatMap_nil]
  | cons e rest ih =>
    obtain ⟨offset, length⟩ := e
    obtain ⟨rfl, -, hrest⟩ := h
    have hle := hrest.le.1
    have hlen : stop - offset = length + (stop - (offset + length)) := by omega
    rw [List.flatMap_cons, ih hrest, hlen]
    exact (hcut offset length _ (by omega)).symm

/-- The starts that `range` gives, with the lengths of their pieces. -/
theorem chain_range {stop step : Nat} (hstep : 0 < step) (n : Nat) (hn : ∀ i < n, i * step < stop) :
    Chain 0 ((List.range n).map fun i => (i * step, min step (stop - i * step))) (min (n * step) stop) := by
  induction n with
  | zero => simp [Chain]
  | succ n ih =>
    have hlast := hn n (Nat.lt_succ_self n)
    have hrest := ih fun i hi => hn i (Nat.lt_succ_of_lt hi)
    rw [Nat.min_eq_left (Nat.le_of_lt hlast)] at hrest
    rw [List.range_succ, List.map_append]
    have hsum : n * step + min step (stop - n * step) = min ((n + 1) * step) stop := by
      rw [Nat.succ_mul]
      omega
    rw [← hsum]
    exact hrest.concat (by omega)

/-- A length cut at every multiple of a step. -/
theorem chain_cut (stop : Nat) {step : Nat} (hstep : 0 < step) :
    Chain 0 ((List.range ((stop + step - 1) / step)).map fun i => (i * step, min step (stop - i * step))) stop := by
  have hlast : ∀ i < (stop + step - 1) / step, i * step < stop := by
    intro i hi
    have hle := Nat.mul_le_of_le_div step (i + 1) (stop + step - 1) hi
    rw [Nat.succ_mul] at hle
    omega
  have hchain := chain_range hstep _ hlast
  rwa [Nat.min_eq_right (size_le_count_mul stop hstep)] at hchain

end XrdClient.Lib
