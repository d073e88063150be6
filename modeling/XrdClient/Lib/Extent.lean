/-
  Lib/Extent.lean --- files written at offsets, and stripes of one file.

  A file is the sequence of its elements.  `writeAt` is a positioned write: the
  gap between the old end and the offset is filled.  `resize` is what sizing a
  file ahead of its contents does.

  A *landing* is a copy under way.  Every stripe is one worker's share of the
  source, moved in order; the stripes advance independently, in whatever order
  their pieces arrive.  Two rules say what that leaves: `Landing.sound_run` for
  any set of stripes, and `Landing.run_reached` for a single one, which leaves a
  prefix.
-/
import Mathlib

set_option autoImplicit false

namespace XrdClient.Lib

variable {α : Type}

/-! ## Positioned writes -/

/-- The file at a length of `n`: cut there, or filled up to it. -/
def resize (zero : α) (n : Nat) (file : List α) : List α :=
  file.take n ++ List.replicate (n - file.length) zero

/-- `data` written at `offset`.  Writing nothing does not move the end. -/
def writeAt (zero : α) (file : List α) (offset : Nat) (data : List α) : List α :=
  if data.isEmpty then file
  else resize zero offset file ++ data ++ file.drop (offset + data.length)

@[simp] theorem length_resize (zero : α) (n : Nat) (file : List α) :
    (resize zero n file).length = n := by
  simp only [resize, List.length_append, List.length_take, List.length_replicate]
  omega

theorem getElem?_resize_of_lt (zero : α) {n p : Nat} (file : List α) (hn : p < n)
    (hp : p < file.length) : (resize zero n file)[p]? = file[p]? := by
  have hlen : p < (file.take n).length := by
    rw [List.length_take]
    omega
  rw [resize, List.getElem?_append_left hlen, List.getElem?_take_of_lt hn]

@[simp] theorem writeAt_nil (zero : α) (file : List α) (offset : Nat) :
    writeAt zero file offset [] = file := rfl

theorem writeAt_of_ne_nil (zero : α) (file : List α) (offset : Nat) {data : List α}
    (h : data ≠ []) :
    writeAt zero file offset data
      = resize zero offset file ++ (data ++ file.drop (offset + data.length)) := by
  have hdata : data.isEmpty = false := by simpa using h
  simp [writeAt, hdata]

theorem length_writeAt (zero : α) (file : List α) (offset : Nat) {data : List α}
    (h : data ≠ []) :
    (writeAt zero file offset data).length = max file.length (offset + data.length) := by
  rw [writeAt_of_ne_nil zero file offset h]
  simp only [List.length_append, length_resize, List.length_drop]
  omega

/-- Writing at the end appends. -/
theorem writeAt_length (zero : α) (file data : List α) :
    writeAt zero file file.length data = file ++ data := by
  by_cases h : data = []
  · simp [h]
  · rw [writeAt_of_ne_nil zero file file.length h]
    simp [resize]

/-- Inside the write are its data. -/
theorem getElem?_writeAt_inside (zero : α) (file : List α) {offset p : Nat} {data : List α}
    (h : data ≠ []) (hp : offset ≤ p) (hd : p < offset + data.length) :
    (writeAt zero file offset data)[p]? = data[p - offset]? := by
  rw [writeAt_of_ne_nil zero file offset h, List.getElem?_append_right (by simpa using hp),
    length_resize, List.getElem?_append_left (by omega)]

/-- Outside the write is what was there. -/
theorem getElem?_writeAt_outside (zero : α) (file : List α) {offset p : Nat} {data : List α}
    (h : data ≠ []) (hp : p < offset ∧ p < file.length ∨ offset + data.length ≤ p) :
    (writeAt zero file offset data)[p]? = file[p]? := by
  rw [writeAt_of_ne_nil zero file offset h]
  rcases hp with ⟨hoff, hfile⟩ | hpast
  · rw [List.getElem?_append_left (by simpa using hoff), getElem?_resize_of_lt zero file hoff hfile]
  · rw [List.getElem?_append_right (by simp only [length_resize]; omega), length_resize,
      List.getElem?_append_right (by omega), List.getElem?_drop]
    congr 1
    omega

/-- A write inside an earlier one changes its data there. -/
theorem writeAt_within (zero : α) (file : List α) (offset : Nat) (before : List α) {old new : List α}
    (after : List α) (h : old.length = new.length) :
    writeAt zero (writeAt zero file offset (before ++ (old ++ after))) (offset + before.length) new =
      writeAt zero file offset (before ++ (new ++ after)) := by
  by_cases hnew : new = []
  · obtain rfl : old = [] := List.eq_nil_of_length_eq_zero (by rw [h, hnew]; rfl)
    rw [hnew, writeAt_nil]
  have hold : old ≠ [] := fun hnil => hnew (List.eq_nil_of_length_eq_zero (by rw [← h, hnil]; rfl))
  have hfirst : before ++ (old ++ after) ≠ [] := by simp [hold]
  have hsecond : before ++ (new ++ after) ≠ [] := by simp [hnew]
  have hlen : (resize zero offset file ++ before).length = offset + before.length := by simp
  have hpast : (before ++ (old ++ after)).length = (before ++ (new ++ after)).length := by simp [h]
  rw [writeAt_of_ne_nil zero _ _ hnew, writeAt_of_ne_nil zero file _ hfirst,
    writeAt_of_ne_nil zero file _ hsecond, hpast, ← List.append_assoc, List.append_assoc before,
    ← List.append_assoc (resize zero offset file) before]
  -- what was written is kept up to the place, and from behind the new data on
  have hhead : ∀ rest, resize zero (offset + before.length) (resize zero offset file ++ before ++ rest) =
      resize zero offset file ++ before := by
    intro rest
    rw [resize, List.take_left' hlen, Nat.sub_eq_zero_of_le (by simp), List.replicate_zero, List.append_nil]
  have hdrop : ∀ rest, (resize zero offset file ++ before ++ rest).drop (offset + before.length) = rest :=
    fun _ => List.drop_left' hlen
  rw [hhead, ← List.drop_drop, hdrop, ← h, List.append_assoc old, List.drop_left]
  simp

/-- Of two writes of one length to one place the last counts. -/
theorem writeAt_writeAt (zero : α) (file : List α) (offset : Nat) {first second : List α}
    (h : first.length = second.length) :
    writeAt zero (writeAt zero file offset first) offset second = writeAt zero file offset second := by
  have hwithin := writeAt_within zero file offset [] [] h
  simpa using hwithin

theorem resize_append (zero : α) {n : Nat} (front rest : List α) (h : n ≤ front.length) :
    resize zero n (front ++ rest) = front.take n := by
  rw [resize, List.take_append_of_le_length h, Nat.sub_eq_zero_of_le, List.replicate_zero, List.append_nil]
  rw [List.length_append]
  omega

theorem take_resize (zero : α) {m n : Nat} (file : List α) (h : m ≤ n) :
    (resize zero n file).take m = resize zero m file := by
  rw [resize, resize, List.take_append, List.take_take, List.take_replicate, Nat.min_eq_left h]
  congr 2
  rw [List.length_take]
  omega

/-- A write, and one behind it. -/
theorem writeAt_append (zero : α) (file : List α) (offset : Nat) (first second : List α) :
    writeAt zero (writeAt zero file offset first) (offset + first.length) second =
      writeAt zero file offset (first ++ second) := by
  by_cases hfirst : first = []
  · simp [hfirst]
  by_cases hsecond : second = []
  · simp [hsecond]
  have hlength : (resize zero offset file ++ first).length = offset + first.length := by simp
  have hfront : resize zero (offset + first.length)
      ((resize zero offset file ++ first) ++ file.drop (offset + first.length)) =
      resize zero offset file ++ first := by
    rw [resize_append zero _ _ (Nat.le_of_eq hlength.symm), ← hlength, List.take_length]
  rw [writeAt_of_ne_nil zero _ _ hsecond, writeAt_of_ne_nil zero file _ hfirst,
    writeAt_of_ne_nil zero file _ (List.append_ne_nil_of_left_ne_nil hfirst _),
    ← List.append_assoc (resize zero offset file) first, hfront, ← List.drop_drop, List.drop_left' hlength, List.drop_drop]
  simp [Nat.add_assoc]

/-- A write covers what was written inside it. -/
theorem writeAt_covers (zero : α) (file : List α) {offset place : Nat} {data piece : List α}
    (hle : offset ≤ place) (hend : place + piece.length ≤ offset + data.length) :
    writeAt zero (writeAt zero file place piece) offset data = writeAt zero file offset data := by
  by_cases hpiece : piece = []
  · rw [hpiece, writeAt_nil]
  have hdata : data ≠ [] := by
    rintro rfl
    have := List.length_pos_iff.mpr hpiece
    simp only [List.length_nil] at hend
    omega
  have hdrop : (writeAt zero file place piece).drop (offset + data.length) =
      file.drop (offset + data.length) := by
    obtain ⟨n, hn⟩ := Nat.exists_eq_add_of_le hend
    rw [writeAt_of_ne_nil zero file _ hpiece, hn, ← List.append_assoc, ← List.drop_drop]
    rw [List.drop_left' (by simp), List.drop_drop]
  rw [writeAt_of_ne_nil zero _ _ hdata, writeAt_of_ne_nil zero file offset hdata, hdrop,
    writeAt_of_ne_nil zero file _ hpiece, resize_append zero _ _ (by simpa using hle),
    take_resize zero file hle]

/-! ## A slice of a source, written where it belongs -/

/-- The `n` elements of a source that start at `offset`. -/
def slice (source : List α) (offset n : Nat) : List α := (source.drop offset).take n

theorem length_slice (source : List α) (offset n : Nat) :
    (slice source offset n).length = min n (source.length - offset) := by
  simp [slice]

theorem getElem?_slice (source : List α) {offset n k : Nat} (h : k < n) :
    (slice source offset n)[k]? = source[offset + k]? := by
  rw [slice, List.getElem?_take_of_lt h, List.getElem?_drop]

theorem offset_lt_of_slice_ne_nil {source : List α} {offset n : Nat}
    (h : slice source offset n ≠ []) : offset + (slice source offset n).length ≤ source.length := by
  have hpos := List.length_pos_iff.mpr h
  rw [length_slice] at hpos ⊢
  omega

/-- A slice stops where the source does. -/
theorem slice_min (source : List α) (offset n : Nat) :
    slice source offset (min n (source.length - offset)) = slice source offset n := by
  rw [slice, slice, ← List.length_drop, List.take_eq_take_iff]
  omega

/-- A slice can be cut anywhere. -/
theorem slice_add (source : List α) (offset n m : Nat) :
    slice source offset (n + m) = slice source offset n ++ slice source (offset + n) m := by
  rw [slice, List.take_add, List.drop_drop]
  rfl

/-- A slice and the one that follows it are one longer slice. -/
theorem slice_append_slice (source : List α) {offset n : Nat} (m : Nat)
    (h : n ≤ source.length - offset) :
    slice source offset n ++ slice source (offset + n) m
      = slice source offset (n + (slice source (offset + n) m).length) := by
  have hn : (slice source offset n).length = n := by
    rw [length_slice]
    omega
  have hm := length_slice source (offset + n) m
  apply List.ext_getElem?
  intro k
  by_cases hk : k < n
  · rw [List.getElem?_append_left (by omega), getElem?_slice source hk,
      getElem?_slice source (by omega)]
  · rw [List.getElem?_append_right (by omega), hn]
    by_cases hin : k - n < (slice source (offset + n) m).length
    · rw [getElem?_slice source (by omega), getElem?_slice source (by omega)]
      congr 1
      omega
    · rw [List.getElem?_eq_none (by omega), List.getElem?_eq_none (by rw [length_slice]; omega)]

/-- A slice lands as the source has it. -/
theorem getElem?_writeAt_slice (zero : α) (file source : List α) {offset n p : Nat}
    (hp : offset ≤ p) (hd : p < offset + (slice source offset n).length) :
    (writeAt zero file offset (slice source offset n))[p]? = source[p]? := by
  have hne : slice source offset n ≠ [] := by
    intro hnil
    rw [hnil] at hd
    simp only [List.length_nil] at hd
    omega
  have hn : p - offset < n := by
    rw [length_slice] at hd
    omega
  rw [getElem?_writeAt_inside zero file hne hp hd, getElem?_slice source hn]
  congr 1
  omega

/-- A slice that lands spoils nothing that was right. -/
theorem writeAt_slice_keeps (zero : α) (file source : List α) (offset n : Nat) {p : Nat}
    (h : file[p]? = source[p]?) :
    (writeAt zero file offset (slice source offset n))[p]? = source[p]? := by
  by_cases hne : slice source offset n = []
  · rw [hne, writeAt_nil, h]
  by_cases hin : offset ≤ p ∧ p < offset + (slice source offset n).length
  · exact getElem?_writeAt_slice zero file source hin.1 hin.2
  · have hend := offset_lt_of_slice_ne_nil hne
    have hpos := List.length_pos_iff.mpr hne
    rw [getElem?_writeAt_outside zero file hne ?_, h]
    by_cases hp : offset + (slice source offset n).length ≤ p
    · exact Or.inr hp
    · -- below the offset the file is as long as the source is there
      have hsource : p < source.length := by omega
      have hfile : p < file.length := by
        rw [List.getElem?_eq_getElem hsource] at h
        exact (List.getElem?_eq_some_iff.mp h).1
      exact Or.inl ⟨by omega, hfile⟩

theorem length_writeAt_slice_le (zero : α) {file source : List α} (offset n : Nat)
    (h : file.length ≤ source.length) :
    (writeAt zero file offset (slice source offset n)).length ≤ source.length := by
  by_cases hne : slice source offset n = []
  · simpa [hne] using h
  · have hend := offset_lt_of_slice_ne_nil hne
    rw [length_writeAt zero file offset hne]
    omega

/-- Equal to the source wherever the source has something, and no longer. -/
theorem eq_of_agree {file source : List α} (hlen : file.length ≤ source.length)
    (h : ∀ p < source.length, file[p]? = source[p]?) : file = source := by
  apply List.ext_getElem?
  intro p
  by_cases hp : p < source.length
  · exact h p hp
  · rw [List.getElem?_eq_none (by omega), List.getElem?_eq_none (by omega)]

/-! ## Stripes -/

/-- One worker's share of a source, and how much of it has landed. -/
structure Stripe where
  start : Nat
  length : Nat
  done : Nat := 0
  deriving DecidableEq

/-- What can happen to a landing: a worker's next bytes arrive, or a worker
loses the source and reads on from where it stopped. -/
inductive Piece where
  | landed (worker bytes : Nat)
  | lost (worker : Nat)
  deriving DecidableEq

/-- A copy under way. -/
structure Landing (α : Type) where
  file : List α
  stripes : List Stripe

namespace Landing

/-- The next `n` elements of a worker's stripe, at most to its end. -/
def next (source : List α) (s : Stripe) (n : Nat) : List α :=
  slice source (s.start + s.done) (min n (s.length - s.done))

/-- One piece. -/
def step (zero : α) (source : List α) (l : Landing α) : Piece → Landing α
  | .lost _ => l
  | .landed worker n =>
    match l.stripes[worker]? with
    | none => l
    | some s =>
      { file := writeAt zero l.file (s.start + s.done) (next source s n)
        stripes := l.stripes.set worker { s with done := s.done + (next source s n).length } }

/-- Every piece, in the order they arrive. -/
def run (zero : α) (source : List α) (l : Landing α) (pieces : List Piece) : Landing α :=
  pieces.foldl (step zero source) l

/-- How much has landed. -/
def moved (l : Landing α) : Nat := (l.stripes.map Stripe.done).sum

@[simp] theorem run_nil (zero : α) (source : List α) (l : Landing α) :
    run zero source l [] = l := rfl

@[simp] theorem run_cons (zero : α) (source : List α) (l : Landing α) (p : Piece)
    (ps : List Piece) :
    run zero source l (p :: ps) = run zero source (step zero source l p) ps := rfl

/-- Every stripe's landed part is the source's, and no stripe has overrun. -/
structure Sound (source : List α) (l : Landing α) : Prop where
  within : ∀ s ∈ l.stripes, s.done ≤ s.length
  agree : ∀ s ∈ l.stripes, ∀ k < s.done, l.file[s.start + k]? = source[s.start + k]?

theorem length_next_le (source : List α) (s : Stripe) (n : Nat) :
    (next source s n).length ≤ s.length - s.done := by
  rw [next, length_slice]
  omega

theorem sound_step (zero : α) {source : List α} {l : Landing α} (h : Sound source l) (p : Piece) :
    Sound source (step zero source l p) := by
  cases p with
  | lost worker => exact h
  | landed worker n =>
    cases hs : l.stripes[worker]? with
    | none => simpa [step, hs] using h
    | some s =>
      have hmem : s ∈ l.stripes := List.mem_of_getElem? hs
      have hle := h.within s hmem
      have hnext := length_next_le source s n
      have hkeep : ∀ t ∈ l.stripes, ∀ k < t.done,
          (writeAt zero l.file (s.start + s.done) (next source s n))[t.start + k]?
            = source[t.start + k]? := by
        intro t ht k hk
        exact writeAt_slice_keeps zero l.file source _ _ (h.agree t ht k hk)
      constructor
      · intro t ht
        simp only [step, hs] at ht
        rcases List.mem_or_eq_of_mem_set ht with ht | rfl
        · exact h.within t ht
        · simp only
          omega
      · intro t ht k hk
        simp only [step, hs] at ht ⊢
        rcases List.mem_or_eq_of_mem_set ht with ht | rfl
        · exact hkeep t ht k hk
        · simp only at hk ⊢
          by_cases hold : k < s.done
          · exact hkeep s hmem k hold
          · exact getElem?_writeAt_slice zero l.file source (by omega) (by
              change s.start + k < s.start + s.done + (next source s n).length
              omega)

theorem sound_run (zero : α) {source : List α} {l : Landing α} (h : Sound source l)
    (ps : List Piece) : Sound source (run zero source l ps) := by
  induction ps generalizing l with
  | nil => exact h
  | cons p ps ih => exact ih (sound_step zero h p)

/-- The stripes of a landing are the ones it started with. -/
theorem layout_step (zero : α) (source : List α) (l : Landing α) (p : Piece) :
    (step zero source l p).stripes.map (fun s => (s.start, s.length))
      = l.stripes.map (fun s => (s.start, s.length)) := by
  cases p with
  | lost worker => rfl
  | landed worker n =>
    cases hs : l.stripes[worker]? with
    | none => simp [step, hs]
    | some s =>
      simp only [step, hs, List.map_set]
      apply List.ext_getElem?
      intro i
      rw [List.getElem?_set]
      split
      · next heq =>
        subst heq
        obtain ⟨hlt, hget⟩ := List.getElem?_eq_some_iff.mp hs
        simp [hlt, hget]
      · rfl

theorem layout_run (zero : α) (source : List α) (l : Landing α) (ps : List Piece) :
    (run zero source l ps).stripes.map (fun s => (s.start, s.length))
      = l.stripes.map (fun s => (s.start, s.length)) := by
  induction ps generalizing l with
  | nil => rfl
  | cons p ps ih => rw [run_cons, ih, layout_step]

/-- A landing never shortens its file. -/
theorem length_le_run (zero : α) (source : List α) (l : Landing α) (ps : List Piece) :
    l.file.length ≤ (run zero source l ps).file.length := by
  induction ps generalizing l with
  | nil => exact Nat.le_refl _
  | cons p ps ih =>
    refine Nat.le_trans ?_ (ih (step zero source l p))
    cases p with
    | lost worker => exact Nat.le_refl _
    | landed worker n =>
      cases hs : l.stripes[worker]? with
      | none => simp [step, hs]
      | some s =>
        simp only [step, hs]
        by_cases hnone : next source s n = []
        · simp [hnone]
        · rw [length_writeAt zero l.file _ hnone]
          omega

theorem length_run_le (zero : α) {source : List α} {l : Landing α}
    (h : l.file.length ≤ source.length) (ps : List Piece) :
    (run zero source l ps).file.length ≤ source.length := by
  induction ps generalizing l with
  | nil => exact h
  | cons p ps ih =>
    apply ih
    cases p with
    | lost worker => exact h
    | landed worker n =>
      cases hs : l.stripes[worker]? with
      | none => simpa [step, hs] using h
      | some s =>
        simp only [step, hs]
        exact length_writeAt_slice_le zero _ _ h

end Landing

/-! ## Dividing a source -/

/-- `size` divided into contiguous stripes of `width`, the last one short. -/
def divide (size width : Nat) : List Stripe :=
  (List.range ((size + width - 1) / width)).map fun i =>
    { start := i * width, length := min width (size - i * width) }

theorem sum_widths (size width : Nat) (count : Nat) :
    ((List.range count).map fun i => min width (size - i * width)).sum
      = min (count * width) size := by
  induction count with
  | zero => simp
  | succ count ih =>
    rw [List.range_succ, List.map_append, List.sum_append, ih, Nat.succ_mul]
    simp only [List.map_cons, List.map_nil, List.sum_cons, List.sum_nil]
    omega

theorem size_le_count_mul (size : Nat) {width : Nat} (h : 0 < width) :
    size ≤ (size + width - 1) / width * width := by
  have hmod := Nat.mod_lt (size + width - 1) h
  have hdiv := Nat.div_add_mod' (size + width - 1) width
  omega

/-- The stripes together are no longer than what they divide. -/
theorem sum_divide_le (size width : Nat) :
    ((divide size width).map Stripe.length).sum ≤ size := by
  rw [divide, List.map_map]
  exact Nat.le_trans (Nat.le_of_eq (sum_widths size width _)) (by omega)

/-- Every position is in a stripe. -/
theorem mem_divide {size width p : Nat} (h : 0 < width) (hp : p < size) :
    ∃ s ∈ divide size width, s.start ≤ p ∧ p < s.start + s.length := by
  have hdiv := Nat.div_add_mod' p width
  have hmod := Nat.mod_lt p h
  have hcount : p / width < (size + width - 1) / width := by
    rw [Nat.div_lt_iff_lt_mul h]
    have hcover := size_le_count_mul size h
    omega
  refine ⟨_, List.mem_map.mpr ⟨p / width, List.mem_range.mpr hcount, rfl⟩, ?_, ?_⟩
  · simp only
    omega
  · simp only
    omega

theorem done_divide {size width : Nat} {s : Stripe} (h : s ∈ divide size width) :
    s.done = 0 := by
  obtain ⟨i, -, rfl⟩ := List.mem_map.mp h
  rfl

namespace Landing

/-- A landing that has not begun is sound. -/
theorem sound_divide (source file : List α) (size width : Nat) :
    Sound source ⟨file, divide size width⟩ := by
  constructor
  · intro s hs
    simp [done_divide hs]
  · intro s hs k hk
    simp [done_divide hs] at hk

theorem sum_done_le {ss : List Stripe} (hle : ∀ s ∈ ss, s.done ≤ s.length) :
    (ss.map Stripe.done).sum ≤ (ss.map Stripe.length).sum := by
  induction ss with
  | nil => simp
  | cons s ss ih =>
    have hs := hle s (by simp)
    have hss := ih fun t ht => hle t (by simp [ht])
    simp only [List.map_cons, List.sum_cons]
    omega

/-- No more has moved than was divided. -/
theorem moved_run_le (zero : α) (source file : List α) (size width : Nat) (ps : List Piece) :
    (run zero source ⟨file, divide size width⟩ ps).moved ≤ size := by
  have hsound := sound_run zero (sound_divide source file size width) ps
  have hmap := congrArg (fun xs => (xs.map Prod.snd).sum)
    (layout_run zero source ⟨file, divide size width⟩ ps)
  simp only [List.map_map] at hmap
  exact Nat.le_trans (sum_done_le hsound.within)
    (Nat.le_trans (Nat.le_of_eq hmap) (sum_divide_le size width))

/-- Parts that are each within bounds and together reach the bound are complete. -/
theorem done_eq_of_sum {ss : List Stripe} (hle : ∀ s ∈ ss, s.done ≤ s.length)
    (hsum : (ss.map Stripe.length).sum ≤ (ss.map Stripe.done).sum) :
    ∀ s ∈ ss, s.done = s.length := by
  induction ss with
  | nil => simp
  | cons s ss ih =>
    have hs := hle s (by simp)
    have hrest : ∀ t ∈ ss, t.done ≤ t.length := fun t ht => hle t (by simp [ht])
    have htail := sum_done_le hrest
    simp only [List.map_cons, List.sum_cons] at hsum
    intro t ht
    rcases List.mem_cons.mp ht with rfl | ht
    · omega
    · exact ih hrest (by omega) t ht

/-- **Everything landed.**  When the stripes of a source have moved as much as it
holds, the file is the source at every position of it. -/
theorem agree_of_moved (zero : α) (source file : List α) (width : Nat) (ps : List Piece)
    (hall : source.length ≤ (run zero source ⟨file, divide source.length width⟩ ps).moved) :
    ∀ p < source.length,
      (run zero source ⟨file, divide source.length width⟩ ps).file[p]? = source[p]? := by
  have hsound := sound_run zero (sound_divide source file source.length width) ps
  have hlayout := layout_run zero source ⟨file, divide source.length width⟩ ps
  generalize run zero source ⟨file, divide source.length width⟩ ps = l at *
  intro p hp
  have hmap := congrArg (fun xs => (xs.map Prod.snd).sum) hlayout
  simp only [List.map_map] at hmap
  have hlengths : (l.stripes.map Stripe.length).sum ≤ source.length :=
    Nat.le_trans (Nat.le_of_eq hmap) (sum_divide_le _ _)
  have hmoved := sum_done_le hsound.within
  have h : 0 < width := by
    -- stripes of no width divide nothing, and then nothing has moved
    refine Nat.pos_of_ne_zero fun hzero => ?_
    subst hzero
    have hnone : (l.stripes.map Stripe.length).sum = 0 := hmap.trans (by simp [divide])
    rw [moved] at hall
    omega
  have hdone := done_eq_of_sum hsound.within (Nat.le_trans hlengths hall)
  obtain ⟨s, hs, hlow, hhigh⟩ := mem_divide h hp
  have hpair : (s.start, s.length) ∈ l.stripes.map (fun t => (t.start, t.length)) := by
    rw [hlayout]
    exact List.mem_map.mpr ⟨s, hs, rfl⟩
  obtain ⟨t, ht, heq⟩ := List.mem_map.mp hpair
  simp only [Prod.mk.injEq] at heq
  have hk := hsound.agree t ht (p - t.start) (by rw [hdone t ht]; omega)
  rwa [Nat.add_sub_cancel' (by omega)] at hk

/-- A single stripe that starts at the end of the file, `done` of it landed. -/
def reached (source file : List α) (length done : Nat) : Landing α :=
  ⟨file ++ slice source file.length done, [{ start := file.length, length, done }]⟩

/-- A single stripe that has not begun. -/
def single (file : List α) (length : Nat) : Landing α :=
  ⟨file, [{ start := file.length, length }]⟩

theorem single_eq_reached (source file : List α) (length : Nat) :
    single file length = reached source file length 0 := by
  simp [single, reached, slice]

@[simp] theorem moved_reached (source file : List α) (length done : Nat) :
    (reached source file length done).moved = done := by
  simp [moved, reached]

/-- A stripe advances by what was sent, what it has left and what there is. -/
theorem step_reached (zero : α) {source file : List α} {length done : Nat} (n : Nat)
    (hdone : done ≤ source.length - file.length) :
    step zero source (reached source file length done) (.landed 0 n)
      = reached source file length
          (done + min (min n (length - done)) (source.length - (file.length + done))) := by
  have hlen : (file ++ slice source file.length done).length = file.length + done := by
    rw [List.length_append, length_slice]
    omega
  have hjoin := slice_append_slice source (min n (length - done)) hdone
  rw [length_slice] at hjoin
  simp only [step, reached, List.getElem?_cons_zero, next, List.set_cons_zero, length_slice]
  congr 1
  rw [← hjoin, ← List.append_assoc, ← hlen, writeAt_length]

/-- **One stripe leaves a prefix.**  The file is what it was, and then as much of
the source from there as has landed. -/
theorem run_reached (zero : α) (source file : List α) (length done : Nat) (ps : List Piece)
    (hlength : done ≤ length) (hdone : done ≤ source.length - file.length) :
    ∃ d, done ≤ d ∧ d ≤ length ∧ d ≤ source.length - file.length ∧
      run zero source (reached source file length done) ps = reached source file length d := by
  induction ps generalizing done with
  | nil => exact ⟨done, Nat.le_refl _, hlength, hdone, rfl⟩
  | cons p ps ih =>
    rw [run_cons]
    have hsame : step zero source (reached source file length done) p
          = reached source file length done →
        ∃ d, done ≤ d ∧ d ≤ length ∧ d ≤ source.length - file.length ∧
          run zero source (step zero source (reached source file length done) p) ps
            = reached source file length d := by
      intro h
      rw [h]
      exact ih done hlength hdone
    cases p with
    | lost worker => exact hsame rfl
    | landed worker n =>
      cases worker with
      | succ worker => exact hsame rfl
      | zero =>
        rw [step_reached zero n hdone]
        have hwithin : done + min (min n (length - done)) (source.length - (file.length + done))
            ≤ length := by omega
        obtain ⟨d, hle, hd⟩ := ih _ hwithin (by omega)
        exact ⟨d, by omega, hd⟩

end Landing

end XrdClient.Lib
