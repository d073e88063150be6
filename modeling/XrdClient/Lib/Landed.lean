/-
  Lib/Landed.lean --- pieces of a whole that land in any order.

  A piece is asked for as a range, and what lands is put where the range starts.  A
  piece may land short.  `filled` is the buffer after some pieces, `landedTotal` is how
  much of them there is, and `Covered` is a position that one of them has.

  Two questions about pieces that were asked for side by side:

      is the total a prefix         every position below the total is covered
      did one land beyond a gap     a piece that is behind a short one is not empty

  They are each other's opposite (`covered_iff`), whatever was in the buffer before.
-/
import Mathlib
import XrdClient.Lib.Ranges

set_option autoImplicit false

namespace XrdClient.Lib

variable {α : Type}

/-- A range, and what landed of it. -/
abbrev Landed (α : Type) : Type := (Nat × Nat) × List α

/-- How much landed. -/
def landedTotal (pieces : List (Landed α)) : Nat := (pieces.map fun p => p.2.length).sum

/-- Some piece has the position. -/
def Covered (pieces : List (Landed α)) (i : Nat) : Prop :=
  ∃ p ∈ pieces, p.1.1 ≤ i ∧ i < p.1.1 + p.2.length

/-- A buffer, with each piece put where its range starts. -/
def filled (zero : α) (view : List α) (pieces : List (Landed α)) : List α :=
  pieces.foldl (fun view p => writeAt zero view p.1.1 p.2) view

/-- No piece that is behind a short one has anything. -/
def NoneBeyond (pieces : List (Landed α)) : Prop :=
  ∀ a ∈ pieces, ∀ b ∈ pieces, a.1.1 < b.1.1 → a.2.length < a.1.2 → b.2 = []

instance [DecidableEq α] (pieces : List (Landed α)) : Decidable (NoneBeyond pieces) :=
  inferInstanceAs (Decidable (∀ a ∈ pieces, ∀ b ∈ pieces, a.1.1 < b.1.1 →
    a.2.length < a.1.2 → b.2 = []))

@[simp] theorem landedTotal_nil : landedTotal ([] : List (Landed α)) = 0 := rfl

@[simp] theorem landedTotal_cons (p : Landed α) (pieces : List (Landed α)) :
    landedTotal (p :: pieces) = p.2.length + landedTotal pieces := by
  simp [landedTotal]

theorem covered_cons (p : Landed α) (pieces : List (Landed α)) (i : Nat) :
    Covered (p :: pieces) i ↔ p.1.1 ≤ i ∧ i < p.1.1 + p.2.length ∨ Covered pieces i := by
  simp [Covered]

theorem landedTotal_perm {pieces pieces' : List (Landed α)} (h : pieces.Perm pieces') :
    landedTotal pieces = landedTotal pieces' :=
  (h.map _).sum_nat

theorem covered_perm {pieces pieces' : List (Landed α)} (h : pieces.Perm pieces') (i : Nat) :
    Covered pieces i ↔ Covered pieces' i := by
  simp [Covered, h.mem_iff]

theorem noneBeyond_perm {pieces pieces' : List (Landed α)} (h : pieces.Perm pieces') :
    NoneBeyond pieces ↔ NoneBeyond pieces' := by
  simp [NoneBeyond, h.mem_iff]

/-! ## Side by side -/

/-- A piece of ranges that follow one another starts behind the first of them. -/
theorem Chain.starts {pos stop : Nat} {pieces : List (Landed α)}
    (h : Chain pos (pieces.map Prod.fst) stop) {p : Landed α} (hp : p ∈ pieces) : pos ≤ p.1.1 :=
  h.le.2 p.1 (List.mem_map_of_mem hp)

theorem landedTotal_eq_zero {pieces : List (Landed α)} (h : ∀ p ∈ pieces, p.2 = []) :
    landedTotal pieces = 0 :=
  sum_map_zero fun p hp => by rw [h p hp, List.length_nil]

theorem landedTotal_pos {pieces : List (Landed α)} {p : Landed α} (hp : p ∈ pieces) (hne : p.2 ≠ []) :
    0 < landedTotal pieces :=
  Nat.lt_of_lt_of_le (List.length_pos_iff.mpr hne) (le_sum_map (fun p : Landed α => p.2.length) hp)

/-- No more lands than was asked for. -/
theorem Chain.total_le {pieces : List (Landed α)} : ∀ {pos stop : Nat},
    Chain pos (pieces.map Prod.fst) stop → (∀ p ∈ pieces, p.2.length ≤ p.1.2) →
    pos + landedTotal pieces ≤ stop := by
  induction pieces with
  | nil => exact fun h _ => Nat.le_of_eq h
  | cons p pieces ih =>
    intro pos stop hchain hfits
    obtain ⟨⟨offset, length⟩, data⟩ := p
    obtain ⟨rfl, -, hrest⟩ := hchain
    have hfit : data.length ≤ length := hfits _ (List.mem_cons_self ..)
    have hle := ih hrest fun q hq => hfits q (List.mem_cons_of_mem _ hq)
    rw [landedTotal_cons]
    dsimp only at hle ⊢
    omega

/-- With nothing beyond a gap, what landed is a prefix. -/
theorem covered_of_noneBeyond : ∀ {pieces : List (Landed α)} {pos stop : Nat},
    Chain pos (pieces.map Prod.fst) stop → (∀ p ∈ pieces, p.2.length ≤ p.1.2) → NoneBeyond pieces →
    ∀ i, pos ≤ i → i < pos + landedTotal pieces → Covered pieces i := by
  intro pieces
  induction pieces with
  | nil =>
    intro pos stop _ _ _ i hle hlt
    rw [landedTotal_nil] at hlt
    omega
  | cons p pieces ih =>
    intro pos stop hchain hfits hnone i hle hlt
    obtain ⟨⟨offset, length⟩, data⟩ := p
    obtain ⟨rfl, hpos, hrest⟩ := hchain
    have hfit : data.length ≤ length := hfits _ (List.mem_cons_self ..)
    rw [landedTotal_cons] at hlt
    rw [covered_cons]
    dsimp only at hlt ⊢
    by_cases hin : i < offset + data.length
    · exact .inl ⟨hle, hin⟩
    refine .inr ?_
    by_cases hshort : data.length < length
    · -- the others are behind a short piece
      have hzero : landedTotal pieces = 0 := landedTotal_eq_zero fun q hq => by
        refine hnone _ (List.mem_cons_self ..) q (List.mem_cons_of_mem _ hq) ?_ hshort
        have := hrest.starts hq
        dsimp only
        omega
      omega
    · exact ih hrest (fun q hq => hfits q (List.mem_cons_of_mem _ hq))
        (fun a ha b hb => hnone a (List.mem_cons_of_mem _ ha) b (List.mem_cons_of_mem _ hb)) i
        (by omega) (by omega)

/-- With something beyond a gap, the gap is below the total. -/
theorem gap_of_not_noneBeyond : ∀ {pieces : List (Landed α)} {pos stop : Nat},
    Chain pos (pieces.map Prod.fst) stop → (∀ p ∈ pieces, p.2.length ≤ p.1.2) →
    ¬ NoneBeyond pieces →
    ∃ i, pos ≤ i ∧ i < pos + landedTotal pieces ∧ ¬ Covered pieces i := by
  intro pieces
  induction pieces with
  | nil => exact fun _ _ hsome => absurd (fun a ha => by cases ha) hsome
  | cons p pieces ih =>
    intro pos stop hchain hfits hsome
    obtain ⟨⟨offset, length⟩, data⟩ := p
    obtain ⟨rfl, hpos, hrest⟩ := hchain
    have hfit : data.length ≤ length := hfits _ (List.mem_cons_self ..)
    have hbehind : ∀ q ∈ pieces, offset + length ≤ q.1.1 := fun q hq => hrest.starts hq
    by_cases hshort : data.length < length
    · -- the gap is where the short piece ends
      obtain ⟨b, hb, hbne⟩ : ∃ b ∈ pieces, b.2 ≠ [] := by
        by_contra hall
        push Not at hall
        refine hsome fun a ha b hb hlt _ => ?_
        rcases List.mem_cons.mp hb with rfl | hb
        · rcases List.mem_cons.mp ha with rfl | ha
          · exact absurd hlt (Nat.lt_irrefl _)
          · have := hbehind a ha
            dsimp only at hlt
            omega
        · exact hall b hb
      have hsum := landedTotal_pos hb hbne
      refine ⟨offset + data.length, by omega, by rw [landedTotal_cons]; dsimp only; omega, ?_⟩
      rw [covered_cons]
      rintro (⟨-, hlt⟩ | ⟨q, hq, hle, -⟩)
      · exact absurd hlt (Nat.lt_irrefl _)
      · have := hbehind q hq
        omega
    · have hsome' : ¬ NoneBeyond pieces := by
        refine fun hnone => hsome fun a ha b hb hlt hshorter => ?_
        rcases List.mem_cons.mp ha with rfl | ha
        · exact absurd hshorter hshort
        rcases List.mem_cons.mp hb with rfl | hb
        · have := hbehind a ha
          dsimp only at hlt
          omega
        · exact hnone a ha b hb hlt hshorter
      obtain ⟨i, hle, hlt, hgap⟩ := ih hrest (fun q hq => hfits q (List.mem_cons_of_mem _ hq)) hsome'
      refine ⟨i, by omega, by rw [landedTotal_cons]; dsimp only; omega, ?_⟩
      rw [covered_cons]
      rintro (⟨-, hlt'⟩ | hcov)
      · dsimp only at hlt'
        omega
      · exact hgap hcov

/-- What was asked for side by side from the front has landed as a prefix when nothing
landed beyond a gap, and only then. -/
theorem covered_iff {pieces sorted : List (Landed α)} {stop : Nat} (hperm : pieces.Perm sorted)
    (hchain : Chain 0 (sorted.map Prod.fst) stop) (hfits : ∀ p ∈ pieces, p.2.length ≤ p.1.2) :
    (∀ i < landedTotal pieces, Covered pieces i) ↔ NoneBeyond pieces := by
  have hfits' : ∀ p ∈ sorted, p.2.length ≤ p.1.2 := fun p hp => hfits p (hperm.mem_iff.mpr hp)
  rw [noneBeyond_perm hperm]
  constructor
  · intro hall
    by_contra hsome
    obtain ⟨i, -, hlt, hgap⟩ := gap_of_not_noneBeyond hchain hfits' hsome
    refine hgap ((covered_perm hperm i).mp (hall i ?_))
    rw [landedTotal_perm hperm]
    omega
  · intro hnone i hi
    rw [landedTotal_perm hperm] at hi
    exact (covered_perm hperm i).mpr
      (covered_of_noneBeyond hchain hfits' hnone i (Nat.zero_le _) (by omega))

/-! ## The buffer -/

theorem length_filled (zero : α) {pieces : List (Landed α)} : ∀ {view : List α},
    (∀ p ∈ pieces, p.1.1 + p.2.length ≤ view.length) → (filled zero view pieces).length = view.length := by
  induction pieces with
  | nil => exact fun _ => rfl
  | cons p pieces ih =>
    intro view hfits
    have hlen : (writeAt zero view p.1.1 p.2).length = view.length := by
      have hp := hfits p (List.mem_cons_self ..)
      by_cases hnil : p.2 = []
      · rw [hnil, writeAt_nil]
      · rw [length_writeAt zero view p.1.1 hnil]
        omega
    rw [filled, List.foldl_cons]
    rw [← hlen]
    refine ih fun q hq => ?_
    rw [hlen]
    exact hfits q (List.mem_cons_of_mem _ hq)

/-- Each piece is what the source has where the piece belongs. -/
def Truthful (source : List α) (start : Nat) (pieces : List (Landed α)) : Prop :=
  ∀ p ∈ pieces, p.2 <+: slice source (start + p.1.1) p.1.2

instance [DecidableEq α] (source : List α) (start : Nat) (pieces : List (Landed α)) :
    Decidable (Truthful source start pieces) :=
  inferInstanceAs (Decidable (∀ p ∈ pieces, p.2 <+: slice source (start + p.1.1) p.1.2))

theorem Truthful.fits {source : List α} {start : Nat} {pieces : List (Landed α)}
    (h : Truthful source start pieces) {p : Landed α} (hp : p ∈ pieces) : p.2.length ≤ p.1.2 := by
  refine Nat.le_trans (h p hp).length_le ?_
  rw [length_slice]
  exact Nat.min_le_left _ _

/-- A piece has the source's element at each of its positions. -/
theorem Truthful.getElem? {source : List α} {start : Nat} {pieces : List (Landed α)}
    (h : Truthful source start pieces) {p : Landed α} (hp : p ∈ pieces) {i : Nat} (hle : p.1.1 ≤ i)
    (hlt : i < p.1.1 + p.2.length) : p.2[i - p.1.1]? = source[start + i]? := by
  obtain ⟨rest, hrest⟩ := h p hp
  have hin : i - p.1.1 < p.2.length := by omega
  have hfit := h.fits hp
  rw [← @List.getElem?_append_left _ _ rest _ hin, hrest, getElem?_slice source (by omega)]
  congr 1
  omega

/-- A buffer has the source where a piece covers it, and what it had elsewhere. -/
theorem getElem?_filled (zero : α) {source : List α} {start : Nat} {i : Nat} :
    ∀ {pieces : List (Landed α)} {view : List α}, Truthful source start pieces → i < view.length →
      (Covered pieces i → (filled zero view pieces)[i]? = source[start + i]?) ∧
        (¬ Covered pieces i → (filled zero view pieces)[i]? = view[i]?) := by
  intro pieces
  induction pieces with
  | nil => exact fun _ _ => ⟨(nomatch ·), fun _ => rfl⟩
  | cons p pieces ih =>
    intro view htrue hi
    have hrest : Truthful source start pieces := fun q hq => htrue q (List.mem_cons_of_mem _ hq)
    have hwritten : filled zero view (p :: pieces) =
        filled zero (writeAt zero view p.1.1 p.2) pieces := rfl
    have hi' : i < (writeAt zero view p.1.1 p.2).length := by
      by_cases hnil : p.2 = []
      · rwa [hnil, writeAt_nil]
      · rw [length_writeAt zero view p.1.1 hnil]
        omega
    obtain ⟨hin, hout⟩ := ih hrest hi'
    rw [hwritten]
    have hfirst : ¬ (p.1.1 ≤ i ∧ i < p.1.1 + p.2.length) →
        (writeAt zero view p.1.1 p.2)[i]? = view[i]? := by
      intro hno
      by_cases hnil : p.2 = []
      · rw [hnil, writeAt_nil]
      · exact getElem?_writeAt_outside zero view hnil (by omega)
    refine ⟨fun hcov => ?_, fun hno => ?_⟩
    · by_cases hlater : Covered pieces i
      · exact hin hlater
      · obtain ⟨hle, hlt⟩ := ((covered_cons p pieces i).mp hcov).resolve_right hlater
        have hne : p.2 ≠ [] := by
          intro hnil
          rw [hnil, List.length_nil] at hlt
          omega
        rw [hout hlater, getElem?_writeAt_inside zero view hne hle hlt]
        exact htrue.getElem? (List.mem_cons_self ..) hle hlt
    · rw [covered_cons, not_or] at hno
      rw [hout hno.2, hfirst hno.1]

/-- Whatever the buffer held, the front of it is the source's when all of the front is
covered, and only then. -/
theorem filled_take_iff [Nontrivial α] (zero : α) {source : List α} {start want : Nat}
    {pieces : List (Landed α)} (htrue : Truthful source start pieces)
    (hfits : ∀ p ∈ pieces, p.1.1 + p.1.2 ≤ want) (htotal : landedTotal pieces ≤ want) :
    (∀ view : List α, view.length = want →
        (filled zero view pieces).take (landedTotal pieces) =
          slice source start (landedTotal pieces)) ↔
      ∀ i < landedTotal pieces, Covered pieces i := by
  have hlength : ∀ view : List α, view.length = want → (filled zero view pieces).length = want := by
    intro view hview
    rw [length_filled zero, hview]
    intro p hp
    have h1 := hfits p hp
    have h2 := htrue.fits hp
    omega
  constructor
  · intro hall i hi
    by_contra hgap
    -- the buffer held something else in the gap
    have hlen := congrArg List.length (hall (List.replicate want zero) (by simp))
    rw [List.length_take, hlength _ (by simp), length_slice] at hlen
    have hin : start + i < source.length := by omega
    obtain ⟨other, hother⟩ := exists_ne source[start + i]
    have hsame := congrArg (·[i]?) (hall (List.replicate want other) (by simp))
    have hview : i < (List.replicate want other).length := by
      rw [List.length_replicate]
      omega
    rw [List.getElem?_take_of_lt hi, (getElem?_filled zero htrue hview).2 hgap, getElem?_slice source hi,
      List.getElem?_eq_getElem hin, List.getElem?_replicate] at hsame
    rw [if_pos (by omega), Option.some.injEq] at hsame
    exact hother hsame
  · intro hall view hview
    refine List.ext_getElem? fun i => ?_
    by_cases hi : i < landedTotal pieces
    · rw [List.getElem?_take_of_lt hi, (getElem?_filled zero htrue (by omega)).1 (hall i hi),
        getElem?_slice source hi]
    · rw [List.getElem?_eq_none (by rw [List.length_take]; omega),
        List.getElem?_eq_none (by rw [length_slice]; omega)]

/-! ## In the order of the ranges -/

/-- Each piece is all that the source has of its range. -/
def Exact (source : List α) (pieces : List (Landed α)) : Prop :=
  ∀ p ∈ pieces, p.2 = slice source p.1.1 p.1.2

instance [DecidableEq α] (source : List α) (pieces : List (Landed α)) :
    Decidable (Exact source pieces) :=
  inferInstanceAs (Decidable (∀ p ∈ pieces, p.2 = slice source p.1.1 p.1.2))

/-- The pieces that have anything, with their offsets. -/
def nonEmpty (pieces : List (Landed α)) : List (Nat × List α) :=
  (pieces.filter fun p => !p.2.isEmpty).map fun p => (p.1.1, p.2)

theorem Chain.eq_nil {pos : Nat} {ranges : List (Nat × Nat)} (h : Chain pos ranges pos) :
    ranges = [] := by
  cases ranges with
  | nil => rfl
  | cons e rest =>
    obtain ⟨offset, length⟩ := e
    obtain ⟨rfl, hpos, hrest⟩ := h
    have := hrest.le.1
    omega

/-- Pieces of ranges that follow one another are the source's elements, in order, and those that
have anything follow one another too. -/
theorem Exact.in_order {source : List α} : ∀ {pieces : List (Landed α)} {pos stop : Nat},
    Chain pos (pieces.map Prod.fst) stop → Exact source pieces →
    Chain pos ((nonEmpty pieces).map fun p => (p.1, p.2.length))
        (pos + (slice source pos (stop - pos)).length) ∧
      (nonEmpty pieces).flatMap Prod.snd = slice source pos (stop - pos) := by
  intro pieces
  induction pieces with
  | nil =>
    rintro pos stop rfl -
    simp [nonEmpty, slice, Chain]
  | cons p pieces ih =>
    intro pos stop hchain hexact
    obtain ⟨⟨offset, length⟩, data⟩ := p
    obtain ⟨rfl, hpos, hrest⟩ := hchain
    obtain ⟨hfollow, hflat⟩ := ih hrest fun q hq => hexact q (List.mem_cons_of_mem _ hq)
    have hdata : data = slice source offset length := hexact _ (List.mem_cons_self ..)
    have hle := hrest.le.1
    have hsplit : slice source offset (stop - offset) =
        data ++ slice source (offset + length) (stop - (offset + length)) := by
      rw [hdata, show stop - offset = length + (stop - (offset + length)) by omega, slice,
        List.take_add, List.drop_drop]
      rfl
    have hlen := congrArg List.length hdata
    rw [length_slice] at hlen
    have hcons : nonEmpty (((offset, length), data) :: pieces) =
        (if data = [] then [] else [(offset, data)]) ++ nonEmpty pieces := by
      cases data <;> simp [nonEmpty]
    rw [hsplit, List.length_append, hcons, List.map_append, List.flatMap_append, hflat]
    refine ⟨?_, by cases data <;> simp⟩
    by_cases hfull : data.length = length
    · have hne : data ≠ [] := by
        rintro rfl
        rw [List.length_nil] at hfull
        omega
      rw [if_neg hne, hfull, ← Nat.add_assoc]
      exact ⟨rfl, by dsimp only; omega, by dsimp only; rw [hfull]; exact hfollow⟩
    · -- behind a short piece there is nothing
      have hend : slice source (offset + length) (stop - (offset + length)) = [] := by
        refine List.eq_nil_of_length_eq_zero ?_
        rw [length_slice]
        omega
      rw [hend, List.length_nil, Nat.add_zero] at hfollow
      have hnone := hfollow.eq_nil
      rw [hnone, hend, List.append_nil, List.length_nil, Nat.add_zero]
      by_cases hnil : data = []
      · rw [if_pos hnil, hnil]
        rfl
      · rw [if_neg hnil]
        exact ⟨rfl, List.length_pos_iff.mpr hnil, rfl⟩

/-- What landed of ranges that follow one another is what the source has between their ends. -/
theorem Exact.total {source : List α} : ∀ {pieces : List (Landed α)} {pos stop : Nat},
    Chain pos (pieces.map Prod.fst) stop → Exact source pieces →
    landedTotal pieces = min stop source.length - pos := by
  intro pieces
  induction pieces with
  | nil =>
    rintro pos stop rfl -
    rw [landedTotal_nil]
    omega
  | cons p pieces ih =>
    intro pos stop hchain hexact
    obtain ⟨⟨offset, length⟩, data⟩ := p
    obtain ⟨rfl, -, hrest⟩ := hchain
    have hlen := congrArg List.length (hexact _ (List.mem_cons_self ..))
    rw [length_slice] at hlen
    have hle := hrest.le.1
    rw [landedTotal_cons, ih hrest fun q hq => hexact q (List.mem_cons_of_mem _ hq)]
    dsimp only at hlen ⊢
    omega

/-- When a source answers all of what was wanted, or comes to its end, the front of the
buffer is what it has. -/
theorem Exact.filled (zero : α) {source view : List α} {pieces sorted : List (Landed α)}
    {stop : Nat} (hexact : Exact source pieces) (hperm : pieces.Perm sorted)
    (hchain : Chain 0 (sorted.map Prod.fst) stop) (hstop : stop ≤ view.length)
    (hend : stop = view.length ∨ ∃ p ∈ pieces, p.2.length < p.1.2) :
    landedTotal pieces = min view.length source.length ∧
      (filled zero view pieces).take (landedTotal pieces) = source.take view.length := by
  have hsorted : Exact source sorted := fun p hp => hexact p (hperm.mem_iff.mpr hp)
  have hlength : ∀ p ∈ pieces, p.2.length = min p.1.2 (source.length - p.1.1) := fun p hp => by
    rw [hexact p hp, length_slice]
  have hends : ∀ p ∈ pieces, p.1.1 + p.1.2 ≤ stop := fun p hp =>
    hchain.ends _ (List.mem_map_of_mem (hperm.mem_iff.mp hp))
  have htotal : landedTotal pieces = min view.length source.length := by
    rw [landedTotal_perm hperm, hsorted.total hchain]
    obtain hall | ⟨p, hp, hshort⟩ := hend
    · omega
    · -- a short piece is at the end of the source
      have := hlength p hp
      have := hends p hp
      omega
  have htrue : Truthful source 0 pieces := fun p hp => by
    rw [Nat.zero_add]
    exact ⟨[], by rw [List.append_nil, ← hexact p hp]⟩
  have hcovered : ∀ i < landedTotal pieces, Covered pieces i := fun i hi => by
    rw [landedTotal_perm hperm, hsorted.total hchain] at hi
    obtain ⟨_, hrange, hle, hlt⟩ := hchain.covers (Nat.zero_le i) (by omega)
    obtain ⟨p, hp, rfl⟩ := List.mem_map.mp hrange
    have hin := hperm.mem_iff.mpr hp
    have := hlength p hin
    exact ⟨p, hin, hle, by omega⟩
  refine ⟨htotal, List.ext_getElem? fun i => ?_⟩
  by_cases hi : i < landedTotal pieces
  · rw [List.getElem?_take_of_lt hi,
      (getElem?_filled zero htrue (by omega)).1 (hcovered i hi), Nat.zero_add,
      List.getElem?_take_of_lt (by omega)]
  · rw [List.getElem?_eq_none (by rw [List.length_take]; omega),
      List.getElem?_eq_none (by rw [List.length_take]; omega)]

/-- Answers in any order can be put in the order of what they answer. -/
theorem exists_perm_map {β γ : Type} (f : β → γ) {l : List β} {m : List γ} (h : (l.map f).Perm m) :
    ∃ l', l.Perm l' ∧ l'.map f = m := by
  generalize hm : l.map f = first at h
  induction h generalizing l with
  | nil => exact ⟨[], by simpa using hm, rfl⟩
  | cons x _ ih =>
    obtain ⟨a, l, rfl, rfl, hl⟩ := List.map_eq_cons_iff.mp hm
    obtain ⟨l', hperm, hmap⟩ := ih hl
    exact ⟨a :: l', hperm.cons a, by simp [hmap]⟩
  | swap x y rest =>
    obtain ⟨a, l, rfl, rfl, hl⟩ := List.map_eq_cons_iff.mp hm
    obtain ⟨b, l, rfl, rfl, rfl⟩ := List.map_eq_cons_iff.mp hl
    exact ⟨b :: a :: l, List.Perm.swap b a l, rfl⟩
  | trans _ _ ih₁ ih₂ =>
    obtain ⟨l', hperm, hmap⟩ := ih₁ hm
    obtain ⟨l'', hperm', hmap'⟩ := ih₂ hmap
    exact ⟨l'', hperm.trans hperm', hmap'⟩

end XrdClient.Lib
