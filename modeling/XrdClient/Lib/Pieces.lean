/-
  Lib/Pieces.lean --- what is cut out of a sequence is a piece of it.

  `xs <:+: ys`: `xs` stands in `ys` as it is.  Splitting, trimming and partitioning only ever
  give such pieces, so what a parser makes of a text with them is in the text.
-/
import XrdClient.Lib.Posix

set_option autoImplicit false

namespace XrdClient.Lib

section

variable {α β : Type}

theorem isInfix_takeWhile (p : α → Bool) (xs : List α) : xs.takeWhile p <:+: xs :=
  (List.takeWhile_prefix p).isInfix

theorem isInfix_dropWhile (p : α → Bool) (xs : List α) : xs.dropWhile p <:+: xs :=
  (List.dropWhile_suffix p).isInfix

theorem isInfix_take (n : Nat) (xs : List α) : xs.take n <:+: xs := (List.take_prefix n xs).isInfix

theorem isInfix_drop (n : Nat) (xs : List α) : xs.drop n <:+: xs := (List.drop_suffix n xs).isInfix

/-- What is cut off the far end. -/
theorem isInfix_reverse_of {xs ys : List α} (h : xs <:+: ys.reverse) : xs.reverse <:+: ys := by
  rwa [← List.reverse_infix, List.reverse_reverse]

/-- The first of the parts begins the sequence, and all of them stand in it. -/
theorem splitOnP_pieces (p : α → Bool) (xs : List α) :
    (∀ part ∈ (xs.splitOnP p).head?, part <+: xs) ∧ ∀ part ∈ xs.splitOnP p, part <:+: xs := by
  induction xs with
  | nil => simp
  | cons x xs ih =>
    obtain ⟨first, rest, hsplit⟩ := List.exists_cons_of_ne_nil (List.splitOnP_ne_nil p xs)
    rw [hsplit] at ih
    rw [List.splitOnP_cons_eq_if_modifyHead, hsplit]
    have hall : ∀ part ∈ first :: rest, part <:+: x :: xs := fun part hpart =>
      (ih.2 part hpart).trans (List.suffix_cons x xs).isInfix
    split
    · refine ⟨fun part hpart => ?_, fun part hpart => ?_⟩
      · rw [← Option.some.inj hpart]
        exact List.nil_prefix
      · rcases List.mem_cons.mp hpart with rfl | hpart
        · exact List.nil_infix
        · exact hall part hpart
    · have hfirst : x :: first <+: x :: xs :=
        (List.prefix_cons_inj x).mpr (ih.1 first rfl)
      rw [List.modifyHead_cons]
      refine ⟨fun part hpart => ?_, fun part hpart => ?_⟩
      · rwa [← Option.some.inj hpart]
      · rcases List.mem_cons.mp hpart with rfl | hpart
        · exact hfirst.isInfix
        · exact hall part (List.mem_cons_of_mem first hpart)

theorem isInfix_of_mem_splitOnP {p : α → Bool} {part xs : List α} (h : part ∈ xs.splitOnP p) :
    part <:+: xs := (splitOnP_pieces p xs).2 part h

theorem isInfix_of_mem_splitOn [BEq α] {sep : α} {part xs : List α} (h : part ∈ xs.splitOn sep) :
    part <:+: xs := by
  rw [List.splitOn_eq_splitOnP] at h
  exact isInfix_of_mem_splitOnP h

/-- What neither the pieces have nor what is put between them, the whole has not. -/
theorem not_mem_intercalate {c : α} {sep : List α} (hsep : c ∉ sep) {parts : List (List α)}
    (h : ∀ part ∈ parts, c ∉ part) : c ∉ sep.intercalate parts := by
  induction parts with
  | nil => exact List.not_mem_nil
  | cons part parts ih =>
    obtain ⟨hpart, hparts⟩ := List.forall_mem_cons.mp h
    cases parts with
    | nil => rwa [List.intercalate_singleton]
    | cons next rest =>
      rw [List.intercalate_cons_cons, List.mem_append, List.mem_append]
      rintro ((hin | hin) | hin)
      · exact hpart hin
      · exact hsep hin
      · exact ih hparts hin

/-- A piece that a substitution leaves alone is one of the sequence it was made in. -/
theorem isInfix_of_map {f : α → α} {sep : α} {part xs : List α} (h : part <:+: xs.map f)
    (hpart : sep ∉ part) (hf : ∀ x, f x = sep ∨ f x = x) : part <:+: xs := by
  obtain ⟨before, after, heq⟩ := h
  obtain ⟨front, last, rfl, hfront, -⟩ := List.map_eq_append_iff.mp heq.symm
  obtain ⟨first, own, rfl, -, rfl⟩ := List.map_eq_append_iff.mp hfront
  have hsame : own.map f = own := by
    refine (List.map_congr_left fun x hx => ?_).trans (List.map_id own)
    refine (hf x).resolve_left fun hx' => hpart ?_
    rw [← hx']
    exact List.mem_map_of_mem hx
  rw [hsame]
  exact ⟨first, last, rfl⟩

end

/-- Parts that are written next to one another are read as they were. -/
theorem splitOn_parts {sep : Char} {parts : List Text} (h : ∀ part ∈ parts, sep ∉ part ∧ part ≠ []) :
    (([sep].intercalate parts).splitOn sep).filter (· ≠ []) = parts := by
  rcases eq_or_ne parts [] with rfl | hparts
  · rfl
  rw [List.splitOn_intercalate _ (fun part hpart => (h part hpart).1) hparts]
  exact List.filter_eq_self.mpr fun part hpart => decide_eq_true (h part hpart).2

theorem isInfix_strip (s : Text) : strip s <:+: s :=
  (isInfix_reverse_of (isInfix_dropWhile _ _)).trans (isInfix_dropWhile _ _)

theorem isInfix_partitionAt (sep : Char) (s : Text) :
    (partitionAt sep s).1 <:+: s ∧ (partitionAt sep s).2.2 <:+: s := by
  obtain ⟨-, heq⟩ | ⟨head, tail, -, rfl, heq⟩ := partitionAt_cases sep s <;> rw [heq]
  · exact ⟨List.infix_refl s, List.nil_infix⟩
  · refine ⟨(List.prefix_append _ _).isInfix, ?_⟩
    exact ((List.suffix_cons sep tail).trans (List.suffix_append head _)).isInfix

end XrdClient.Lib
