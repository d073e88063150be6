/-
  Lib/Alternate.lean --- two lists taken in turns, and the first of each key.

  `alternate xs ys` takes from both in turns, and goes on with what is left of the longer
  one: nothing is lost, each list keeps its order (`filter_alternate`), and as long as both
  last every second element is the other list's (`getElem?_alternate`).

  `firsts key xs` keeps the first element of each key, in order.  What is joined with a
  separator between is a part of the whole (`infix_intercalate`).
-/
import Mathlib

set_option autoImplicit false

namespace XrdClient.Lib

variable {α β κ : Type}

/-! ## In turns -/

/-- Pairs of two lists, with gaps where the shorter one is over. -/
def zipLongest : List α → List β → List (Option α × Option β)
  | [], ys => ys.map fun y => (none, some y)
  | x :: xs, [] => (some x, none) :: zipLongest xs []
  | x :: xs, y :: ys => (some x, some y) :: zipLongest xs ys

/-- The pairs of two lists, without the gaps. -/
def alternate (xs ys : List α) : List α :=
  (zipLongest xs ys).flatMap fun pair => pair.1.toList ++ pair.2.toList

@[simp] theorem alternate_nil_left (ys : List α) : alternate [] ys = ys := by
  change (ys.map fun y => (none, some y)).flatMap _ = ys
  simp [List.flatMap_map]

@[simp] theorem alternate_nil_right (xs : List α) : alternate xs [] = xs := by
  induction xs with
  | nil => rfl
  | cons x xs ih => exact congrArg (List.cons x) ih

@[simp] theorem alternate_cons_cons (x y : α) (xs ys : List α) :
    alternate (x :: xs) (y :: ys) = x :: y :: alternate xs ys := rfl

theorem head?_alternate_cons (x : α) (xs ys : List α) : (alternate (x :: xs) ys).head? = some x := by
  cases ys <;> simp

/-- Nothing is lost, and nothing is there twice. -/
theorem alternate_perm (xs ys : List α) : (alternate xs ys).Perm (xs ++ ys) := by
  induction xs generalizing ys with
  | nil => simp
  | cons x xs ih =>
    cases ys with
    | nil => simp
    | cons y ys =>
      rw [alternate_cons_cons, List.cons_append]
      refine List.Perm.cons x ((List.Perm.cons y (ih ys)).trans ?_)
      exact List.perm_middle.symm

/-- The first list keeps its order. -/
theorem filter_alternate {p : α → Bool} {xs ys : List α} (hxs : ∀ x ∈ xs, p x = true)
    (hys : ∀ y ∈ ys, p y = false) : (alternate xs ys).filter p = xs := by
  induction xs generalizing ys with
  | nil => simpa using hys
  | cons x xs ih =>
    obtain ⟨hx, hxs⟩ := List.forall_mem_cons.mp hxs
    cases ys with
    | nil => simpa [hx] using hxs
    | cons y ys =>
      obtain ⟨hy, hys⟩ := List.forall_mem_cons.mp hys
      rw [alternate_cons_cons, List.filter_cons_of_pos hx, List.filter_cons_of_neg (by simp [hy]),
        ih hxs hys]

/-- So does the other one. -/
theorem filter_alternate_right {p : α → Bool} {xs ys : List α} (hxs : ∀ x ∈ xs, p x = false)
    (hys : ∀ y ∈ ys, p y = true) : (alternate xs ys).filter p = ys := by
  induction xs generalizing ys with
  | nil => simpa using hys
  | cons x xs ih =>
    obtain ⟨hx, hxs⟩ := List.forall_mem_cons.mp hxs
    cases ys with
    | nil => simpa [hx] using hxs
    | cons y ys =>
      obtain ⟨hy, hys⟩ := List.forall_mem_cons.mp hys
      rw [alternate_cons_cons, List.filter_cons_of_neg (by simp [hx]), List.filter_cons_of_pos hy,
        ih hxs hys]

/-- As long as both last, they take turns. -/
theorem getElem?_alternate {xs ys : List α} {i : Nat} (hxs : i < xs.length) (hys : i < ys.length) :
    (alternate xs ys)[2 * i]? = xs[i]? ∧ (alternate xs ys)[2 * i + 1]? = ys[i]? := by
  induction i generalizing xs ys with
  | zero =>
    obtain ⟨x, xs, rfl⟩ := List.exists_cons_of_length_pos hxs
    obtain ⟨y, ys, rfl⟩ := List.exists_cons_of_length_pos hys
    simp
  | succ i ih =>
    obtain ⟨x, xs, rfl⟩ := List.exists_cons_of_length_pos (Nat.lt_of_le_of_lt (Nat.zero_le _) hxs)
    obtain ⟨y, ys, rfl⟩ := List.exists_cons_of_length_pos (Nat.lt_of_le_of_lt (Nat.zero_le _) hys)
    obtain ⟨heven, hodd⟩ := ih (Nat.lt_of_succ_lt_succ hxs) (Nat.lt_of_succ_lt_succ hys)
    rw [alternate_cons_cons, Nat.mul_succ]
    exact ⟨by simpa using heven, by simpa using hodd⟩

/-! ## Joined with a separator -/

theorem mem_intersperse {x : α} {xs : List α} (h : x ∈ xs) (sep : α) : x ∈ xs.intersperse sep := by
  induction xs with
  | nil => cases h
  | cons y ys ih =>
    cases ys with
    | nil => exact h
    | cons z zs =>
      rw [List.intersperse_cons_cons]
      rcases List.mem_cons.mp h with rfl | h
      · exact List.mem_cons_self
      · exact List.mem_cons_of_mem _ (List.mem_cons_of_mem _ (ih h))

/-- What is joined is there. -/
theorem infix_intercalate {x : List α} {xs : List (List α)} (h : x ∈ xs) (sep : List α) :
    x <:+: sep.intercalate xs :=
  List.infix_of_mem_flatten (mem_intersperse h sep)

/-! ## The first of each key -/

section

variable [DecidableEq κ] (key : α → κ)

/-- One more, if its key is new. -/
def keepFirst (kept : List α) (x : α) : List α :=
  if key x ∈ kept.map key then kept else kept ++ [x]

/-- The first element of each key. -/
def firsts (xs : List α) : List α := xs.foldl (keepFirst key) []

theorem firsts_snoc (xs : List α) (x : α) : firsts key (xs ++ [x]) = keepFirst key (firsts key xs) x := by
  simp [firsts]

theorem nodup_firsts (xs : List α) : ((firsts key xs).map key).Nodup := by
  induction xs using List.reverseRecOn with
  | nil => exact List.nodup_nil
  | append_singleton xs x ih =>
    rw [firsts_snoc, keepFirst]
    split
    · exact ih
    · next hnew =>
      rw [List.map_append, List.map_singleton]
      exact List.nodup_append.mpr ⟨ih, List.nodup_singleton _, fun k hk k' hk' => by
        rw [List.mem_singleton.mp hk']
        exact fun e => hnew (e ▸ hk)⟩

theorem firsts_sublist (xs : List α) : (firsts key xs).Sublist xs := by
  induction xs using List.reverseRecOn with
  | nil => exact List.Sublist.refl _
  | append_singleton xs x ih =>
    rw [firsts_snoc, keepFirst]
    split
    · exact ih.trans (List.sublist_append_left _ _)
    · exact ih.append (List.Sublist.refl _)

theorem head?_firsts (xs : List α) : (firsts key xs).head? = xs.head? := by
  induction xs using List.reverseRecOn with
  | nil => rfl
  | append_singleton xs x ih =>
    rw [firsts_snoc, keepFirst]
    cases xs with
    | nil => rfl
    | cons x' xs =>
      rw [List.head?_cons] at ih
      rw [List.cons_append, List.head?_cons]
      split
      · exact ih
      · rw [List.head?_append, ih, Option.some_or]

theorem mem_map_firsts (xs : List α) (k : κ) : k ∈ (firsts key xs).map key ↔ k ∈ xs.map key := by
  induction xs using List.reverseRecOn with
  | nil => rfl
  | append_singleton xs x ih =>
    rw [firsts_snoc, keepFirst, List.map_append, List.map_singleton, List.mem_append, ← ih,
      List.mem_singleton]
    split
    · next hold =>
      refine ⟨.inl, fun h => h.elim id fun hx => ?_⟩
      rw [hx]
      exact hold
    · rw [List.map_append, List.map_singleton, List.mem_append, List.mem_singleton]

end

end XrdClient.Lib
