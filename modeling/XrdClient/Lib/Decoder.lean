/-
  Lib/Decoder.lean --- a streaming decoder with bounded output.

  A `Decoder` gives its next symbol of output, asks for the next symbol of input,
  passes a symbol of input on as output, has come to the end of its stream, or has
  found it broken.  `drive` runs one on a piece of input until it has no room left,
  no input left, or nothing more to do; it goes on taking input until it needs
  room, so it may hold output that it has not given.

  How a stream is cut up, on either side, does not change what is decoded:
  `drive_add` splits a run where its output ends, `drive_append` where a piece of
  its input does.
-/
import Mathlib

set_option autoImplicit false

namespace XrdClient.Lib

/-- What a decoder does next. -/
inductive Move (ζ α β : Type) where
  | emit (b : β) (z : ζ)
  | take (f : α → ζ)
  | copy (f : α → β × ζ)
  | done
  | bad

/-- A decoder of `α`s to `β`s with states `ζ`. -/
structure Decoder (ζ α β : Type) where
  start : ζ
  next : ζ → Move ζ α β

namespace Decoder

variable {ζ α β : Type} (D : Decoder ζ α β)

/-- Input taken for as long as the decoder asks for it. -/
def feed : List α → ζ → List α × ζ
  | [], z => ([], z)
  | a :: input, z =>
    match D.next z with
    | .take f => feed input (f a)
    | _ => (a :: input, z)

/-- The next symbol of output, if there is one to be had. -/
def give : List α → ζ → Option (β × List α × ζ)
  | input, z =>
    match D.next z, input with
    | .emit b z', input => some (b, input, z')
    | .copy f, a :: input => some ((f a).1, input, (f a).2)
    | _, _ => none

/-- Run on `input` with room for `limit` symbols: the output, the input that was
not taken, and the state. -/
def drive : Nat → List α → ζ → List β × List α × ζ
  | 0, input, z => ([], D.feed input z)
  | limit + 1, input, z =>
    match D.give (D.feed input z).1 (D.feed input z).2 with
    | some (b, input, z) =>
      let (output, rest, last) := drive limit input z
      (b :: output, rest, last)
    | none => ([], D.feed input z)

/-- The decoder has come to the end of its stream. -/
def ended (z : ζ) : Bool :=
  match D.next z with
  | .done => true
  | _ => false

/-- The decoder has found its stream broken. -/
def broken (z : ζ) : Bool :=
  match D.next z with
  | .bad => true
  | _ => false

/-- `stream` is one whole stream, and `output` is what it holds. -/
def Decodes (stream : List α) (output : List β) : Prop :=
  ∃ z, D.drive output.length stream D.start = (output, [], z) ∧ D.ended z = true

/-! ## Taking input -/

variable {c d rest : List α} {z z' : ζ} {b : β} {n : Nat}

theorem feed_take {f : α → ζ} (h : D.next z = .take f) (a : α) (c : List α) :
    D.feed (a :: c) z = D.feed c (f a) := by
  change (match D.next z with
    | .take f => D.feed c (f a)
    | _ => (a :: c, z)) = _
  rw [h]

/-- A decoder that does not ask for input takes none. -/
theorem feed_of_not_take (h : ∀ f, D.next z ≠ .take f) (c : List α) : D.feed c z = (c, z) := by
  cases c with
  | nil => rfl
  | cons a c =>
    change (match D.next z with
      | .take f => D.feed c (f a)
      | _ => (a :: c, z)) = _
    cases hz : D.next z with
    | take f => exact absurd hz (h f)
    | emit _ _ | copy _ | done | bad => rfl

theorem feed_append (c d : List α) (z : ζ) :
    D.feed (c ++ d) z = D.feed ((D.feed c z).1 ++ d) (D.feed c z).2 := by
  induction c generalizing z with
  | nil => rfl
  | cons a c ih =>
    by_cases h : ∃ f, D.next z = .take f
    · obtain ⟨f, h⟩ := h
      rw [List.cons_append, D.feed_take h, D.feed_take h]
      exact ih (f a)
    · rw [D.feed_of_not_take (fun f hf => h ⟨f, hf⟩) (a :: c)]

/-- What has been taken once is not taken again. -/
theorem feed_feed (c : List α) (z : ζ) : D.feed (D.feed c z).1 (D.feed c z).2 = D.feed c z := by
  have := D.feed_append c [] z
  simpa using this.symm

theorem feed_suffix (c : List α) (z : ζ) : (D.feed c z).1 <:+ c := by
  induction c generalizing z with
  | nil => exact List.suffix_refl _
  | cons a c ih =>
    by_cases h : ∃ f, D.next z = .take f
    · obtain ⟨f, h⟩ := h
      rw [D.feed_take h]
      exact (ih (f a)).trans (List.suffix_cons a c)
    · have hnone := D.feed_of_not_take (fun f hf => h ⟨f, hf⟩) (a :: c)
      exact hnone ▸ List.suffix_refl _

/-! ## Giving output -/

theorem give_eq (c : List α) (z : ζ) :
    D.give c z =
      match D.next z, c with
      | .emit b z', input => some (b, input, z')
      | .copy f, a :: input => some ((f a).1, input, (f a).2)
      | _, _ => none := rfl

theorem give_emit {w : ζ} (h : D.next z = .emit b w) (c : List α) :
    D.give c z = some (b, c, w) := by
  rw [give_eq, h]

theorem give_copy {f : α → β × ζ} (h : D.next z = .copy f) (a : α) (c : List α) :
    D.give (a :: c) z = some ((f a).1, c, (f a).2) := by
  rw [give_eq, h]

/-- What a decoder that gives is about to do. -/
theorem give_cases (h : D.give c z = some (b, rest, z')) :
    (D.next z = .emit b z' ∧ rest = c) ∨
      ∃ f a, D.next z = .copy f ∧ c = a :: rest ∧ f a = (b, z') := by
  cases hz : D.next z with
  | emit b' w =>
    rw [D.give_emit hz, Option.some.injEq, Prod.mk.injEq, Prod.mk.injEq] at h
    obtain ⟨rfl, rfl, rfl⟩ := h
    exact .inl ⟨rfl, rfl⟩
  | copy f =>
    cases c with
    | nil =>
      rw [give_eq, hz] at h
      cases h
    | cons a c =>
      rw [D.give_copy hz, Option.some.injEq, Prod.mk.injEq, Prod.mk.injEq] at h
      obtain ⟨rfl, rfl, rfl⟩ := h
      exact .inr ⟨f, a, rfl, rfl, rfl⟩
  | take _ | done | bad =>
    rw [give_eq, hz] at h
    cases h

/-- A decoder that has output to give asks for no input first. -/
theorem next_ne_take (h : D.give c z = some (b, rest, z')) (f : α → ζ) : D.next z ≠ .take f := by
  intro hf
  rcases D.give_cases h with ⟨hz, -⟩ | ⟨g, a, hz, -⟩ <;> cases hz.symm.trans hf

theorem give_append (h : D.give c z = some (b, rest, z')) (d : List α) :
    D.give (c ++ d) z = some (b, rest ++ d, z') := by
  rcases D.give_cases h with ⟨hz, rfl⟩ | ⟨f, a, hz, rfl, hf⟩
  · exact D.give_emit hz _
  · rw [List.cons_append, D.give_copy hz, hf]

theorem give_suffix (h : D.give c z = some (b, rest, z')) : rest <:+ c := by
  rcases D.give_cases h with ⟨-, rfl⟩ | ⟨f, a, -, rfl, -⟩
  · exact List.suffix_refl _
  · exact List.suffix_cons a rest

/-! ## Runs -/

theorem drive_zero (c : List α) (z : ζ) : D.drive 0 c z = ([], D.feed c z) := rfl

theorem drive_succ (n : Nat) (c : List α) (z : ζ) :
    D.drive (n + 1) c z =
      match D.give (D.feed c z).1 (D.feed c z).2 with
      | some (b, input, z) => (b :: (D.drive n input z).1, (D.drive n input z).2)
      | none => ([], D.feed c z) := rfl

theorem drive_give (h : D.give (D.feed c z).1 (D.feed c z).2 = some (b, rest, z')) (n : Nat) :
    D.drive (n + 1) c z = (b :: (D.drive n rest z').1, (D.drive n rest z').2) := by
  rw [drive_succ, h]

theorem drive_stop (h : D.give (D.feed c z).1 (D.feed c z).2 = none) (n : Nat) :
    D.drive n c z = ([], D.feed c z) := by
  cases n with
  | zero => rfl
  | succ n => rw [drive_succ, h]

/-- Input that is taken first changes nothing. -/
theorem drive_feed (n : Nat) (c : List α) (z : ζ) :
    D.drive n (D.feed c z).1 (D.feed c z).2 = D.drive n c z := by
  cases n with
  | zero => rw [drive_zero, drive_zero, feed_feed]
  | succ n => rw [drive_succ, drive_succ, feed_feed]

theorem drive_length_le (n : Nat) (c : List α) (z : ζ) : (D.drive n c z).1.length ≤ n := by
  induction n generalizing c z with
  | zero => exact Nat.le_refl _
  | succ n ih =>
    cases h : D.give (D.feed c z).1 (D.feed c z).2 with
    | some r =>
      rw [D.drive_give h]
      exact Nat.succ_le_succ (ih _ _)
    | none =>
      rw [D.drive_stop h]
      exact Nat.zero_le _

theorem drive_suffix (n : Nat) (c : List α) (z : ζ) : (D.drive n c z).2.1 <:+ c := by
  induction n generalizing c z with
  | zero => exact D.feed_suffix c z
  | succ n ih =>
    cases h : D.give (D.feed c z).1 (D.feed c z).2 with
    | some r =>
      rw [D.drive_give h]
      exact (ih _ _).trans ((D.give_suffix h).trans (D.feed_suffix c z))
    | none =>
      rw [D.drive_stop h]
      exact D.feed_suffix c z

/-- A run that did not use its room is not changed by more of it. -/
theorem drive_short (h : (D.drive n c z).1.length < n) {m : Nat} (hm : n ≤ m) :
    D.drive m c z = D.drive n c z := by
  induction n generalizing c z m with
  | zero => exact absurd h (Nat.not_lt_zero _)
  | succ n ih =>
    obtain ⟨m, rfl⟩ := Nat.exists_eq_add_of_le' hm
    cases hgive : D.give (D.feed c z).1 (D.feed c z).2 with
    | some r =>
      rw [← Nat.add_assoc, D.drive_give hgive, D.drive_give hgive]
      rw [D.drive_give hgive] at h
      rw [ih (Nat.lt_of_succ_lt_succ h) (Nat.le_add_left n m)]
    | none => rw [D.drive_stop hgive, D.drive_stop hgive]

/-- More room is a second run from where the first one ended. -/
theorem drive_add (m n : Nat) (c : List α) (z : ζ) :
    D.drive (m + n) c z =
      ((D.drive m c z).1 ++ (D.drive n (D.drive m c z).2.1 (D.drive m c z).2.2).1,
        (D.drive n (D.drive m c z).2.1 (D.drive m c z).2.2).2) := by
  induction m generalizing c z with
  | zero =>
    rw [Nat.zero_add, drive_zero, List.nil_append]
    exact (D.drive_feed n c z).symm
  | succ m ih =>
    rw [Nat.add_right_comm]
    cases h : D.give (D.feed c z).1 (D.feed c z).2 with
    | some r =>
      rw [D.drive_give h, D.drive_give h, ih]
      rfl
    | none =>
      rw [D.drive_stop h, D.drive_stop h, List.nil_append]
      exact ((D.drive_feed n c z).trans (D.drive_stop h n)).symm

/-- Room that was not used may as well not have been there. -/
theorem drive_exact (n : Nat) (c : List α) (z : ζ) :
    D.drive (D.drive n c z).1.length c z = D.drive n c z := by
  induction n generalizing c z with
  | zero => rfl
  | succ n ih =>
    cases h : D.give (D.feed c z).1 (D.feed c z).2 with
    | some r => rw [D.drive_give h, List.length_cons, D.drive_give h, ih]
    | none => rw [D.drive_stop h (n + 1), D.drive_stop h]

/-- More input is a second run on what the first one left of its own. -/
theorem drive_append (n : Nat) (c d : List α) (z : ζ) :
    D.drive n (c ++ d) z =
      ((D.drive n c z).1 ++
          (D.drive (n - (D.drive n c z).1.length) ((D.drive n c z).2.1 ++ d)
            (D.drive n c z).2.2).1,
        (D.drive (n - (D.drive n c z).1.length) ((D.drive n c z).2.1 ++ d)
            (D.drive n c z).2.2).2) := by
  induction n generalizing c z with
  | zero =>
    rw [drive_zero, drive_zero, List.nil_append, Nat.zero_sub, drive_zero, D.feed_append]
  | succ n ih =>
    cases h : D.give (D.feed c z).1 (D.feed c z).2 with
    | some r =>
      -- What it can give now it gives first, whatever input comes after.
      have hfeed : D.feed (c ++ d) z = ((D.feed c z).1 ++ d, (D.feed c z).2) := by
        rw [D.feed_append]
        exact D.feed_of_not_take (D.next_ne_take h) _
      have hgive : D.give (D.feed (c ++ d) z).1 (D.feed (c ++ d) z).2
          = some (r.1, r.2.1 ++ d, r.2.2) := by
        rw [hfeed]
        exact D.give_append h d
      rw [D.drive_give hgive, D.drive_give h, ih, List.length_cons, Nat.add_sub_add_right]
      rfl
    | none =>
      rw [D.drive_stop h, List.nil_append, List.length_nil, Nat.sub_zero,
        ← D.drive_feed (n + 1) (c ++ d), D.feed_append, D.drive_feed]

/-- A run on some input with room goes on unless the stream is over. -/
theorem drive_progress (hn : 0 < n) (hc : c ≠ []) (hended : D.ended z = false)
    (hbroken : D.broken z = false) :
    (D.drive n c z).1 ≠ [] ∨ (D.drive n c z).2.1.length < c.length := by
  obtain ⟨a, c, rfl⟩ := List.exists_cons_of_ne_nil hc
  obtain ⟨n, rfl⟩ := Nat.exists_eq_succ_of_ne_zero (Nat.pos_iff_ne_zero.mp hn)
  cases hz : D.next z with
  | emit b z' =>
    left
    have hfeed := D.feed_of_not_take (z := z) (by simp [hz]) (a :: c)
    have hgive : D.give (D.feed (a :: c) z).1 (D.feed (a :: c) z).2 = some (b, a :: c, z') := by
      rw [hfeed]
      exact D.give_emit hz _
    rw [D.drive_give hgive]
    exact List.cons_ne_nil _ _
  | copy f =>
    left
    have hfeed := D.feed_of_not_take (z := z) (by simp [hz]) (a :: c)
    have hgive : D.give (D.feed (a :: c) z).1 (D.feed (a :: c) z).2 =
        some ((f a).1, c, (f a).2) := by
      rw [hfeed]
      exact D.give_copy hz _ _
    rw [D.drive_give hgive]
    exact List.cons_ne_nil _ _
  | take f =>
    right
    have hfeed : D.feed (a :: c) z = D.feed c (f a) := D.feed_take hz a c
    have hdrive : D.drive (n + 1) (a :: c) z = D.drive (n + 1) c (f a) := by
      rw [← D.drive_feed (n + 1) (a :: c), hfeed, D.drive_feed]
    rw [hdrive]
    exact Nat.lt_succ_of_le (D.drive_suffix _ _ _).length_le
  | done => simp [ended, hz] at hended
  | bad => simp [broken, hz] at hbroken

/-- A stream that is over, or broken, stays as it is. -/
theorem drive_over (h : D.ended z = true ∨ D.broken z = true) (n : Nat) (c : List α) :
    D.drive n c z = ([], c, z) := by
  have hnext : D.next z = .done ∨ D.next z = .bad := by
    cases hz : D.next z <;> simp_all [ended, broken]
  have hfeed : D.feed c z = (c, z) :=
    D.feed_of_not_take (fun f hf => by rcases hnext with h | h <;> simp [h] at hf) c
  have hgive : D.give (D.feed c z).1 (D.feed c z).2 = none := by
    rcases hnext with h | h <;> simp only [hfeed, give, h]
  rw [D.drive_stop hgive, hfeed]

/-! ## Whole streams -/

variable {D} {stream : List α} {p q : List β}

/-- Room past the end of a stream is not used. -/
theorem Decodes.drive_ge (h : D.Decodes stream p) :
    ∃ z, D.ended z = true ∧ ∀ m, p.length ≤ m → D.drive m stream D.start = (p, [], z) := by
  obtain ⟨z, hz, hend⟩ := h
  refine ⟨z, hend, fun m hm => ?_⟩
  obtain ⟨n, rfl⟩ := Nat.exists_eq_add_of_le hm
  rw [D.drive_add, hz]
  simp only [D.drive_over (Or.inl hend), List.append_nil]

/-- A stream holds one output only. -/
theorem Decodes.unique (hp : D.Decodes stream p) (hq : D.Decodes stream q) : p = q := by
  obtain ⟨z, -, hz⟩ := hp.drive_ge
  obtain ⟨w, -, hw⟩ := hq.drive_ge
  have := (hz _ (Nat.le_max_left p.length q.length)).symm.trans (hw _ (Nat.le_max_right _ _))
  exact congrArg Prod.fst this

/-- What a run on the first part of a stream gives is the first part of what the
stream holds; it ends only with the stream. -/
theorem Decodes.drive_left (h : D.Decodes (c ++ d) p) (n : Nat) :
    (D.drive n c D.start).1 <+: p ∧ D.broken (D.drive n c D.start).2.2 = false ∧
      (D.ended (D.drive n c D.start).2.2 = true →
        (D.drive n c D.start).1 = p ∧ (D.drive n c D.start).2.1 ++ d = []) := by
  obtain ⟨z, hend, hz⟩ := h.drive_ge
  have hall := hz (n + p.length) (Nat.le_add_left _ _)
  rw [D.drive_add, D.drive_append] at hall
  refine ⟨?_, ?_, fun hover => ?_⟩
  · have hout := congrArg Prod.fst hall
    rw [List.append_assoc] at hout
    exact ⟨_, hout⟩
  · by_contra hbroken
    have hbroken := Bool.not_eq_false _ ▸ hbroken
    simp only [D.drive_over (Or.inr hbroken), Prod.mk.injEq] at hall
    rw [hall.2.2] at hbroken
    unfold ended at hend
    unfold broken at hbroken
    split at hend <;> simp_all
  · simp only [D.drive_over (Or.inl hover), List.append_nil, Prod.mk.injEq] at hall
    exact ⟨hall.1, hall.2.1⟩

end Decoder

end XrdClient.Lib
