/-
  Lib/Bytes.lean --- byte strings as the wire and the interpreter see them.

  Three things every binary protocol client leans on and that belong to none of
  them in particular: big-endian integers, two's-complement readings of them,
  and the slicing of a sequence by a signed index.  The last one follows the
  rule of the source language: a negative index counts from the end, so a
  length that was never meant to be negative still selects *something*.

  Text is a list of characters.  `decodeReplace` is UTF-8 decoding with the
  `replace` error handler: every maximal ill-formed subsequence becomes one
  U+FFFD, and a byte that breaks a sequence is read again as a first byte.
-/
import Mathlib

set_option autoImplicit false

namespace XrdClient.Lib

/-- A byte string. -/
abbrev Bytes : Type := List UInt8

/-- Decoded text. -/
abbrev Text : Type := List Char

instance : LawfulBEq Text := inferInstance

/-! ## Big-endian integers -/

/-- The value of a big-endian byte string. -/
def beNat (bs : Bytes) : Nat :=
  bs.foldl (fun acc b => acc * 256 + b.toNat) 0

/-- The low `width` bytes of `n`, most significant first. -/
def beBytes : Nat → Nat → Bytes
  | 0, _ => []
  | width + 1, n => beBytes width (n / 256) ++ [UInt8.ofNat (n % 256)]

@[simp] theorem length_beBytes (width n : Nat) : (beBytes width n).length = width := by
  induction width generalizing n with
  | zero => rfl
  | succ width ih => simp [beBytes, ih]

theorem beNat_append_singleton (bs : Bytes) (b : UInt8) :
    beNat (bs ++ [b]) = beNat bs * 256 + b.toNat := by
  simp [beNat, List.foldl_append]

/-- Reading back a number that fits its field. -/
theorem beNat_beBytes : ∀ (width n : Nat), n < 256 ^ width → beNat (beBytes width n) = n := by
  intro width
  induction width with
  | zero =>
    intro n h
    have hn : n = 0 := by simpa using h
    subst hn
    rfl
  | succ width ih =>
    intro n h
    have hdiv : n / 256 < 256 ^ width := by
      apply Nat.div_lt_of_lt_mul
      rw [Nat.mul_comm, ← Nat.pow_succ]
      exact h
    have hbyte : (UInt8.ofNat (n % 256)).toNat = n % 256 := by
      simp [UInt8.toNat_ofNat']
    rw [beBytes, beNat_append_singleton, ih _ hdiv, hbyte]
    omega

/-- Bytes are written back as they were read. -/
theorem beBytes_beNat (bs : Bytes) : beBytes bs.length (beNat bs) = bs := by
  induction bs using List.reverseRecOn with
  | nil => rfl
  | append_singleton bs b ih =>
    have hlt := b.toNat_lt
    have hdiv : (beNat bs * 256 + b.toNat) / 256 = beNat bs := by omega
    have hmod : (beNat bs * 256 + b.toNat) % 256 = b.toNat := by omega
    rw [List.length_append, List.length_singleton, beBytes, beNat_append_singleton, hdiv, hmod, ih,
      UInt8.ofNat_toNat]

/-- The signed reading of an unsigned `bits`-wide number. -/
def signed (bits : Nat) (n : Nat) : Int :=
  if n < 2 ^ (bits - 1) then (n : Int) else (n : Int) - (2 : Int) ^ bits

/-! ## Slices by a signed index -/

variable {α : Type}

/-- Where the signed index `n` falls in a sequence of `len` elements. -/
def sliceIndex (len : Nat) (n : Int) : Nat :=
  if 0 ≤ n then n.toNat else len - (-n).toNat

/-- `xs[:n]`. -/
def sliceTo (xs : List α) (n : Int) : List α := xs.take (sliceIndex xs.length n)

/-- What `del xs[:n]` leaves. -/
def sliceDel (xs : List α) (n : Int) : List α := xs.drop (sliceIndex xs.length n)

@[simp] theorem sliceIndex_natCast (len n : Nat) : sliceIndex len (n : Int) = n := by
  simp [sliceIndex]

@[simp] theorem sliceTo_natCast (xs : List α) (n : Nat) : sliceTo xs (n : Int) = xs.take n := by
  simp [sliceTo]

@[simp] theorem sliceDel_natCast (xs : List α) (n : Nat) : sliceDel xs (n : Int) = xs.drop n := by
  simp [sliceDel]

theorem length_sliceDel_le (xs : List α) (n : Int) : (sliceDel xs n).length ≤ xs.length := by
  simp [sliceDel]

/-- The beginning of a concatenation: whole pieces, and a beginning of the next. -/
theorem prefix_flatten {pieces : List (List α)} {xs : List α} (h : xs <+: pieces.flatten) :
    ∃ sent rest part, pieces = sent ++ rest ∧ xs = sent.flatten ++ part ∧
      part <+: rest.headD [] := by
  induction pieces generalizing xs with
  | nil => exact ⟨[], [], xs, rfl, rfl, h⟩
  | cons piece pieces ih =>
    obtain ⟨tail, htail⟩ := h
    rw [List.flatten_cons] at htail
    rcases List.append_eq_append_iff.mp htail with ⟨left, hpiece, -⟩ | ⟨ys, rfl, hys⟩
    · exact ⟨[], piece :: pieces, xs, rfl, rfl, left, hpiece.symm⟩
    · obtain ⟨sent, rest, part, rfl, rfl, hpart⟩ := ih ⟨tail, hys.symm⟩
      exact ⟨piece :: sent, rest, part, rfl, by simp, hpart⟩

/-- A buffer that holds all of the next piece of its stream holds it in front. -/
theorem split_of_append_eq {buffer rest : List α} (piece tail : List α)
    (h : buffer ++ rest = piece ++ tail) (hlen : piece.length ≤ buffer.length) :
    buffer.take piece.length = piece ∧ buffer.drop piece.length ++ rest = tail := by
  constructor
  · have htake : (buffer ++ rest).take piece.length = buffer.take piece.length :=
      List.take_append_of_le_length hlen
    rw [← htake, h]
    simp
  · rw [← List.drop_append_of_le_length hlen, h]
    simp

/-! ## Text -/

/-- The replacement character U+FFFD. -/
def replacement : Char := Char.ofNat 0xFFFD

/-- A UTF-8 sequence part-way in: the bits so far, the continuation bytes still
owed, and the range the next one must lie in. -/
structure Utf8Partial where
  bits : Nat
  owed : Nat
  low : Nat
  high : Nat
  deriving DecidableEq

/-- A byte where a sequence may begin: a character, a partial sequence, or an
error. -/
def utf8Start (b : UInt8) : Text × Option Utf8Partial :=
  let n := b.toNat
  if n < 0x80 then ([Char.ofNat n], none)
  else if 0xC2 ≤ n ∧ n ≤ 0xDF then ([], some ⟨n - 0xC0, 1, 0x80, 0xBF⟩)
  else if n = 0xE0 then ([], some ⟨0, 2, 0xA0, 0xBF⟩)
  else if n = 0xED then ([], some ⟨n - 0xE0, 2, 0x80, 0x9F⟩)
  else if 0xE1 ≤ n ∧ n ≤ 0xEF then ([], some ⟨n - 0xE0, 2, 0x80, 0xBF⟩)
  else if n = 0xF0 then ([], some ⟨0, 3, 0x90, 0xBF⟩)
  else if n = 0xF4 then ([], some ⟨4, 3, 0x80, 0x8F⟩)
  else if 0xF1 ≤ n ∧ n ≤ 0xF3 then ([], some ⟨n - 0xF0, 3, 0x80, 0xBF⟩)
  else ([replacement], none)

/-- One byte of a decode: what it emits, and the sequence it leaves open. -/
def utf8Step (open_ : Option Utf8Partial) (b : UInt8) : Text × Option Utf8Partial :=
  match open_ with
  | none => utf8Start b
  | some p =>
      if p.low ≤ b.toNat ∧ b.toNat ≤ p.high then
        let bits := p.bits * 64 + (b.toNat - 0x80)
        if p.owed = 1 then ([Char.ofNat bits], none)
        else ([], some ⟨bits, p.owed - 1, 0x80, 0xBF⟩)
      else
        -- The sequence is broken off, and this byte starts the next one.
        let (out, next) := utf8Start b
        (replacement :: out, next)

/-- `bytes.decode("utf-8", "replace")`. -/
def decodeReplace (bs : Bytes) : Text :=
  let (out, last) := bs.foldl
    (fun (acc : Text × Option Utf8Partial) b =>
      let (emitted, next) := utf8Step acc.2 b
      (acc.1 ++ emitted, next))
    ([], none)
  match last with
  | none => out
  | some _ => out ++ [replacement]

/-- The part of a byte string before its first NUL. -/
def untilNul (bs : Bytes) : Bytes := bs.takeWhile (· ≠ 0)

/-- `str.isspace` on one character: the white space `str.strip` removes. -/
def isSpace (c : Char) : Bool :=
  let n := c.toNat
  (0x09 ≤ n && n ≤ 0x0D) || (0x1C ≤ n && n ≤ 0x20) || n == 0x85 || n == 0xA0 ||
    n == 0x1680 || (0x2000 ≤ n && n ≤ 0x200A) || n == 0x2028 || n == 0x2029 ||
    n == 0x202F || n == 0x205F || n == 0x3000

/-- `str.strip()`. -/
def strip (s : Text) : Text :=
  ((s.dropWhile isSpace).reverse.dropWhile isSpace).reverse

/-- `str.partition(sep)` on one character: the part before, whether `sep` was
found, and the part after. -/
def partitionAt (sep : Char) (s : Text) : Text × Bool × Text :=
  let head := s.takeWhile (· ≠ sep)
  match s.drop head.length with
  | [] => (head, false, [])
  | _ :: tail => (head, true, tail)

theorem partitionAt_of_not_mem {sep : Char} {s : Text} (h : sep ∉ s) : partitionAt sep s = (s, false, []) := by
  have hhead : s.takeWhile (· ≠ sep) = s := by
    refine List.takeWhile_eq_self_iff.mpr fun c hc => decide_eq_true ?_
    rintro rfl
    exact h hc
  rw [partitionAt, hhead, List.drop_length]

theorem partitionAt_append {sep : Char} {head : Text} (h : sep ∉ head) (tail : Text) :
    partitionAt sep (head ++ sep :: tail) = (head, true, tail) := by
  have hhead : (head ++ sep :: tail).takeWhile (· ≠ sep) = head := by
    rw [List.takeWhile_append_of_pos]
    · simp
    · intro c hc
      refine decide_eq_true ?_
      rintro rfl
      exact h hc
  rw [partitionAt, hhead, List.drop_left]

/-- A text is what it is partitioned into. -/
theorem partitionAt_cases (sep : Char) (s : Text) :
    (sep ∉ s ∧ partitionAt sep s = (s, false, [])) ∨
      ∃ head tail, sep ∉ head ∧ s = head ++ sep :: tail ∧ partitionAt sep s = (head, true, tail) := by
  by_cases h : sep ∈ s
  · obtain ⟨head, tail, rfl, hhead⟩ := List.eq_append_cons_of_mem h
    exact .inr ⟨head, tail, hhead, rfl, partitionAt_append hhead tail⟩
  · exact .inl ⟨h, partitionAt_of_not_mem h⟩

example : decodeReplace [0x41, 0xC3, 0xA9, 0xE2, 0x41, 0xFF] =
    ['A', Char.ofNat 0xE9, replacement, 'A', replacement] := by decide

end XrdClient.Lib
