/-
  Lib/Percent.lean --- percent-encoding, as the standard library of the source language has it.

  `quote` writes the UTF-8 bytes of a text, those it does not leave alone as `%XX`.  `unquote`
  decodes every run of ASCII characters by itself: its escapes are bytes, and the bytes are
  decoded with replacement.  What `quote` writes is one such run, so `unquote` reads it back,
  as long as a percent sign is escaped.
-/
import XrdClient.Lib.Utf8

set_option autoImplicit false

namespace XrdClient.Lib

/-! ## Quoting -/

/-- `0123456789ABCDEF`. -/
def upperHex (n : Nat) : Char := if n < 10 then Char.ofNat (48 + n) else Char.ofNat (55 + n)

/-- The value of a hexadecimal digit, in either case. -/
def hexOf (c : Char) : Option Nat :=
  if 48 ≤ c.toNat ∧ c.toNat ≤ 57 then some (c.toNat - 48)
  else if 65 ≤ c.toNat ∧ c.toNat ≤ 70 then some (c.toNat - 55)
  else if 97 ≤ c.toNat ∧ c.toNat ≤ 102 then some (c.toNat - 87)
  else none

/-- `_ALWAYS_SAFE`. -/
def alwaysSafe (c : Char) : Bool := c.isAlphanum || c == '_' || c == '.' || c == '-' || c == '~'

/-- One byte, as it is or escaped. -/
def quoteByte (safe : Text) (b : UInt8) : Text :=
  if b.toNat < 128 ∧ (alwaysSafe (Char.ofNat b.toNat) = true ∨ Char.ofNat b.toNat ∈ safe) then [Char.ofNat b.toNat]
  else ['%', upperHex (b.toNat / 16), upperHex (b.toNat % 16)]

/-- `urllib.parse.quote(text, safe=safe)`. -/
def quote (safe text : Text) : Text := (encodeUtf8 text).flatMap (quoteByte safe)

/-! ## Unquoting -/

/-- `unquote_to_bytes`, of ASCII characters. -/
def percentDecode : Text → Bytes
  | '%' :: high :: low :: rest =>
    match hexOf high, hexOf low with
    | some h, some l => UInt8.ofNat (h * 16 + l) :: percentDecode rest
    | _, _ => UInt8.ofNat '%'.toNat :: percentDecode (high :: low :: rest)
  | c :: rest => UInt8.ofNat c.toNat :: percentDecode rest
  | [] => []

/-- `unquote`, with the ASCII characters that were just read. -/
def unquoteFrom : Text → Text → Text
  | run, [] => decodeReplace (percentDecode run)
  | run, c :: rest =>
    if c.toNat < 128 then unquoteFrom (run ++ [c]) rest
    else decodeReplace (percentDecode run) ++ c :: unquoteFrom [] rest

/-- `urllib.parse.unquote(text)`. -/
def unquote (text : Text) : Text := unquoteFrom [] text

/-- `urllib.parse.unquote_plus(text)`. -/
def unquotePlus (text : Text) : Text := unquote (text.map fun c => if c = '+' then ' ' else c)

/-! ## Bytes and back -/

theorem upperHex_spec : ∀ n, n < 16 → hexOf (upperHex n) = some n ∧ (upperHex n).isAlphanum = true ∧
    (upperHex n).toNat < 128 := by decide

theorem quote_append (safe a b : Text) : quote safe (a ++ b) = quote safe a ++ quote safe b := by
  rw [quote, encodeUtf8, List.flatMap_append, List.flatMap_append]
  rfl

theorem ofNat_toNat_byte {b : UInt8} (h : b.toNat < 128) : (Char.ofNat b.toNat).toNat = b.toNat := by
  have hvalid : b.toNat.isValidChar := .inl (by omega)
  simp [Char.ofNat, hvalid, Char.ofNatAux, Char.toNat]

/-- Every character of a quoted text is one that is left alone, or of an escape. -/
theorem mem_quoteByte {safe : Text} {b : UInt8} {c : Char} (h : c ∈ quoteByte safe b) :
    c.toNat < 128 ∧ (alwaysSafe c = true ∨ c ∈ safe ∨ c = '%') := by
  have hb := b.toNat_lt
  unfold quoteByte at h
  split at h
  · next hsafe =>
    obtain rfl := List.mem_singleton.mp h
    refine ⟨by rw [ofNat_toNat_byte hsafe.1]; exact hsafe.1, ?_⟩
    rcases hsafe.2 with hsafe | hsafe
    · exact .inl hsafe
    · exact .inr (.inl hsafe)
  · have hdigit : ∀ n, n < 16 → alwaysSafe (upperHex n) = true := fun n hn => by
      simp [alwaysSafe, (upperHex_spec n hn).2.1]
    simp only [List.mem_cons, List.not_mem_nil, or_false] at h
    rcases h with rfl | rfl | rfl
    · exact ⟨by decide, .inr (.inr rfl)⟩
    · exact ⟨(upperHex_spec _ (by omega)).2.2, .inl (hdigit _ (by omega))⟩
    · exact ⟨(upperHex_spec _ (by omega)).2.2, .inl (hdigit _ (by omega))⟩

theorem mem_quote {safe text : Text} {c : Char} (h : c ∈ quote safe text) :
    c.toNat < 128 ∧ (alwaysSafe c = true ∨ c ∈ safe ∨ c = '%') := by
  obtain ⟨b, -, hc⟩ := List.mem_flatMap.mp h
  exact mem_quoteByte hc

/-- A character that is no percent sign stands for itself. -/
theorem percentDecode_cons {c : Char} (h : c ≠ '%') (rest : Text) :
    percentDecode (c :: rest) = UInt8.ofNat c.toNat :: percentDecode rest := by
  rw [percentDecode]
  rintro high low tail rfl
  exact absurd rfl h

/-- A byte is decoded from what it is quoted as. -/
theorem percentDecode_quoteByte {safe : Text} (h : '%' ∉ safe) (b : UInt8) (rest : Text) :
    percentDecode (quoteByte safe b ++ rest) = b :: percentDecode rest := by
  have hb := b.toNat_lt
  unfold quoteByte
  split
  · next hsafe =>
    have hne : Char.ofNat b.toNat ≠ '%' := by
      intro heq
      rw [heq] at hsafe
      rcases hsafe.2 with hsafe | hsafe
      · exact absurd hsafe (by decide)
      · exact h hsafe
    rw [List.singleton_append, percentDecode_cons hne, ofNat_toNat_byte hsafe.1, UInt8.ofNat_toNat]
  · have hvalue : b.toNat / 16 * 16 + b.toNat % 16 = b.toNat := by omega
    rw [List.cons_append, List.cons_append, List.cons_append, List.nil_append, percentDecode,
      (upperHex_spec (b.toNat / 16) (by omega)).1, (upperHex_spec (b.toNat % 16) (by omega)).1]
    simp only
    rw [hvalue, UInt8.ofNat_toNat]

theorem percentDecode_quote {safe : Text} (h : '%' ∉ safe) (text : Text) :
    percentDecode (quote safe text) = encodeUtf8 text := by
  have hbytes : ∀ bs : Bytes, percentDecode (bs.flatMap (quoteByte safe)) = bs := by
    intro bs
    induction bs with
    | nil => rfl
    | cons b bs ih => rw [List.flatMap_cons, percentDecode_quoteByte h, ih]
  exact hbytes _

/-- Characters that are all ASCII are one run. -/
theorem unquoteFrom_ascii {text : Text} (h : ∀ c ∈ text, c.toNat < 128) (run : Text) :
    unquoteFrom run text = decodeReplace (percentDecode (run ++ text)) := by
  induction text generalizing run with
  | nil => rw [unquoteFrom, List.append_nil]
  | cons c text ih =>
    obtain ⟨hc, htext⟩ := List.forall_mem_cons.mp h
    rw [unquoteFrom, if_pos hc, ih htext, List.append_assoc, List.singleton_append]

/-- A text is read back from what it is quoted as. -/
theorem unquote_quote {safe : Text} (h : '%' ∉ safe) (text : Text) : unquote (quote safe text) = text := by
  rw [unquote, unquoteFrom_ascii (fun c hc => (mem_quote hc).1), List.nil_append, percentDecode_quote h,
    decodeReplace_encodeUtf8]

theorem unquotePlus_quote {safe : Text} (h : '%' ∉ safe) (hplus : '+' ∉ safe) (text : Text) :
    unquotePlus (quote safe text) = text := by
  have hnone : (quote safe text).map (fun c => if c = '+' then ' ' else c) = quote safe text := by
    rw [List.map_congr_left (g := id), List.map_id]
    intro c hc
    refine if_neg ?_
    rintro rfl
    rcases (mem_quote hc).2 with hsafe | hsafe | heq
    · exact absurd hsafe (by decide)
    · exact hplus hsafe
    · exact absurd heq (by decide)
  rw [unquotePlus, hnone, unquote_quote h]

/-- An ASCII byte of a text is one of its characters. -/
theorem mem_of_mem_encodeUtf8 {b : UInt8} (hb : b.toNat < 128) {text : Text} (h : b ∈ encodeUtf8 text) :
    Char.ofNat b.toNat ∈ text := by
  obtain ⟨before, after, hsplit⟩ := List.append_of_mem h
  have hdecode := decodeReplace_encodeUtf8 text
  rw [hsplit, decodeReplace_append hb] at hdecode
  rw [← hdecode]
  exact List.mem_append_right _ List.mem_cons_self

/-- A character that only stands for itself in a quoted text is one of the text. -/
theorem mem_of_mem_quote {safe text : Text} {c : Char} (hsafe : alwaysSafe c = false) (hpercent : c ≠ '%')
    (h : c ∈ quote safe text) : c ∈ text := by
  obtain ⟨b, hb, hc⟩ := List.mem_flatMap.mp h
  have hlt := b.toNat_lt
  unfold quoteByte at hc
  split at hc
  · next hascii =>
    rw [List.mem_singleton.mp hc]
    exact mem_of_mem_encodeUtf8 hascii.1 hb
  · have hdigit : ∀ n, n < 16 → c ≠ upperHex n := by
      rintro n hn rfl
      simp [alwaysSafe, (upperHex_spec n hn).2.1] at hsafe
    simp only [List.mem_cons, List.not_mem_nil, or_false] at hc
    rcases hc with rfl | heq | heq
    · exact absurd rfl hpercent
    · exact absurd heq (hdigit _ (by omega))
    · exact absurd heq (hdigit _ (by omega))

end XrdClient.Lib
