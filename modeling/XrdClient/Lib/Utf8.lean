/-
  Lib/Utf8.lean --- decoding with replacement, cut at ASCII bytes.

  A multi-byte sequence never holds an ASCII byte, and never decodes to an ASCII character:
  the shortest sequence of each length starts above the longest of the one before.  So a
  text may be decoded line by line: `decodeReplace_append` cuts it at any ASCII byte, and
  `mem_of_mem_decodeReplace` says that such a character comes from its byte alone.
-/
import XrdClient.Lib.Bytes

set_option autoImplicit false

namespace XrdClient.Lib

/-- The decode of what is left, with a sequence open or not. -/
def decodeFrom : Bytes → Option Utf8Partial → Text
  | [], state => if state.isSome then [replacement] else []
  | b :: bs, state => (utf8Step state b).1 ++ decodeFrom bs (utf8Step state b).2

/-- The fold, from where it has come to. -/
theorem foldl_utf8Step (bs : Bytes) (out : Text) (state : Option Utf8Partial) :
    (match bs.foldl (fun (acc : Text × Option Utf8Partial) b =>
        let (emitted, next) := utf8Step acc.2 b
        (acc.1 ++ emitted, next)) (out, state) with
      | (out, none) => out
      | (out, some _) => out ++ [replacement]) = out ++ decodeFrom bs state := by
  induction bs generalizing out state with
  | nil =>
    rcases state with _ | p
    · exact (List.append_nil out).symm
    · rfl
  | cons b bs ih =>
    rw [List.foldl_cons]
    refine (ih _ _).trans ?_
    rw [decodeFrom, List.append_assoc]
    rfl

theorem decodeReplace_eq_decodeFrom (bs : Bytes) : decodeReplace bs = decodeFrom bs none := by
  have h := foldl_utf8Step bs [] none
  rw [List.nil_append] at h
  rw [← h, decodeReplace]
  rcases bs.foldl _ _ with ⟨out, _ | p⟩ <;> rfl

/-- An open sequence that cannot come to an ASCII character. -/
def Sane (p : Utf8Partial) : Prop :=
  0x80 ≤ p.low ∧ 1 ≤ p.owed ∧ 0x80 ≤ p.bits * 64 ^ p.owed + (p.low - 0x80) * 64 ^ (p.owed - 1)

/-- A state of the decoder that is between sequences, or in a sane one. -/
def SaneState (state : Option Utf8Partial) : Prop := ∀ p, state = some p → Sane p

theorem saneState_none : SaneState none := fun _ h => nomatch h

theorem saneState_some {p : Utf8Partial} (h : Sane p) : SaneState (some p) :=
  fun _ hp => Option.some.inj hp ▸ h

/-- The characters a decode emits otherwise than for one ASCII byte. -/
def Wide (c : Char) : Prop := 0x80 ≤ c.toNat ∨ c.toNat = 0

theorem wide_replacement : Wide replacement := .inl (by decide)

/-- A number that is not ASCII is no ASCII character, whether it is a character or not. -/
theorem wide_ofNat {n : Nat} (h : 0x80 ≤ n) : Wide (Char.ofNat n) := by
  by_cases hn : n.isValidChar
  · left
    have hval : (Char.ofNat n).toNat = n := by
      simp [Char.ofNat, hn, Char.ofNatAux, Char.toNat]
    rwa [hval]
  · right
    simp [Char.ofNat, hn, Char.toNat]

/-- What a byte may do where a sequence may begin. -/
theorem utf8Start_cases (b : UInt8) :
    (b.toNat < 0x80 ∧ utf8Start b = ([Char.ofNat b.toNat], none)) ∨
    (0x80 ≤ b.toNat ∧ SaneState (utf8Start b).2 ∧
      ((utf8Start b).1 = [] ∧ (utf8Start b).2 ≠ none ∨
        (utf8Start b).1 = [replacement] ∧ (utf8Start b).2 = none)) := by
  rcases Nat.lt_or_ge b.toNat 0x80 with hlow | hhigh
  · exact .inl ⟨hlow, by simp [utf8Start, hlow]⟩
  · refine .inr ⟨hhigh, ?_⟩
    rw [utf8Start]
    simp only [if_neg (Nat.not_lt.mpr hhigh)]
    split_ifs with h₁ h₂ h₃ h₄ h₅ h₆ h₇
    · refine ⟨saneState_some ⟨by simp, by simp, ?_⟩, .inl ⟨rfl, nofun⟩⟩
      simp only
      omega
    · exact ⟨saneState_some ⟨by decide, by decide, by decide⟩, .inl ⟨rfl, nofun⟩⟩
    · refine ⟨saneState_some ⟨by simp, by simp, ?_⟩, .inl ⟨rfl, nofun⟩⟩
      simp only
      omega
    · refine ⟨saneState_some ⟨by simp, by simp, ?_⟩, .inl ⟨rfl, nofun⟩⟩
      simp only
      omega
    · exact ⟨saneState_some ⟨by decide, by decide, by decide⟩, .inl ⟨rfl, nofun⟩⟩
    · exact ⟨saneState_some ⟨by decide, by decide, by decide⟩, .inl ⟨rfl, nofun⟩⟩
    · refine ⟨saneState_some ⟨by simp, by simp, ?_⟩, .inl ⟨rfl, nofun⟩⟩
      simp only
      omega
    · exact ⟨saneState_none, .inr ⟨rfl, rfl⟩⟩

/-- One byte more: an ASCII byte closes what is open and emits its character; any other
emits no ASCII character, and leaves something emitted or a sequence open. -/
theorem utf8Step_cases {state : Option Utf8Partial} (h : SaneState state) (b : UInt8) :
    (b.toNat < 0x80 ∧ utf8Step state b =
      ((if state.isSome then [replacement] else []) ++ [Char.ofNat b.toNat], none)) ∨
    (0x80 ≤ b.toNat ∧ SaneState (utf8Step state b).2 ∧ (∀ c ∈ (utf8Step state b).1, Wide c) ∧
      ((utf8Step state b).1 ≠ [] ∨ (utf8Step state b).2 ≠ none)) := by
  rcases state with _ | p
  · rcases utf8Start_cases b with ⟨hlow, hb⟩ | ⟨hhigh, hsane, ⟨hout, hopen⟩ | ⟨hout, hopen⟩⟩
    · exact .inl ⟨hlow, hb⟩
    · refine .inr ⟨hhigh, hsane, fun c hc => ?_, .inr hopen⟩
      have hc : c ∈ (utf8Start b).1 := hc
      rw [hout] at hc
      exact absurd hc List.not_mem_nil
    · refine .inr ⟨hhigh, hsane, fun c hc => ?_, .inl ?_⟩
      · have hc : c ∈ (utf8Start b).1 := hc
        rw [hout, List.mem_singleton] at hc
        rw [hc]
        exact wide_replacement
      · show (utf8Start b).1 ≠ []
        rw [hout]
        exact List.cons_ne_nil _ _
  · obtain ⟨hlow, howed, hwide⟩ := h p rfl
    by_cases hin : p.low ≤ b.toNat ∧ b.toNat ≤ p.high
    · -- the sequence goes on: what it comes to only grows
      refine .inr ⟨Nat.le_trans hlow hin.1, ?_⟩
      rw [utf8Step, if_pos hin]
      have hgrows : p.low - 0x80 ≤ b.toNat - 0x80 := Nat.sub_le_sub_right hin.1 _
      by_cases hone : p.owed = 1
      · rw [if_pos hone]
        refine ⟨saneState_none, fun c hc => ?_, .inl (List.cons_ne_nil _ _)⟩
        rw [List.mem_singleton.mp hc]
        refine wide_ofNat ?_
        simp only [hone, Nat.sub_self, Nat.pow_one, Nat.pow_zero, Nat.mul_one] at hwide
        omega
      · rw [if_neg hone]
        refine ⟨saneState_some ⟨Nat.le_refl _, ?_, ?_⟩, fun c hc => absurd hc List.not_mem_nil,
          .inr nofun⟩
        · show 1 ≤ p.owed - 1
          omega
        · show 0x80 ≤ (p.bits * 64 + (b.toNat - 0x80)) * 64 ^ (p.owed - 1) +
            (0x80 - 0x80) * 64 ^ (p.owed - 1 - 1)
          have hpow : 64 ^ p.owed = 64 * 64 ^ (p.owed - 1) := by
            rw [← Nat.pow_succ', Nat.succ_eq_add_one, Nat.sub_add_cancel howed]
          calc 0x80
              ≤ p.bits * 64 ^ p.owed + (p.low - 0x80) * 64 ^ (p.owed - 1) := hwide
            _ ≤ p.bits * 64 ^ p.owed + (b.toNat - 0x80) * 64 ^ (p.owed - 1) :=
                Nat.add_le_add_left (Nat.mul_le_mul_right _ hgrows) _
            _ = (p.bits * 64 + (b.toNat - 0x80)) * 64 ^ (p.owed - 1) +
                  (0x80 - 0x80) * 64 ^ (p.owed - 1 - 1) := by
                rw [hpow, Nat.add_mul, Nat.mul_assoc, Nat.sub_self, Nat.zero_mul, Nat.add_zero]
    · -- the sequence is broken off, and the byte begins the next
      have hstep : utf8Step (some p) b =
          (replacement :: (utf8Start b).1, (utf8Start b).2) := by
        rw [utf8Step, if_neg hin]
      rcases utf8Start_cases b with ⟨hascii, hb⟩ | ⟨hhigh, hsane, hrest⟩
      · exact .inl ⟨hascii, by rw [hstep, hb]; rfl⟩
      · rw [hstep]
        refine .inr ⟨hhigh, hsane, fun c hc => ?_, .inl (List.cons_ne_nil _ _)⟩
        rcases List.mem_cons.mp hc with rfl | hc
        · exact wide_replacement
        · rcases hrest with ⟨hout, _⟩ | ⟨hout, _⟩
          · rw [hout] at hc
            exact absurd hc List.not_mem_nil
          · rw [hout, List.mem_singleton] at hc
            rw [hc]
            exact wide_replacement

/-- A decode may be cut at an ASCII byte. -/
theorem decodeFrom_append {b : UInt8} (hb : b.toNat < 0x80) (rest : Bytes) :
    ∀ (bs : Bytes) (state : Option Utf8Partial), SaneState state →
      decodeFrom (bs ++ b :: rest) state =
        decodeFrom bs state ++ Char.ofNat b.toNat :: decodeFrom rest none := by
  intro bs
  induction bs with
  | nil =>
    intro state hstate
    rcases utf8Step_cases hstate b with ⟨_, hstep⟩ | ⟨hhigh, _⟩
    · show (utf8Step state b).1 ++ decodeFrom rest (utf8Step state b).2 = decodeFrom [] state ++ _
      rw [hstep, decodeFrom, List.append_assoc]
      rfl
    · omega
  | cons a bs ih =>
    intro state hstate
    have hsane : SaneState (utf8Step state a).2 := by
      rcases utf8Step_cases hstate a with ⟨_, hstep⟩ | ⟨_, hsane, _⟩
      · rw [hstep]
        exact saneState_none
      · exact hsane
    rw [List.cons_append, decodeFrom, decodeFrom, ih _ hsane, List.append_assoc]

theorem decodeReplace_append {b : UInt8} (hb : b.toNat < 0x80) (bs rest : Bytes) :
    decodeReplace (bs ++ b :: rest) =
      decodeReplace bs ++ Char.ofNat b.toNat :: decodeReplace rest := by
  simp only [decodeReplace_eq_decodeFrom]
  exact decodeFrom_append hb rest bs none saneState_none

/-- An ASCII character of a decode comes from its byte. -/
theorem mem_of_mem_decodeFrom {c : Char} (hc : ¬Wide c) :
    ∀ (bs : Bytes) (state : Option Utf8Partial), SaneState state → c ∈ decodeFrom bs state →
      ∃ b ∈ bs, Char.ofNat b.toNat = c := by
  intro bs
  induction bs with
  | nil =>
    intro state _ hmem
    rw [decodeFrom] at hmem
    split_ifs at hmem
    · rw [List.mem_singleton] at hmem
      rw [hmem] at hc
      exact absurd wide_replacement hc
    · exact absurd hmem List.not_mem_nil
  | cons b bs ih =>
    intro state hstate hmem
    rw [decodeFrom] at hmem
    rcases utf8Step_cases hstate b with ⟨_, hstep⟩ | ⟨_, hsane, hwide, _⟩
    · rw [hstep, List.append_assoc] at hmem
      rcases List.mem_append.mp hmem with hmem | hmem
      · split_ifs at hmem
        · rw [List.mem_singleton] at hmem
          rw [hmem] at hc
          exact absurd wide_replacement hc
        · exact absurd hmem List.not_mem_nil
      · rcases List.mem_cons.mp hmem with hfirst | hmem
        · exact ⟨b, List.mem_cons_self, hfirst.symm⟩
        · obtain ⟨b', hb', hchar⟩ := ih none saneState_none hmem
          exact ⟨b', List.mem_cons_of_mem _ hb', hchar⟩
    · rcases List.mem_append.mp hmem with hmem | hmem
      · exact absurd (hwide c hmem) hc
      · obtain ⟨b', hb', hchar⟩ := ih _ hsane hmem
        exact ⟨b', List.mem_cons_of_mem _ hb', hchar⟩

/-- What is open, or has a byte left, decodes to something. -/
theorem decodeFrom_ne_nil : ∀ (bs : Bytes) (state : Option Utf8Partial), SaneState state →
    state ≠ none ∨ bs ≠ [] → decodeFrom bs state ≠ [] := by
  intro bs
  induction bs with
  | nil =>
    intro state _ h
    obtain ⟨p, rfl⟩ := Option.ne_none_iff_exists'.mp (h.resolve_right (fun h => h rfl))
    exact List.cons_ne_nil _ _
  | cons b bs ih =>
    intro state hstate _
    rw [decodeFrom]
    rcases utf8Step_cases hstate b with ⟨_, hstep⟩ | ⟨_, hsane, _, hout | hopen⟩
    · rw [hstep]
      simp
    · exact fun h => hout (List.append_eq_nil_iff.mp h).1
    · exact fun h => ih _ hsane (.inl hopen) (List.append_eq_nil_iff.mp h).2

theorem decodeReplace_ne_nil {bs : Bytes} (h : bs ≠ []) : decodeReplace bs ≠ [] := by
  rw [decodeReplace_eq_decodeFrom]
  exact decodeFrom_ne_nil bs none saneState_none (.inr h)

/-- Bytes are told apart by the characters of their numbers. -/
theorem eq_of_ofNat_eq {a b : UInt8} (h : Char.ofNat a.toNat = Char.ofNat b.toNat) : a = b := by
  have hvalid : ∀ b : UInt8, (Char.ofNat b.toNat).toNat = b.toNat := by
    intro b
    have hv : b.toNat.isValidChar := .inl (Nat.lt_trans b.toNat_lt (by decide))
    simp [Char.ofNat, hv, Char.ofNatAux, Char.toNat]
  exact UInt8.toNat_inj.mp (by rw [← hvalid a, h, hvalid b])

theorem mem_of_mem_decodeReplace {b : UInt8} {bs : Bytes} (hb : ¬Wide (Char.ofNat b.toNat))
    (h : Char.ofNat b.toNat ∈ decodeReplace bs) : b ∈ bs := by
  rw [decodeReplace_eq_decodeFrom] at h
  obtain ⟨a, ha, hchar⟩ := mem_of_mem_decodeFrom hb bs none saneState_none h
  exact eq_of_ofNat_eq hchar ▸ ha

/-- One ASCII character is the decode of its byte alone. -/
theorem eq_singleton_of_decodeReplace_eq {b : UInt8} {bs : Bytes} (hb : b.toNat < 0x80)
    (hwide : ¬Wide (Char.ofNat b.toNat)) (h : decodeReplace bs = [Char.ofNat b.toNat]) :
    bs = [b] := by
  have hmem : b ∈ bs := mem_of_mem_decodeReplace hwide (by rw [h]; exact List.mem_cons_self)
  obtain ⟨before, rest, rfl⟩ := List.append_of_mem hmem
  rw [decodeReplace_append hb] at h
  have hlen := congrArg List.length h
  rw [List.length_append, List.length_cons, List.length_singleton] at hlen
  have hempty : ∀ bs : Bytes, (decodeReplace bs).length = 0 → bs = [] := by
    intro bs hbs
    by_contra hne
    exact decodeReplace_ne_nil hne (List.eq_nil_of_length_eq_zero hbs)
  rw [hempty before (by omega), hempty rest (by omega)]
  rfl

/-! ## Encoding -/

/-- `str.encode("utf-8")`. -/
def encodeUtf8 (text : Text) : Bytes := text.flatMap String.utf8EncodeChar

section

variable {p : Utf8Partial} {n : Nat} (hlow : p.low ≤ n) (hhigh : n ≤ p.high) (hn : n < 256)

include hlow hhigh hn

/-- The last byte of a sequence. -/
theorem decodeFrom_last (howed : p.owed = 1) (rest : Bytes) : decodeFrom (UInt8.ofNat n :: rest) (some p)
    = Char.ofNat (p.bits * 64 + (n - 0x80)) :: decodeFrom rest none := by
  have hval : (UInt8.ofNat n).toNat = n := UInt8.toNat_ofNat_of_lt' hn
  rw [decodeFrom, utf8Step, hval, if_pos ⟨hlow, hhigh⟩, if_pos howed]
  rfl

/-- A byte of a sequence that has more. -/
theorem decodeFrom_more (howed : p.owed ≠ 1) (rest : Bytes) : decodeFrom (UInt8.ofNat n :: rest) (some p)
    = decodeFrom rest (some ⟨p.bits * 64 + (n - 0x80), p.owed - 1, 0x80, 0xBF⟩) := by
  have hval : (UInt8.ofNat n).toNat = n := UInt8.toNat_ofNat_of_lt' hn
  rw [decodeFrom, utf8Step, hval, if_pos ⟨hlow, hhigh⟩, if_neg howed]
  rfl

end

/-- The first byte of a sequence. -/
theorem decodeFrom_first {n : Nat} {p : Utf8Partial} (h : utf8Start (UInt8.ofNat n) = ([], some p)) (rest : Bytes) :
    decodeFrom (UInt8.ofNat n :: rest) none = decodeFrom rest (some p) := by
  rw [decodeFrom, utf8Step, h]
  rfl

section

variable {v : Nat} (rest : Bytes)

theorem decodeFrom_two (hlow : 0x80 ≤ v) (hhigh : v < 0x800) :
    decodeFrom (UInt8.ofNat (v / 64 % 0x20 + 0xC0) :: UInt8.ofNat (v % 0x40 + 0x80) :: rest) none
      = Char.ofNat v :: decodeFrom rest none := by
  have hstart : utf8Start (UInt8.ofNat (v / 64 % 0x20 + 0xC0)) = ([], some ⟨v / 64, 1, 0x80, 0xBF⟩) := by
    have hval : (UInt8.ofNat (v / 64 % 0x20 + 0xC0)).toNat = v / 64 + 0xC0 := by
      rw [UInt8.toNat_ofNat_of_lt' (by simp only [UInt8.size]; omega)]
      omega
    rw [utf8Start, hval]
    rw [if_neg (by omega), if_pos (by omega), Nat.add_sub_cancel]
  have hsum : v / 64 * 64 + (v % 0x40 + 0x80 - 0x80) = v := by omega
  rw [decodeFrom_first hstart, decodeFrom_last (by simp only; omega) (by simp only; omega) (by omega) rfl,
    hsum]

theorem decodeFrom_three (hlow : 0x800 ≤ v) (hhigh : v < 0x10000) (hvalid : v < 0xD800 ∨ 0xDFFF < v) :
    decodeFrom (UInt8.ofNat (v / 4096 % 0x10 + 0xE0) :: UInt8.ofNat (v / 64 % 0x40 + 0x80) ::
      UInt8.ofNat (v % 0x40 + 0x80) :: rest) none = Char.ofNat v :: decodeFrom rest none := by
  have hval : (UInt8.ofNat (v / 4096 % 0x10 + 0xE0)).toNat = v / 4096 + 0xE0 := by
    rw [UInt8.toNat_ofNat_of_lt' (by simp only [UInt8.size]; omega)]
    omega
  -- what may follow the first byte depends on it
  obtain ⟨low, high, hstart, hin⟩ : ∃ low high, utf8Start (UInt8.ofNat (v / 4096 % 0x10 + 0xE0))
      = ([], some ⟨v / 4096, 2, low, high⟩) ∧ low ≤ v / 64 % 0x40 + 0x80 ∧ v / 64 % 0x40 + 0x80 ≤ high := by
    rw [utf8Start, hval]
    rw [if_neg (by omega), if_neg (by omega)]
    by_cases hE0 : v / 4096 = 0
    · exact ⟨0xA0, 0xBF, by rw [if_pos (by omega), hE0], by omega, by omega⟩
    rw [if_neg (by omega)]
    by_cases hED : v / 4096 = 13
    · exact ⟨0x80, 0x9F, by rw [if_pos (by omega), hED], by omega, by omega⟩
    rw [if_neg (by omega), if_pos (by omega), Nat.add_sub_cancel]
    exact ⟨0x80, 0xBF, rfl, by omega, by omega⟩
  have hsum : (v / 4096 * 64 + (v / 64 % 0x40 + 0x80 - 0x80)) * 64 + (v % 0x40 + 0x80 - 0x80) = v := by omega
  rw [decodeFrom_first hstart, decodeFrom_more hin.1 hin.2 (by omega) (by simp only; omega),
    decodeFrom_last (by simp only; omega) (by simp only; omega) (by omega) rfl, hsum]

theorem decodeFrom_four (hlow : 0x10000 ≤ v) (hhigh : v < 0x110000) :
    decodeFrom (UInt8.ofNat (v / 262144 % 0x08 + 0xF0) :: UInt8.ofNat (v / 4096 % 0x40 + 0x80) ::
      UInt8.ofNat (v / 64 % 0x40 + 0x80) :: UInt8.ofNat (v % 0x40 + 0x80) :: rest) none
      = Char.ofNat v :: decodeFrom rest none := by
  have hval : (UInt8.ofNat (v / 262144 % 0x08 + 0xF0)).toNat = v / 262144 + 0xF0 := by
    rw [UInt8.toNat_ofNat_of_lt' (by simp only [UInt8.size]; omega)]
    omega
  obtain ⟨low, high, hstart, hin⟩ : ∃ low high, utf8Start (UInt8.ofNat (v / 262144 % 0x08 + 0xF0))
      = ([], some ⟨v / 262144, 3, low, high⟩) ∧ low ≤ v / 4096 % 0x40 + 0x80 ∧ v / 4096 % 0x40 + 0x80 ≤ high := by
    rw [utf8Start, hval]
    rw [if_neg (by omega), if_neg (by omega), if_neg (by omega), if_neg (by omega), if_neg (by omega)]
    by_cases hF0 : v / 262144 = 0
    · exact ⟨0x90, 0xBF, by rw [if_pos (by omega), hF0], by omega, by omega⟩
    rw [if_neg (by omega)]
    by_cases hF4 : v / 262144 = 4
    · exact ⟨0x80, 0x8F, by rw [if_pos (by omega), hF4], by omega, by omega⟩
    rw [if_neg (by omega), if_pos (by omega), Nat.add_sub_cancel]
    exact ⟨0x80, 0xBF, rfl, by omega, by omega⟩
  have hsum : ((v / 262144 * 64 + (v / 4096 % 0x40 + 0x80 - 0x80)) * 64 + (v / 64 % 0x40 + 0x80 - 0x80)) * 64
      + (v % 0x40 + 0x80 - 0x80) = v := by omega
  rw [decodeFrom_first hstart, decodeFrom_more hin.1 hin.2 (by omega) (by simp only; omega),
    decodeFrom_more (by simp only; omega) (by simp only; omega) (by omega) (by simp only; omega),
    decodeFrom_last (by simp only; omega) (by simp only; omega) (by omega) rfl, hsum]

end

/-- A character is decoded from its own bytes. -/
theorem decodeFrom_encodeChar (c : Char) (rest : Bytes) :
    decodeFrom (String.utf8EncodeChar c ++ rest) none = c :: decodeFrom rest none := by
  have hchar : Char.ofNat c.val.toNat = c := Char.ofNat_toNat c
  have hvalid : c.val.toNat < 0xD800 ∨ 0xDFFF < c.val.toNat ∧ c.val.toNat < 0x110000 := c.valid
  rw [String.utf8EncodeChar]
  split
  · next h1 =>
    have hval : (UInt8.ofNat c.val.toNat).toNat = c.val.toNat := UInt8.toNat_ofNat_of_lt' (by simp only [UInt8.size]; omega)
    have hstart : utf8Start (UInt8.ofNat c.val.toNat) = ([c], none) := by
      rw [utf8Start, hval]
      rw [if_pos (by omega), hchar]
    rw [List.singleton_append, decodeFrom, utf8Step, hstart]
    rfl
  split
  · exact (decodeFrom_two rest (by omega) (by omega)).trans (by rw [hchar])
  split
  · exact (decodeFrom_three rest (by omega) (by omega) (by omega)).trans (by rw [hchar])
  · exact (decodeFrom_four rest (by omega) (by omega)).trans (by rw [hchar])

theorem decodeReplace_encodeUtf8 (text : Text) : decodeReplace (encodeUtf8 text) = text := by
  rw [decodeReplace_eq_decodeFrom]
  induction text with
  | nil => rfl
  | cons c text ih =>
    rw [encodeUtf8, List.flatMap_cons, decodeFrom_encodeChar]
    exact congrArg (c :: ·) ih

end XrdClient.Lib
