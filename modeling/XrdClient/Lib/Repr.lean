/-
  Lib/Repr.lean --- `repr` of plain values, and that it can be read back.

  The values are those of the built-in types of the source language whose `repr` is
  their literal: `None`, truth values, whole numbers, texts and tuples.  Which
  characters beyond ASCII are printed as they are depends on a version of Unicode;
  nothing here does, so that is a parameter.

  What is proved is what makes a `repr` fit to be hashed or to be a key: two values
  of one `repr` are one value, whatever stands behind it, and no `repr` has a NUL.
-/
import Mathlib
import XrdClient.Lib.Bytes

set_option autoImplicit false

namespace XrdClient.Lib

/-- A value of a built-in type. -/
inductive PyValue where
  | none
  | bool (b : Bool)
  | int (n : Int)
  | str (s : Text)
  | tuple (vs : List PyValue)

/-! ## Characters -/

def hexDigit (n : Nat) : Char := if n < 10 then Char.ofNat (48 + n) else Char.ofNat (87 + n)

/-- The low `width` hexadecimal digits of `n`, most significant first. -/
def hexDigits : Nat → Nat → Text
  | 0, _ => []
  | width + 1, n => hexDigits width (n / 16) ++ [hexDigit (n % 16)]

def hexValue (c : Char) : Nat := if c.toNat < 58 then c.toNat - 48 else c.toNat - 87

/-- The number that hexadecimal digits are. -/
def ofHex (s : Text) : Nat := s.foldl (fun n c => n * 16 + hexValue c) 0

theorem hexValue_hexDigit : ∀ n, n < 16 → hexValue (hexDigit n) = n := by decide

theorem hexDigit_ne_nul : ∀ n, n < 16 → hexDigit n ≠ Char.ofNat 0 := by decide

theorem length_hexDigits (width n : Nat) : (hexDigits width n).length = width := by
  induction width generalizing n with
  | zero => rfl
  | succ width ih => simp [hexDigits, ih]

theorem ofHex_hexDigits : ∀ (width n : Nat), n < 16 ^ width → ofHex (hexDigits width n) = n := by
  intro width
  induction width with
  | zero =>
    intro n h
    have hn : n = 0 := by simpa using h
    subst hn
    rfl
  | succ width ih =>
    intro n h
    have hdiv : n / 16 < 16 ^ width := by
      apply Nat.div_lt_of_lt_mul
      rw [Nat.mul_comm, ← Nat.pow_succ]
      exact h
    have hmod : n % 16 < 16 := Nat.mod_lt _ (by omega)
    have hrest := ih _ hdiv
    simp only [ofHex] at hrest ⊢
    rw [hexDigits, List.foldl_append, hrest]
    simp only [List.foldl_cons, List.foldl_nil, hexValue_hexDigit _ hmod]
    omega

theorem nul_not_mem_hexDigits (width n : Nat) : Char.ofNat 0 ∉ hexDigits width n := by
  induction width generalizing n with
  | zero => simp [hexDigits]
  | succ width ih =>
    rw [hexDigits, List.mem_append, List.mem_singleton]
    rintro (h | h)
    · exact ih _ h
    · exact hexDigit_ne_nul _ (Nat.mod_lt _ (by omega)) h.symm

section

variable (printable : Char → Bool)

/-- A character as it stands in the `repr` of a text. -/
def escape (quote c : Char) : Text :=
  if c = quote ∨ c = '\\' then ['\\', c]
  else if c = '\t' then ['\\', 't']
  else if c = '\n' then ['\\', 'n']
  else if c = '\r' then ['\\', 'r']
  else if c.toNat < 0x20 ∨ c.toNat = 0x7f then '\\' :: 'x' :: hexDigits 2 c.toNat
  else if c.toNat < 0x7f ∨ printable c = true then [c]
  else if c.toNat ≤ 0xff then '\\' :: 'x' :: hexDigits 2 c.toNat
  else if c.toNat ≤ 0xffff then '\\' :: 'u' :: hexDigits 4 c.toNat
  else '\\' :: 'U' :: hexDigits 8 c.toNat

/-- The reading of one character, and what stands behind it. -/
def unescape : Text → Option (Char × Text)
  | [] => none
  | c :: rest =>
      if c = '\\' then
        match rest with
        | [] => none
        | k :: rest =>
            if k = 'x' then some (Char.ofNat (ofHex (rest.take 2)), rest.drop 2)
            else if k = 'u' then some (Char.ofNat (ofHex (rest.take 4)), rest.drop 4)
            else if k = 'U' then some (Char.ofNat (ofHex (rest.take 8)), rest.drop 8)
            else if k = 't' then some ('\t', rest)
            else if k = 'n' then some ('\n', rest)
            else if k = 'r' then some ('\r', rest)
            else some (k, rest)
      else some (c, rest)

/-- A quotation mark that texts are put in. -/
def IsQuote (q : Char) : Prop := q = '\'' ∨ q = '"'

theorem unescape_hex {k : Char} {width : Nat} (hk : (k, width) ∈ [('x', 2), ('u', 4), ('U', 8)])
    {c : Char} (hc : c.toNat < 16 ^ width) (rest : Text) :
    unescape ('\\' :: k :: (hexDigits width c.toNat ++ rest)) = some (c, rest) := by
  have htake : (hexDigits width c.toNat ++ rest).take width = hexDigits width c.toNat := by
    rw [List.take_append_of_le_length (by rw [length_hexDigits]), List.take_of_length_le
      (by rw [length_hexDigits])]
  have hdrop : (hexDigits width c.toNat ++ rest).drop width = rest :=
    List.drop_left' (length_hexDigits _ _)
  have hvalue : Char.ofNat (ofHex (hexDigits width c.toNat)) = c := by
    rw [ofHex_hexDigits _ _ hc, Char.ofNat_toNat]
  simp only [List.mem_cons, Prod.mk.injEq, List.not_mem_nil, or_false] at hk
  rcases hk with ⟨rfl, rfl⟩ | ⟨rfl, rfl⟩ | ⟨rfl, rfl⟩
  all_goals
    simp only [unescape, if_true, Char.reduceEq, if_false, htake, hdrop, hvalue]

theorem unescape_escape {quote : Char} (hquote : IsQuote quote) (c : Char) (rest : Text) :
    unescape (escape printable quote c ++ rest) = some (c, rest) := by
  unfold escape
  split
  · next h =>
    have hc : c = '\'' ∨ c = '"' ∨ c = '\\' := by
      rcases h with rfl | h
      · exact hquote.imp_right .inl
      · exact .inr (.inr h)
    rcases hc with rfl | rfl | rfl <;> rfl
  split
  · next h => rw [h]; rfl
  split
  · next h => rw [h]; rfl
  split
  · next h => rw [h]; rfl
  split
  · exact unescape_hex (by decide) (by omega) rest
  split
  · next hspecial _ _ _ _ _ =>
    have hc : c ≠ '\\' := fun h => hspecial (.inr h)
    simp [unescape, hc]
  split
  · exact unescape_hex (by decide) (by omega) rest
  split
  · exact unescape_hex (by decide) (by omega) rest
  · have hmax : c.toNat < 0x110000 := by
      rcases c.valid with h | h
      · have : c.toNat < 0xd800 := h
        omega
      · exact h.2
    exact unescape_hex (by decide) (by omega) rest

/-- No character is printed so that it begins with the quotation mark. -/
theorem escape_head {quote : Char} (hquote : IsQuote quote) (c : Char) :
    ∃ k t, escape printable quote c = k :: t ∧ k ≠ quote := by
  have hslash : '\\' ≠ quote := by rcases hquote with rfl | rfl <;> decide
  unfold escape
  split
  · exact ⟨_, _, rfl, hslash⟩
  rename_i hspecial
  repeat' split
  all_goals first
    | exact ⟨_, _, rfl, hslash⟩
    | exact ⟨_, _, rfl, fun h => hspecial (.inl h)⟩

theorem nul_not_mem_escape {quote : Char} (hquote : IsQuote quote) (c : Char) :
    Char.ofNat 0 ∉ escape printable quote c := by
  have hnul : ∀ d : Char, 0x20 ≤ d.toNat → Char.ofNat 0 ≠ d := by
    rintro d hd rfl
    revert hd
    decide
  unfold escape
  split
  · next h =>
    have hc : c = '\'' ∨ c = '"' ∨ c = '\\' := by
      rcases h with rfl | h
      · exact hquote.imp_right .inl
      · exact .inr (.inr h)
    rcases hc with rfl | rfl | rfl <;> decide
  split
  · decide
  split
  · decide
  split
  · decide
  split
  · simp only [List.mem_cons, nul_not_mem_hexDigits, or_false]
    decide
  split
  · rw [List.mem_singleton]
    exact hnul c (by omega)
  split
  · simp only [List.mem_cons, nul_not_mem_hexDigits, or_false]
    decide
  split
  · simp only [List.mem_cons, nul_not_mem_hexDigits, or_false]
    decide
  · simp only [List.mem_cons, nul_not_mem_hexDigits, or_false]
    decide

/-! ## Texts -/

/-- The quotation mark of a text: `"` only if the text has `'` and no `"`. -/
def quoteFor (s : Text) : Char := if '\'' ∈ s ∧ '"' ∉ s then '"' else '\''

def reprText (s : Text) : Text :=
  quoteFor s :: (s.flatMap (escape printable (quoteFor s)) ++ [quoteFor s])

theorem isQuote_quoteFor (s : Text) : IsQuote (quoteFor s) := by
  unfold quoteFor
  split
  · exact .inr rfl
  · exact .inl rfl

theorem body_read {quote : Char} (hquote : IsQuote quote) : ∀ {s s' x y : Text},
    s.flatMap (escape printable quote) ++ quote :: x =
      s'.flatMap (escape printable quote) ++ quote :: y → s = s' ∧ x = y := by
  -- a text that is over is told by its quotation mark
  have hends : ∀ (c : Char) (s x y : Text),
      quote :: x ≠ (c :: s).flatMap (escape printable quote) ++ y := by
    intro c s x y h
    obtain ⟨k, t, hescape, hk⟩ := escape_head printable hquote c
    rw [List.flatMap_cons, hescape] at h
    exact hk (List.cons.inj h).1.symm
  intro s
  induction s with
  | nil =>
    intro s' x y h
    cases s' with
    | nil => exact ⟨rfl, (List.cons.inj h).2⟩
    | cons c s' => exact absurd h (hends c s' x _)
  | cons c s ih =>
    intro s' x y h
    cases s' with
    | nil => exact absurd h.symm (hends c s y _)
    | cons c' s' =>
      rw [List.flatMap_cons, List.flatMap_cons, List.append_assoc, List.append_assoc] at h
      have hread := congrArg unescape h
      rw [unescape_escape printable hquote, unescape_escape printable hquote, Option.some.injEq,
        Prod.mk.injEq] at hread
      obtain ⟨hs, hx⟩ := ih hread.2
      exact ⟨by rw [hread.1, hs], hx⟩

theorem reprText_read {s s' x y : Text} (h : reprText printable s ++ x = reprText printable s' ++ y) :
    s = s' ∧ x = y := by
  simp only [reprText, List.cons_append, List.append_assoc, List.nil_append] at h
  obtain ⟨hquote, hrest⟩ := List.cons.inj h
  rw [← hquote] at hrest
  exact body_read printable (isQuote_quoteFor s) hrest

theorem nul_not_mem_reprText (s : Text) : Char.ofNat 0 ∉ reprText printable s := by
  have hquote := isQuote_quoteFor s
  have hne : Char.ofNat 0 ≠ quoteFor s := by
    rcases hquote with h | h <;> rw [h] <;> decide
  simp only [reprText, List.mem_cons, List.mem_append, List.mem_flatMap, List.not_mem_nil, or_false]
  rintro (h | ⟨c, -, hc⟩ | h)
  · exact hne h
  · exact nul_not_mem_escape printable hquote c hc
  · exact hne h

/-! ## Numbers -/

/-- The decimal digits of a number, most significant first. -/
def decimal (n : Nat) : Text :=
  if n = 0 then ['0'] else ((Nat.digits 10 n).map fun d => Char.ofNat (48 + d)).reverse

def reprInt (n : Int) : Text :=
  if n < 0 then '-' :: decimal n.natAbs else decimal n.natAbs

def isDigit (c : Char) : Bool := decide (48 ≤ c.toNat) && decide (c.toNat < 58)

theorem isDigit_ofNat : ∀ d, d < 10 → isDigit (Char.ofNat (48 + d)) = true := by decide

theorem ofNat_digit_injective : ∀ d, d < 10 → ∀ e, e < 10 →
    Char.ofNat (48 + d) = Char.ofNat (48 + e) → d = e := by decide

theorem decimal_digits (n : Nat) : ∀ c ∈ decimal n, isDigit c = true := by
  intro c hc
  unfold decimal at hc
  split at hc
  · rw [List.mem_singleton] at hc
    rw [hc]
    rfl
  · rw [List.mem_reverse, List.mem_map] at hc
    obtain ⟨d, hd, rfl⟩ := hc
    exact isDigit_ofNat d (Nat.digits_lt_base (by omega) hd)

theorem decimal_ne_nil (n : Nat) : decimal n ≠ [] := by
  unfold decimal
  split
  · exact List.cons_ne_nil _ _
  · rename_i hn
    rw [Ne, List.reverse_eq_nil_iff, List.map_eq_nil_iff]
    exact Nat.digits_ne_nil_iff_ne_zero.mpr hn

theorem map_digits_injective : ∀ {ds es : List Nat}, (∀ d ∈ ds, d < 10) → (∀ e ∈ es, e < 10) →
    ds.map (fun d => Char.ofNat (48 + d)) = es.map (fun d => Char.ofNat (48 + d)) → ds = es := by
  intro ds
  induction ds with
  | nil =>
    intro es _ _ h
    exact (List.map_eq_nil_iff.mp h.symm).symm
  | cons d ds ih =>
    intro es hds hes h
    cases es with
    | nil => cases h
    | cons e es =>
      obtain ⟨hhead, htail⟩ := List.cons.inj h
      have hd := ofNat_digit_injective d (hds d List.mem_cons_self) e (hes e List.mem_cons_self) hhead
      rw [hd, ih (fun x hx => hds x (List.mem_cons_of_mem _ hx))
        (fun x hx => hes x (List.mem_cons_of_mem _ hx)) htail]

theorem decimal_injective {n m : Nat} (h : decimal n = decimal m) : n = m := by
  have hlt : ∀ k, ∀ d ∈ Nat.digits 10 k, d < 10 := fun k d hd => Nat.digits_lt_base (by omega) hd
  -- a number other than zero is not printed `0`
  have hzero : ∀ k, k ≠ 0 →
      ['0'] ≠ ((Nat.digits 10 k).map fun d => Char.ofNat (48 + d)).reverse := by
    intro k hk heq
    have hdigits : ([0] : List Nat).map (fun d => Char.ofNat (48 + d)) =
        (Nat.digits 10 k).map fun d => Char.ofNat (48 + d) := by
      rw [← List.reverse_inj, ← heq]
      rfl
    have hone := map_digits_injective (by simp) (hlt k) hdigits
    have hvalue := congrArg (Nat.ofDigits 10) hone
    rw [Nat.ofDigits_digits] at hvalue
    exact hk hvalue.symm
  unfold decimal at h
  by_cases hn : n = 0 <;> by_cases hm : m = 0
  · rw [hn, hm]
  · rw [if_pos hn, if_neg hm] at h
    exact absurd h (hzero m hm)
  · rw [if_neg hn, if_pos hm] at h
    exact absurd h.symm (hzero n hn)
  · rw [if_neg hn, if_neg hm, List.reverse_inj] at h
    have hdigits := map_digits_injective (hlt n) (hlt m) h
    rw [← Nat.ofDigits_digits 10 n, hdigits, Nat.ofDigits_digits]

/-- What may stand behind a value: nothing, or more of a tuple. -/
def Ends (x : Text) : Prop := ∀ c rest, x = c :: rest → c = ',' ∨ c = ')'

theorem ends_nil : Ends [] := by
  intro c rest h
  cases h

theorem ends_cons {c : Char} (h : c = ',' ∨ c = ')') (rest : Text) : Ends (c :: rest) := by
  intro c' rest' heq
  rw [← (List.cons.inj heq).1]
  exact h

theorem digits_read : ∀ {ds es x y : Text}, (∀ c ∈ ds, isDigit c = true) →
    (∀ c ∈ es, isDigit c = true) → Ends x → Ends y → ds ++ x = es ++ y → ds = es ∧ x = y := by
  have hends : ∀ {c : Char} {x rest : Text}, Ends x → isDigit c = true → x ≠ c :: rest := by
    intro c x rest hx hc heq
    rcases hx c rest heq with rfl | rfl <;> cases hc
  intro ds
  induction ds with
  | nil =>
    intro es x y _ hes hx _ h
    cases es with
    | nil => exact ⟨rfl, h⟩
    | cons e es => exact absurd h (hends hx (hes e List.mem_cons_self))
  | cons d ds ih =>
    intro es x y hds hes hx hy h
    cases es with
    | nil => exact absurd h.symm (hends hy (hds d List.mem_cons_self))
    | cons e es =>
      obtain ⟨hhead, htail⟩ := List.cons.inj h
      obtain ⟨hrest, hxy⟩ := ih (fun c hc => hds c (List.mem_cons_of_mem _ hc))
        (fun c hc => hes c (List.mem_cons_of_mem _ hc)) hx hy htail
      exact ⟨by rw [hhead, hrest], hxy⟩

theorem decimal_read {n m : Nat} {x y : Text} (hx : Ends x) (hy : Ends y)
    (h : decimal n ++ x = decimal m ++ y) : n = m ∧ x = y := by
  obtain ⟨hdigits, hxy⟩ := digits_read (decimal_digits n) (decimal_digits m) hx hy h
  exact ⟨decimal_injective hdigits, hxy⟩

/-- The digits of a number do not begin with a sign. -/
theorem decimal_ne_sign (n : Nat) (x y : Text) : '-' :: x ≠ decimal n ++ y := by
  intro h
  cases hd : decimal n with
  | nil => exact decimal_ne_nil n hd
  | cons d ds =>
    rw [hd, List.cons_append] at h
    have hdigit := decimal_digits n d (by rw [hd]; exact List.mem_cons_self)
    rw [← (List.cons.inj h).1] at hdigit
    cases hdigit

theorem reprInt_read {n m : Int} {x y : Text} (hx : Ends x) (hy : Ends y)
    (h : reprInt n ++ x = reprInt m ++ y) : n = m ∧ x = y := by
  unfold reprInt at h
  by_cases hn : n < 0 <;> by_cases hm : m < 0
  · rw [if_pos hn, if_pos hm] at h
    obtain ⟨habs, hxy⟩ := decimal_read hx hy (List.cons.inj h).2
    exact ⟨by omega, hxy⟩
  · rw [if_pos hn, if_neg hm] at h
    exact absurd h (decimal_ne_sign _ _ _)
  · rw [if_neg hn, if_pos hm] at h
    exact absurd h.symm (decimal_ne_sign _ _ _)
  · rw [if_neg hn, if_neg hm] at h
    obtain ⟨habs, hxy⟩ := decimal_read hx hy h
    exact ⟨by omega, hxy⟩

theorem nul_not_mem_reprInt (n : Int) : Char.ofNat 0 ∉ reprInt n := by
  have hdecimal : Char.ofNat 0 ∉ decimal n.natAbs := fun h => by
    have hdigit := decimal_digits _ _ h
    revert hdigit
    decide
  unfold reprInt
  split
  · rw [List.mem_cons]
    rintro (h | h)
    · revert h
      decide
    · exact hdecimal h
  · exact hdecimal

/-! ## Values -/

mutual

/-- `repr(v)`. -/
def PyValue.repr : PyValue → Text
  | .none => "None".toList
  | .bool true => "True".toList
  | .bool false => "False".toList
  | .int n => reprInt n
  | .str s => reprText printable s
  | .tuple [] => ['(', ')']
  | .tuple (v :: vs) => '(' :: (v.repr ++ (if vs.isEmpty then [',', ')'] else reprItems vs))

/-- The rest of a tuple, and its bracket. -/
def PyValue.reprItems : List PyValue → Text
  | [] => [')']
  | v :: vs => ',' :: ' ' :: (v.repr ++ reprItems vs)

end

/-- What kind of value a `repr` begins. -/
def kindOf (c : Char) : Nat :=
  if c = 'N' then 0
  else if c = 'T' then 1
  else if c = 'F' then 2
  else if c = '(' then 3
  else if c = '\'' ∨ c = '"' then 4
  else if c = ')' then 6
  else 5

def PyValue.kind : PyValue → Nat
  | .none => 0
  | .bool true => 1
  | .bool false => 2
  | .tuple _ => 3
  | .str _ => 4
  | .int _ => 5

theorem PyValue.repr_head (v : PyValue) : ∃ c t, v.repr printable = c :: t ∧ kindOf c = v.kind := by
  cases v with
  | none => exact ⟨'N', _, rfl, rfl⟩
  | bool b =>
    cases b
    · exact ⟨'F', _, rfl, rfl⟩
    · exact ⟨'T', _, rfl, rfl⟩
  | str s =>
    refine ⟨quoteFor s, _, rfl, ?_⟩
    rcases isQuote_quoteFor s with h | h <;> rw [h] <;> rfl
  | tuple vs =>
    cases vs with
    | nil => exact ⟨'(', [')'], by rw [repr], rfl⟩
    | cons v vs => exact ⟨'(', _, by rw [repr], rfl⟩
  | int n =>
    rw [repr]
    unfold reprInt
    split
    · exact ⟨'-', _, rfl, rfl⟩
    · cases hd : decimal n.natAbs with
      | nil => exact absurd hd (decimal_ne_nil _)
      | cons d ds =>
        refine ⟨d, ds, rfl, ?_⟩
        have hdigit := decimal_digits n.natAbs d (by rw [hd]; exact List.mem_cons_self)
        simp only [isDigit, Bool.and_eq_true, decide_eq_true_eq] at hdigit
        have hne : ∀ c : Char, ¬ (48 ≤ c.toNat ∧ c.toNat < 58) → d ≠ c := by
          rintro c hc rfl
          exact hc hdigit
        simp only [kindOf, hne 'N' (by decide), hne 'T' (by decide), hne 'F' (by decide),
          hne '(' (by decide), hne '\'' (by decide), hne '"' (by decide), hne ')' (by decide), if_false,
          or_self, PyValue.kind]

theorem ends_items (vs : List PyValue) (x : Text) :
    Ends ((if vs.isEmpty then [',', ')'] else PyValue.reprItems printable vs) ++ x) := by
  split
  · exact ends_cons (.inl rfl) _
  · cases vs with
    | nil => exact ends_cons (.inr rfl) _
    | cons v vs =>
      rw [PyValue.reprItems]
      exact ends_cons (.inl rfl) _

theorem ends_reprItems (vs : List PyValue) (x : Text) : Ends (PyValue.reprItems printable vs ++ x) := by
  cases vs with
  | nil => exact ends_cons (.inr rfl) _
  | cons v vs =>
    rw [PyValue.reprItems]
    exact ends_cons (.inl rfl) _

/-- A bracket closes a tuple, and begins no value. -/
theorem bracket_ne_repr (v : PyValue) (t u : Text) : ')' :: t ≠ v.repr printable ++ u := by
  intro heq
  obtain ⟨c, t', hv, hc⟩ := v.repr_head printable
  rw [hv] at heq
  rw [← (List.cons.inj heq).1] at hc
  cases v with
  | bool b => cases b <;> cases hc
  | _ => cases hc

mutual

/-- **A `repr` can be read back**: it determines its value, and where it ends. -/
theorem PyValue.repr_read : ∀ (v w : PyValue) {x y : Text}, Ends x → Ends y →
    v.repr printable ++ x = w.repr printable ++ y → v = w ∧ x = y := by
  intro v w x y hx hy h
  have hkind : v.kind = w.kind := by
    obtain ⟨c, t, hv, hc⟩ := v.repr_head printable
    obtain ⟨d, u, hw, hd⟩ := w.repr_head printable
    rw [hv, hw] at h
    rw [← hc, ← hd, (List.cons.inj h).1]
  match v, w with
  | .none, .none => exact ⟨rfl, List.append_cancel_left h⟩
  | .bool true, .bool true => exact ⟨rfl, List.append_cancel_left h⟩
  | .bool false, .bool false => exact ⟨rfl, List.append_cancel_left h⟩
  | .int n, .int m =>
    rw [PyValue.repr, PyValue.repr] at h
    obtain ⟨hn, hxy⟩ := reprInt_read hx hy h
    exact ⟨by rw [hn], hxy⟩
  | .str s, .str s' =>
    rw [PyValue.repr, PyValue.repr] at h
    obtain ⟨hs, hxy⟩ := reprText_read printable h
    exact ⟨by rw [hs], hxy⟩
  | .tuple [], .tuple [] =>
    rw [PyValue.repr] at h
    exact ⟨rfl, List.append_cancel_left h⟩
  | .tuple [], .tuple (w :: ws) =>
    rw [PyValue.repr, PyValue.repr] at h
    simp only [List.cons_append, List.append_assoc] at h
    exact absurd (List.cons.inj h).2 (bracket_ne_repr printable w _ _)
  | .tuple (v :: vs), .tuple [] =>
    rw [PyValue.repr, PyValue.repr] at h
    simp only [List.cons_append, List.append_assoc] at h
    exact absurd (List.cons.inj h).2.symm (bracket_ne_repr printable v _ _)
  | .tuple (v :: vs), .tuple (w :: ws) =>
    rw [PyValue.repr, PyValue.repr] at h
    simp only [List.cons_append, List.append_assoc] at h
    obtain ⟨hv, hrest⟩ := PyValue.repr_read v w (ends_items printable vs x)
      (ends_items printable ws y) (List.cons.inj h).2
    rw [hv]
    match vs, ws with
    | [], [] => exact ⟨rfl, List.append_cancel_left hrest⟩
    | [], w' :: ws =>
      simp only [List.isEmpty_nil, List.isEmpty_cons, if_true, if_false, PyValue.reprItems,
        List.cons_append, List.cons.injEq, Bool.false_eq_true] at hrest
      exact absurd hrest.2.1 (by decide)
    | v' :: vs, [] =>
      simp only [List.isEmpty_nil, List.isEmpty_cons, if_true, if_false, PyValue.reprItems,
        List.cons_append, List.cons.injEq, Bool.false_eq_true] at hrest
      exact absurd hrest.2.1 (by decide)
    | v' :: vs, w' :: ws =>
      simp only [List.isEmpty_cons, if_false, Bool.false_eq_true] at hrest
      obtain ⟨hvs, hxy⟩ := PyValue.reprItems_read (v' :: vs) (w' :: ws) hrest
      exact ⟨by rw [hvs], hxy⟩

theorem PyValue.reprItems_read : ∀ (vs ws : List PyValue) {x y : Text},
    PyValue.reprItems printable vs ++ x = PyValue.reprItems printable ws ++ y → vs = ws ∧ x = y := by
  intro vs ws x y h
  match vs, ws with
  | [], [] => exact ⟨rfl, List.append_cancel_left h⟩
  | [], w :: ws =>
    rw [PyValue.reprItems, PyValue.reprItems] at h
    exact absurd (List.cons.inj h).1 (by decide)
  | v :: vs, [] =>
    rw [PyValue.reprItems, PyValue.reprItems] at h
    exact absurd (List.cons.inj h).1 (by decide)
  | v :: vs, w :: ws =>
    rw [PyValue.reprItems, PyValue.reprItems] at h
    simp only [List.cons_append, List.cons.injEq, List.append_assoc, true_and] at h
    obtain ⟨hv, hrest⟩ := PyValue.repr_read v w (ends_reprItems printable vs x)
      (ends_reprItems printable ws y) h
    obtain ⟨hvs, hxy⟩ := PyValue.reprItems_read vs ws hrest
    exact ⟨by rw [hv, hvs], hxy⟩

end

mutual

theorem PyValue.nul_not_mem_repr : ∀ v : PyValue, Char.ofNat 0 ∉ v.repr printable := by
  intro v
  match v with
  | .none => rw [PyValue.repr]; decide
  | .bool true => rw [PyValue.repr]; decide
  | .bool false => rw [PyValue.repr]; decide
  | .int n => rw [PyValue.repr]; exact nul_not_mem_reprInt n
  | .str s => rw [PyValue.repr]; exact nul_not_mem_reprText printable s
  | .tuple [] => rw [PyValue.repr]; decide
  | .tuple (v :: vs) =>
    have hv := PyValue.nul_not_mem_repr v
    have hvs := PyValue.nul_not_mem_reprItems vs
    rw [PyValue.repr, List.mem_cons, List.mem_append]
    rintro (h | h | h)
    · revert h
      decide
    · exact hv h
    · split at h
      · revert h
        decide
      · exact hvs h

theorem PyValue.nul_not_mem_reprItems : ∀ vs : List PyValue,
    Char.ofNat 0 ∉ PyValue.reprItems printable vs := by
  intro vs
  match vs with
  | [] => rw [PyValue.reprItems]; decide
  | v :: vs =>
    have hv := PyValue.nul_not_mem_repr v
    have hvs := PyValue.nul_not_mem_reprItems vs
    rw [PyValue.reprItems, List.mem_cons, List.mem_cons, List.mem_append]
    rintro (h | h | h | h)
    · revert h
      decide
    · revert h
      decide
    · exact hv h
    · exact hvs h

end

/-! ## Values behind one another -/

/-- The `repr`s of some values, each behind a NUL. -/
def reprFields (vs : List PyValue) : Text := vs.flatMap fun v => Char.ofNat 0 :: v.repr printable

/-- What stands before a NUL in a text is told by the text. -/
theorem nul_split : ∀ {a b x y : Text}, Char.ofNat 0 ∉ a → Char.ofNat 0 ∉ b →
    a ++ Char.ofNat 0 :: x = b ++ Char.ofNat 0 :: y → a = b ∧ x = y := by
  intro a
  induction a with
  | nil =>
    intro b x y _ hb h
    cases b with
    | nil => exact ⟨rfl, (List.cons.inj h).2⟩
    | cons c b => exact absurd (List.cons.inj h).1 fun hc => hb (hc ▸ List.mem_cons_self)
  | cons c a ih =>
    intro b x y ha hb h
    cases b with
    | nil => exact absurd (List.cons.inj h).1.symm fun hc => ha (hc ▸ List.mem_cons_self)
    | cons d b =>
      obtain ⟨hhead, htail⟩ := List.cons.inj h
      obtain ⟨hab, hxy⟩ := ih (fun hm => ha (List.mem_cons_of_mem _ hm))
        (fun hm => hb (List.mem_cons_of_mem _ hm)) htail
      exact ⟨by rw [hhead, hab], hxy⟩

theorem repr_injective {v w : PyValue} (h : v.repr printable = w.repr printable) : v = w :=
  (v.repr_read printable w ends_nil ends_nil (by rw [h])).1

/-- **Fields that a NUL keeps apart can be read back**, the first and all behind it. -/
theorem reprFields_injective : ∀ {vs ws : List PyValue} {v w : PyValue}, vs.length = ws.length →
    v.repr printable ++ reprFields printable vs = w.repr printable ++ reprFields printable ws →
    v = w ∧ vs = ws := by
  intro vs
  induction vs with
  | nil =>
    intro ws v w hlen h
    obtain rfl : ws = [] := List.length_eq_zero_iff.mp hlen.symm
    simp only [reprFields, List.flatMap_nil, List.append_nil] at h
    exact ⟨repr_injective printable h, rfl⟩
  | cons u vs ih =>
    intro ws v w hlen h
    cases ws with
    | nil => cases hlen
    | cons z ws =>
      simp only [reprFields, List.flatMap_cons, List.cons_append] at h
      obtain ⟨hv, hrest⟩ := nul_split (v.nul_not_mem_repr printable) (w.nul_not_mem_repr printable) h
      obtain ⟨hu, hvs⟩ := ih (Nat.succ.inj hlen) hrest
      exact ⟨repr_injective printable hv, by rw [hu, hvs]⟩

example : (PyValue.tuple [.str "it's".toList, .tuple [.none], .int (-12), .bool true]).repr (fun _ => true) =
    "(\"it's\", (None,), -12, True)".toList := by
  simp [PyValue.repr, PyValue.reprItems, reprText, quoteFor, escape, reprInt, decimal]

end

end XrdClient.Lib
