/-
  Proto/Cursor.lean --- the reading cursor, step by step, with everything it could raise.

  Source: `proto/buffer.py`, `Reader`.

  `Wire` has the cursor as far as it returns or raises a `ProtocolError`.  Here it is a state
  that a read moves, and a field of the wrong width is what `struct` would make of it, so
  that what a read leaves behind and what it cannot raise are statements (`view_spec`).
-/
import XrdClient.Lib.Act
import XrdClient.Proto.Wire

set_option autoImplicit false

namespace XrdClient.Proto

open XrdClient.Lib

/-- What a decoder could raise. -/
inductive DecodeFault where
  | protocol (error : ProtocolError)
  | unsupported
  /-- `ValueError`. -/
  | value
  /-- `IndexError`. -/
  | index
  /-- `struct.error`. -/
  | struct
  /-- `TypeError`. -/
  | type
  /-- A loop that does not end. -/
  | never
  deriving DecidableEq

/-- It is a `ProtocolError`. -/
def DecodeFault.IsProtocol : DecodeFault → Prop
  | .protocol _ => True
  | _ => False

namespace Cursor

abbrev Op (α : Type) : Type := Act Reader DecodeFault α

def refuse {α : Type} (e : ProtocolError) : Op α := Act.throw (.protocol e)

/-- `remaining`. -/
def remaining : Op Int := do
  let r ← Act.get
  pure ((r.buf.length : Int) - r.pos)

/-- `_take`, and `view` and `bytes`. -/
def view (n : Int) : Op Bytes := do
  let r ← Act.get
  if n < 0 then refuse (.negativeRead r.what n)
  else if r.buf.length < r.pos + n.toNat then
    refuse (.truncated r.what n.toNat r.pos (r.buf.length - r.pos))
  else do
    Act.modify fun r => { r with pos := r.pos + n.toNat }
    pure ((r.buf.drop r.pos).take n.toNat)

/-- `_unpack`, of a number of `width` bytes. -/
def unpack (width : Nat) : Op Nat := do
  let bs ← view width
  if bs.length = width then pure (beNat bs) else Act.throw .struct

def u8 : Op Nat := unpack 1
def u16 : Op Nat := unpack 2
def u32 : Op Nat := unpack 4
def u64 : Op Nat := unpack 8

/-- `_unpack`, of a signed one. -/
def unpackSigned (width : Nat) : Op Int := do
  let n ← unpack width
  pure (signed (8 * width) n)

def i16 : Op Int := unpackSigned 2
def i32 : Op Int := unpackSigned 4
def i64 : Op Int := unpackSigned 8

/-- `rest`. -/
def rest : Op Bytes := do
  let left ← remaining
  view left

/-- `skip`. -/
def skip (n : Int) : Op Unit := do
  let _ ← view n
  pure ()

/-- `cstring`: a field of a width, or up to the next NUL. -/
def cstring (width : Option Int) : Op Text :=
  match width with
  | some n => do
      let raw ← view n
      pure (decodeReplace (untilNul raw))
  | none => do
      let r ← Act.get
      let tail := r.buf.drop r.pos
      let text := untilNul tail
      Act.modify fun r => { r with
        pos := r.pos + if text.length = tail.length then tail.length else text.length + 1 }
      pure (decodeReplace text)

/-! ## What a read does -/

/-- Inside `data`, at `p` or behind it. -/
def At (data : Bytes) (p : Nat) (r : Reader) : Prop := r.buf = data ∧ p ≤ r.pos ∧ r.pos ≤ data.length

/-- From a place at `p`, the program comes to one at `q` with what `Q` says; or it raises a
`ProtocolError`, inside `data` still. -/
def Reads {α : Type} (data : Bytes) (p q : Nat) (x : Op α) (Q : α → Prop) : Prop :=
  Act.Spec (At data p) x (fun a r => At data q r ∧ Q a) fun e r => At data p r ∧ e.IsProtocol

section

variable {α β : Type} {data : Bytes} {p q m : Nat} {Q Q' : α → Prop} {R : β → Prop}

theorem At.weaken {r : Reader} (h : At data q r) (hpq : p ≤ q) : At data p r :=
  ⟨h.1, Nat.le_trans hpq h.2.1, h.2.2⟩

theorem Reads.pure {a : α} (h : Q a) : Reads data p p (pure a) Q := Act.Spec.pure _ fun _ hs => ⟨hs, h⟩

theorem Reads.refuse (e : ProtocolError) : Reads data p q (refuse e : Op α) Q :=
  Act.Spec.throw _ fun _ hs => ⟨hs, trivial⟩

theorem Reads.bind {x : Op α} {f : α → Op β} (hx : Reads data p q x Q) (hpq : p ≤ q)
    (hf : ∀ a, Q a → Reads data q m (f a) R) : Reads data p m (x >>= f) R := by
  refine Act.Spec.bind hx fun a => Act.Spec.of_each fun r hr => ?_
  exact (hf a hr.2).conseq (fun s hs => hs ▸ hr.1) (fun _ _ hs => hs) fun _ _ hs => ⟨hs.1.weaken hpq, hs.2⟩

theorem Reads.ite {c : Prop} [Decidable c] {x y : Op α} (hx : c → Reads data p q x Q)
    (hy : ¬ c → Reads data p q y Q) : Reads data p q (if c then x else y) Q := Act.Spec.ite hx hy

theorem Reads.imp {x : Op α} (hx : Reads data p q x Q) (h : ∀ a, Q a → Q' a) :
    Reads data p q x Q' := hx.conseq (fun _ hs => hs) (fun a _ hs => ⟨hs.1, h a hs.2⟩) fun _ _ hs => hs

/-- No place is lost by going further than needed. -/
theorem Reads.weaken {x : Op α} (hx : Reads data p q x Q) (h : m ≤ q) : Reads data p m x Q :=
  hx.conseq (fun _ hs => hs) (fun _ _ hs => ⟨hs.1.weaken h, hs.2⟩) fun _ _ hs => hs

end

section

variable {data : Bytes} {p : Nat}

/-- A read of `n` bytes gives a piece of the body that long, or raises where it is. -/
theorem view_cases (n : Int) (r : Reader) : (∃ e, view n r = (.error (.protocol e), r)) ∨
    0 ≤ n ∧ r.pos + n.toNat ≤ r.buf.length ∧
      view n r = (.ok ((r.buf.drop r.pos).take n.toNat), { r with pos := r.pos + n.toNat }) := by
  rw [view, Act.bind_of_ok (show Act.get r = (.ok r, r) from rfl)]
  by_cases hneg : n < 0
  · rw [if_pos hneg]
    exact .inl ⟨_, rfl⟩
  by_cases hlong : r.buf.length < r.pos + n.toNat
  · rw [if_neg hneg, if_pos hlong]
    exact .inl ⟨_, rfl⟩
  · rw [if_neg hneg, if_neg hlong]
    exact .inr ⟨Int.not_lt.mp hneg, Nat.not_lt.mp hlong, rfl⟩

theorem view_spec (n : Int) :
    Reads data p (p + n.toNat) (view n) fun bs => bs <:+: data ∧ bs.length = n.toNat := by
  intro r hr
  obtain ⟨e, heq⟩ | ⟨-, hle, heq⟩ := view_cases n r <;> rw [heq]
  · exact ⟨hr, trivial⟩
  · obtain ⟨rfl, hp, hend⟩ := hr
    refine ⟨⟨rfl, Nat.add_le_add_right hp _, hle⟩, ?_, ?_⟩
    · exact (List.take_prefix _ _).isInfix.trans (List.drop_suffix _ _).isInfix
    · rw [List.length_take, List.length_drop]
      omega

/-- A number is that of a field of the body: `struct` is never given another width. -/
theorem unpack_spec (width : Nat) : Reads data p (p + width) (unpack width) fun n =>
    ∃ bs, bs <:+: data ∧ bs.length = width ∧ n = beNat bs := by
  refine Reads.bind (view_spec width) (Nat.le_add_right _ _) fun bs hbs => ?_
  have hwidth : bs.length = width := hbs.2
  exact Reads.ite (fun _ => Reads.pure ⟨bs, hbs.1, hwidth, rfl⟩) fun hno => absurd hwidth hno

theorem unpackSigned_spec (width : Nat) : Reads data p (p + width) (unpackSigned width) fun n =>
    ∃ bs, bs <:+: data ∧ bs.length = width ∧ n = signed (8 * width) (beNat bs) := by
  refine Reads.bind (unpack_spec width) (Nat.le_add_right _ _) fun n hn => Reads.pure ?_
  obtain ⟨bs, hinside, hwidth, rfl⟩ := hn
  exact ⟨bs, hinside, hwidth, rfl⟩

theorem remaining_spec : Act.Spec (At data p) remaining
    (fun left r => At data p r ∧ left = (data.length : Int) - r.pos) fun _ _ => False := by
  rintro r ⟨rfl, hr⟩
  exact ⟨⟨rfl, hr⟩, rfl⟩

/-- What is left is there to be read. -/
theorem rest_spec : Reads data p p rest fun bs => bs <:+: data := by
  refine Act.Spec.bind (remaining_spec.conseq (fun _ hs => hs) (fun _ _ hs => hs) fun _ _ hs => hs.elim)
    fun left => Act.Spec.of_each fun r hr => ?_
  refine (view_spec left).conseq (fun s hs => hs ▸ hr.1) (fun bs s hs => ?_) fun _ _ hs => hs
  exact ⟨hs.1.weaken (Nat.le_add_right _ _), hs.2.1⟩

theorem prefix_untilNul (bs : Bytes) : untilNul bs <+: bs := List.takeWhile_prefix _

theorem cstring_spec (width : Option Int) : Reads data p p (cstring width) fun text =>
    ∃ bs, bs <:+: data ∧ text = decodeReplace bs := by
  cases width with
  | some n =>
    refine Reads.bind ((view_spec n).weaken (Nat.le_add_right _ _)) (Nat.le_refl _) fun raw hraw =>
      Reads.pure ⟨untilNul raw, (prefix_untilNul raw).isInfix.trans hraw.1, rfl⟩
  | none =>
    rintro r ⟨rfl, hp, hend⟩
    have htext := (prefix_untilNul (r.buf.drop r.pos)).length_le
    have htail : (r.buf.drop r.pos).length = r.buf.length - r.pos := List.length_drop
    refine ⟨⟨rfl, Nat.le_trans hp (Nat.le_add_right _ _), ?_⟩, untilNul (r.buf.drop r.pos),
      (prefix_untilNul _).isInfix.trans (List.drop_suffix _ _).isInfix, rfl⟩
    show r.pos + _ ≤ r.buf.length
    split <;> omega

end

/-! ## Every read -/

/-- A read of a `Reader`. -/
inductive ReadOp where
  | u8 | u16 | i16 | u32 | i32 | u64 | i64
  | bytes (n : Int)
  | view (n : Int)
  | rest
  | skip (n : Int)
  | cstring (width : Option Int)
  deriving DecidableEq

/-- A read, whatever it returns. -/
def ReadOp.run : ReadOp → Op Unit
  | .u8 => do let _ ← Cursor.u8; pure ()
  | .u16 => do let _ ← Cursor.u16; pure ()
  | .i16 => do let _ ← Cursor.i16; pure ()
  | .u32 => do let _ ← Cursor.u32; pure ()
  | .i32 => do let _ ← Cursor.i32; pure ()
  | .u64 => do let _ ← Cursor.u64; pure ()
  | .i64 => do let _ ← Cursor.i64; pure ()
  | .bytes n => do let _ ← Cursor.view n; pure ()
  | .view n => do let _ ← Cursor.view n; pure ()
  | .rest => do let _ ← Cursor.rest; pure ()
  | .skip n => Cursor.skip n
  | .cstring width => do let _ ← Cursor.cstring width; pure ()

/-- The reader behind some reads, each caught where it raises. -/
def reached (r : Reader) (ops : List ReadOp) : Reader := ops.foldl (fun r op => (op.run r).2) r

/-- A read that raises leaves the cursor where it is, and raises a `ProtocolError`. -/
def Stays {α : Type} (x : Op α) : Prop :=
  ∀ r : Reader, r.pos ≤ r.buf.length → ∀ e r', x r = (.error e, r') → r' = r ∧ e.IsProtocol

section

variable {α β : Type}

/-- What comes behind a read, and does not raise, does not change that. -/
theorem Stays.bind_ok {x : Op α} (hx : Stays x) (g : α → β) : Stays (do let a ← x; pure (g a)) := by
  intro r hr e r' h
  rcases heq : x r with ⟨e' | a, s⟩
  · rw [Act.bind_of_error heq] at h
    cases h
    exact hx r hr _ _ heq
  · rw [Act.bind_of_ok heq] at h
    cases h

theorem stays_view (n : Int) : Stays (view n) := by
  intro r _ e r' h
  obtain ⟨e', heq⟩ | ⟨-, -, heq⟩ := view_cases n r
  · rw [heq] at h
    cases h
    exact ⟨rfl, trivial⟩
  · rw [heq] at h
    cases h

theorem stays_unpack (width : Nat) : Stays (unpack width) := by
  intro r hr e r' h
  obtain ⟨e', heq⟩ | ⟨-, hle, heq⟩ := view_cases width r
  · rw [unpack, Act.bind_of_error heq] at h
    cases h
    exact ⟨rfl, trivial⟩
  · have hwidth : ((r.buf.drop r.pos).take (width : Int).toNat).length = width := by
      rw [List.length_take, List.length_drop]
      omega
    rw [unpack, Act.bind_of_ok heq, if_pos hwidth] at h
    cases h

theorem stays_unpackSigned (width : Nat) : Stays (unpackSigned width) := (stays_unpack width).bind_ok _

theorem stays_rest : Stays rest := fun r hr e r' h => stays_view _ r hr e r' h

theorem stays_cstring (width : Option Int) : Stays (cstring width) := by
  cases width with
  | some n => exact (stays_view n).bind_ok _
  | none => rintro r _ e r' ⟨⟩

end

theorem ReadOp.stays (op : ReadOp) : Stays op.run := by
  cases op with
  | u8 | u16 | u32 | u64 => exact (stays_unpack _).bind_ok _
  | i16 | i32 | i64 => exact (stays_unpackSigned _).bind_ok _
  | bytes n | view n | skip n => exact (stays_view n).bind_ok _
  | rest => exact stays_rest.bind_ok _
  | cstring width => exact (stays_cstring width).bind_ok _

theorem ReadOp.reads (op : ReadOp) (data : Bytes) (p : Nat) : Reads data p p op.run fun _ => True := by
  have hok : ∀ {α : Type} {q : Nat} {x : Op α} {Q : α → Prop}, p ≤ q → Reads data p q x Q →
      Reads data p p (do let _ ← x; Pure.pure ()) fun _ => True := fun hpq hx =>
    Reads.bind (hx.weaken hpq) (Nat.le_refl _) fun _ _ => Reads.pure trivial
  cases op with
  | u8 | u16 | u32 | u64 => exact hok (Nat.le_add_right _ _) (unpack_spec _)
  | i16 | i32 | i64 => exact hok (Nat.le_add_right _ _) (unpackSigned_spec _)
  | bytes n | view n | skip n => exact hok (Nat.le_add_right _ _) (view_spec n)
  | rest => exact hok (Nat.le_refl _) rest_spec
  | cstring width => exact hok (Nat.le_refl _) (cstring_spec width)

/-- After any reads, the cursor is inside the body. -/
theorem reached_inside (ops : List ReadOp) : ∀ {data : Bytes} {r : Reader}, At data 0 r →
    At data 0 (reached r ops) := by
  induction ops with
  | nil => exact fun hr => hr
  | cons op rest ih =>
    intro data r hr
    refine ih (Act.Spec.state ((op.reads data 0).conseq (fun _ hs => hs) (fun _ _ hs => hs.1)
      fun _ _ hs => hs.1) hr)

end Cursor

end XrdClient.Proto
