/-
  Proto/Inside.lean --- what is in a body, and how a decoder ends.

  `Spelled`, `Counted` and `Field` say how a text or a number of a result is in the bytes it
  was made of.  `Ends` is the triple of a decoder that reads no cursor: what it returns, or
  what it raises.  The rules that `Hostile` puts every decoder together from are here; the
  one with an argument in it is that a loop which is told to go on while bytes are left, and
  reads one at least, ends (`whileRemaining_spec`).
-/
import XrdClient.Proto.Decoders
import XrdClient.Lib.Pieces

set_option autoImplicit false

namespace XrdClient.Proto.Decoders

open XrdClient.Lib
open XrdClient.Proto.Cursor
open XrdClient.Client.Batches (StatInfo DirEntry words linesOf cksumToken joined rstrip)

/-! ## What a body holds -/

/-- A text the body spells, or part of it does. -/
def Spelled (data : Bytes) (text : Text) : Prop := ∃ bs, bs <:+: data ∧ text <:+: decodeReplace bs

/-- A number in `width` bytes of the body. -/
def Field (data : Bytes) (width n : Nat) : Prop :=
  ∃ bs, bs <:+: data ∧ bs.length = width ∧ n = beNat bs

/-- A signed one. -/
def SignedField (data : Bytes) (width : Nat) (n : Int) : Prop :=
  ∃ bs, bs <:+: data ∧ bs.length = width ∧ n = signed (8 * width) (beNat bs)

/-- A number the body spells. -/
def Counted (int : Text → Option Int) (data : Bytes) (n : Int) : Prop :=
  ∃ text, Spelled data text ∧ int text = some n

/-- A text the body spells, in lower case. -/
def Lowered (lower : Text → Text) (data : Bytes) (text : Text) : Prop :=
  ∃ own, Spelled data own ∧ text = lower own

section

variable {data bs : Bytes} {text part : Text}

theorem Spelled.piece (h : Spelled data text) (hpart : part <:+: text) : Spelled data part := by
  obtain ⟨bs, hbs, htext⟩ := h
  exact ⟨bs, hbs, hpart.trans htext⟩

theorem spelled_decode (h : bs <:+: data) : Spelled data (decodeReplace bs) :=
  ⟨bs, h, List.infix_refl _⟩

theorem spelled_nil : Spelled data [] := ⟨[], List.nil_infix, List.nil_infix⟩

theorem spelled_textOf (h : bs <:+: data) : Spelled data (textOf bs) :=
  spelled_decode ((isInfix_takeWhile _ _).trans h)

theorem isInfix_of_mem_words {word text : Text} (h : word ∈ words text) : word <:+: text :=
  isInfix_of_mem_splitOnP (List.mem_of_mem_filter h)

theorem isInfix_of_mem_linesOf {line text : Text} (h : line ∈ linesOf text) : line <:+: text :=
  isInfix_of_mem_splitOn (List.mem_of_mem_filter h)

end

/-! ## Results -/

/-- It returns what `Q` says, or raises in `E`. -/
def Ends {α : Type} (E : DecodeFault → Prop) (result : Result α) (Q : α → Prop) : Prop :=
  match result with
  | .ok a => Q a
  | .error e => E e

section

variable {α β : Type} {E E' : DecodeFault → Prop} {Q Q' : α → Prop} {R : β → Prop}
  {data : Bytes} {p q : Nat}

theorem Ends.ok {a : α} (h : Q a) : Ends E (.ok a) Q := h

theorem Ends.pure {a : α} (h : Q a) : Ends E (Pure.pure a) Q := h

theorem Ends.raise (e : ProtocolError) : Ends DecodeFault.IsProtocol (raise e) Q := trivial

theorem Ends.bind {x : Result α} {f : α → Result β} (hx : Ends E x Q) (hf : ∀ a, Q a → Ends E (f a) R) :
    Ends E (x >>= f) R := by
  rcases x with e | a
  · exact hx
  · exact hf a hx

theorem Ends.imp {x : Result α} (hx : Ends E x Q) (hE : ∀ e, E e → E' e) (hQ : ∀ a, Q a → Q' a) :
    Ends E' x Q' := by
  rcases x with e | a
  · exact hE e hx
  · exact hQ a hx

theorem Ends.post {x : Result α} (hx : Ends E x Q) (hQ : ∀ a, Q a → Q' a) : Ends E x Q' :=
  hx.imp (fun _ he => he) hQ

theorem Ends.ite {c : Prop} [Decidable c] {x y : Result α} (hx : c → Ends E x Q) (hy : ¬ c → Ends E y Q) :
    Ends E (if c then x else y) Q := by
  split
  · next h => exact hx h
  · next h => exact hy h

/-- What is left of an attempt whose `ValueError` is caught. -/
theorem Ends.exceptValue {x : Result α} (e : ProtocolError)
    (hx : Ends (fun e => e = .value ∨ e.IsProtocol) x Q) :
    Ends DecodeFault.IsProtocol (exceptValue e x) Q := by
  rcases x with e' | a
  · rcases hx with rfl | hprotocol
    · exact trivial
    · cases e' with
      | protocol error => exact trivial
      | _ => exact hprotocol.elim
  · exact hx

theorem Ends.mapM {f : β → Result α} {xs : List β} (h : ∀ x ∈ xs, Ends E (f x) Q) :
    Ends E (xs.mapM f) fun ys => ys.length = xs.length ∧ ∀ y ∈ ys, Q y := by
  induction xs with
  | nil => exact Ends.pure ⟨rfl, nofun⟩
  | cons x xs ih =>
    rw [List.mapM_cons]
    refine Ends.bind (h x List.mem_cons_self) fun y hy => ?_
    refine Ends.bind (ih fun z hz => h z (List.mem_cons_of_mem x hz)) fun ys hys => Ends.pure ?_
    exact ⟨congrArg Nat.succ hys.1, List.forall_mem_cons.mpr ⟨hy, hys.2⟩⟩

theorem item_spec {xs : List α} {i : Nat} (h : i < xs.length) : Ends E (item xs i) (· ∈ xs) := by
  unfold item
  rw [List.getElem?_eq_getElem h]
  exact List.getElem_mem h

theorem Ends.decode {what : What} {program : Op α} (h : Reads data 0 q program Q) :
    Ends DecodeFault.IsProtocol (decode what data program) Q := by
  have hstart : At data 0 ⟨data, 0, what⟩ := ⟨rfl, Nat.le_refl 0, Nat.zero_le _⟩
  have hout := h _ hstart
  unfold Decoders.decode
  rcases heq : program ⟨data, 0, what⟩ with ⟨e | a, r⟩ <;> rw [heq] at hout <;> exact hout.2

/-- A step that reads nothing. -/
theorem reads_ofExcept {x : Result α} (hx : Ends DecodeFault.IsProtocol x Q) :
    Reads data p p (Act.ofExcept x) Q := by
  rcases x with e | a
  · exact Act.Spec.throw _ fun _ hs => ⟨hs, hx⟩
  · exact Reads.pure hx

/-! ## Reads, wherever they leave the cursor -/

/-- A read, and what comes behind it. -/
theorem reads_next {x : Op α} {f : α → Op β} (hx : Reads data p p x Q)
    (hf : ∀ a, Q a → Reads data p p (f a) R) : Reads data p p (x >>= f) R :=
  Reads.bind hx (Nat.le_refl p) hf

/-- Behind the body there is no place to be. -/
theorem reads_behind {x : Op α} (h : data.length < p) : Reads data p q x Q := by
  rintro r ⟨-, hp, hend⟩
  omega

theorem reads_field (width : Nat) : Reads data p p (unpack width) (Field data width) :=
  (unpack_spec width).weaken (Nat.le_add_right p width)

theorem reads_signed (width : Nat) : Reads data p p (unpackSigned width) (SignedField data width) :=
  (unpackSigned_spec width).weaken (Nat.le_add_right p width)

theorem reads_view (n : Int) : Reads data p p (view n) (· <:+: data) :=
  ((view_spec n).weaken (Nat.le_add_right p _)).imp fun _ hbs => hbs.1

theorem reads_cstring (width : Option Int) : Reads data p p (cstring width) (Spelled data) := by
  refine (cstring_spec width).imp fun text htext => ?_
  obtain ⟨bs, hbs, rfl⟩ := htext
  exact spelled_decode hbs

theorem reads_remaining : Reads data p p remaining fun _ => True :=
  remaining_spec.conseq (fun _ hs => hs) (fun _ _ hs => ⟨hs.1, trivial⟩) fun _ _ hs => hs.elim

theorem reads_skip (n : Int) : Reads data p p (skip n) fun _ => True :=
  reads_next (reads_view n) fun _ _ => Reads.pure trivial

/-- A turn that reads something comes to an end, however many bytes are left. -/
theorem whileRemaining_spec {turn : Op α} (hturn : ∀ p, Reads data p (p + 1) turn Q) (fuel : Nat) :
    ∀ (p : Nat) (out : List α), data.length < p + fuel → (∀ x ∈ out, Q x) →
      Reads data p p (whileRemaining turn fuel out) fun xs => ∀ x ∈ xs, Q x := by
  induction fuel with
  | zero => exact fun p out hfuel _ => reads_behind hfuel
  | succ fuel ih =>
    intro p out hfuel hout
    refine reads_next reads_remaining fun left _ => Reads.ite (fun _ => Reads.pure hout) fun _ => ?_
    refine Reads.bind (q := p + 1) (hturn p) (Nat.le_succ p) fun x hx => ?_
    refine (ih (p + 1) (out ++ [x]) (by omega) fun y hy => ?_).weaken (Nat.le_succ p)
    rcases List.mem_append.mp hy with hy | hy
    · exact hout y hy
    · rwa [List.mem_singleton.mp hy]

end

end XrdClient.Proto.Decoders
