/-
  Client/VectorCodec.lean --- the fast readv codec beside the one of the protocol layer.

  Source: `_PackedReadV` and `_walk` of `client/_vector.py`; `parse_readv` of
  `proto/responses.py`; `reply_cap` of `proto/frames.py` and `_requests_io.py`.

  THE REPLY.  `_walk` unpacks a header of sixteen bytes where it lies; `parse_readv` reads
  it field by field through a cursor.  Where a header is cut off, the one looks at what is
  left and the other fails at the field that is short, so they raise different messages at
  the same bodies.

  THE REQUEST.  One call of `struct` for all elements, and a writer that takes field after
  field.
-/
import XrdClient.Client.Fanout
import XrdClient.Crypto.Pages
import XrdClient.Proto.Decoders
import XrdClient.Proto.OneFormat

set_option autoImplicit false

namespace XrdClient.Client

open XrdClient.Lib
open XrdClient.Proto
open XrdClient.Proto.Cursor
open XrdClient.Proto.Decoders
open XrdClient.Proto.Encoders
open XrdClient.Crypto (kXR_pgPageSZ kXR_pgUnitSZ PgWrite.replyCap)

/-! ## The reply, walked -/

/-- `_READ_LIST.size` -/
def READ_LIST_SIZE : Nat := 16

/-- The `ProtocolError`s of `_walk`. -/
inductive WalkError where
  /-- The reply ends with `left` bytes of a segment header. -/
  | header (left : Nat)
  | negative (length : Int)
  /-- The segment at `offset` declares `length` bytes, and the reply has `left`. -/
  | segment (offset length : Int) (left : Nat)
  deriving DecidableEq

/-- The rest of `_walk`, from `pos` on: what it yields, and what it raises then. -/
def walkFrom (body : Bytes) (pos : Nat) : List (Int × Bytes) × Option WalkError :=
  if pos < body.length then
    if body.length - pos < READ_LIST_SIZE then ([], some (.header (body.length - pos)))
    else
      let length := signed 32 (beNat (slice body (pos + 4) 4))
      let offset := signed 64 (beNat (slice body (pos + 8) 8))
      let start := pos + READ_LIST_SIZE
      if length < 0 then ([], some (.negative length))
      else if body.length < start + length then ([], some (.segment offset length (body.length - start)))
      else
        let (segments, raised) := walkFrom body (start + length.toNat)
        ((offset, slice body start length.toNat) :: segments, raised)
  else ([], none)
termination_by body.length - pos
decreasing_by simp only [READ_LIST_SIZE]; omega

/-- `_walk` -/
def walk (body : Bytes) : List (Int × Bytes) × Option WalkError := walkFrom body 0

/-! ## The reply, read field by field -/

section

variable {r : Reader}

/-- A read of what is there. -/
theorem view_of_le {n : Nat} (h : r.pos + n ≤ r.buf.length) :
    view (n : Int) r = (.ok (slice r.buf r.pos n), { r with pos := r.pos + n }) := by
  have hin : ¬ r.buf.length < r.pos + (n : Int).toNat := Nat.not_lt.mpr h
  rw [view, Act.bind_of_ok (show Act.get r = (.ok r, r) from rfl), if_neg (Int.not_lt.mpr (Int.natCast_nonneg n)),
    if_neg hin]
  rfl

/-- A read of more than is there. -/
theorem view_of_lt {n : Nat} (h : r.buf.length < r.pos + n) : ∃ e, view (n : Int) r = (.error (.protocol e), r) := by
  obtain ⟨e, heq⟩ | ⟨-, hle, -⟩ := view_cases (n : Int) r
  · exact ⟨e, heq⟩
  · exact absurd hle (Nat.not_le.mpr h)

theorem unpackSigned_of_le {width : Nat} (h : r.pos + width ≤ r.buf.length) : unpackSigned width r
    = (.ok (signed (8 * width) (beNat (slice r.buf r.pos width))), { r with pos := r.pos + width }) := by
  have hlen : (slice r.buf r.pos width).length = width := by
    rw [length_slice]
    omega
  rw [unpackSigned, unpack, Act.bind_of_ok (a := beNat (slice r.buf r.pos width))]
  · rfl
  · rw [Act.bind_of_ok (view_of_le h), if_pos hlen]
    rfl

theorem unpackSigned_of_lt {width : Nat} (h : r.buf.length < r.pos + width) :
    ∃ e, unpackSigned width r = (.error (.protocol e), r) := by
  obtain ⟨e, heq⟩ := view_of_lt h
  exact ⟨e, by rw [unpackSigned, unpack, Act.bind_of_error (Act.bind_of_error heq _)]⟩

/-- A header that is cut off fails at the field that is short. -/
theorem segment_of_lt (h : r.buf.length < r.pos + READ_LIST_SIZE) :
    ∃ e s, segment r = (.error (.protocol e), s) := by
  have hsize : READ_LIST_SIZE = 4 + 4 + 8 := rfl
  by_cases hhandle : r.pos + 4 ≤ r.buf.length
  · have hfhandle := view_of_le hhandle
    by_cases hlength : r.pos + 4 + 4 ≤ r.buf.length
    · have hi32 := @unpackSigned_of_le { r with pos := r.pos + 4 } 4 hlength
      have hshort : r.buf.length < r.pos + 4 + 4 + 8 := by omega
      obtain ⟨e, hi64⟩ := @unpackSigned_of_lt { r with pos := r.pos + 4 + 4 } 8 hshort
      refine ⟨e, { r with pos := r.pos + 4 + 4 }, (Act.bind_of_ok hfhandle _).trans ((Act.bind_of_ok hi32 _).trans ?_)⟩
      exact Act.bind_of_error hi64 _
    · have hshort : r.buf.length < r.pos + 4 + 4 := Nat.not_le.mp hlength
      obtain ⟨e, hi32⟩ := @unpackSigned_of_lt { r with pos := r.pos + 4 } 4 hshort
      exact ⟨e, _, (Act.bind_of_ok hfhandle _).trans (Act.bind_of_error hi32 _)⟩
  · obtain ⟨e, hfhandle⟩ := view_of_lt (Nat.not_le.mp hhandle)
    exact ⟨e, _, Act.bind_of_error hfhandle _⟩

/-- Behind a whole header, the segment it declares. -/
theorem segment_of_le {length offset : Int} (h : r.pos + READ_LIST_SIZE ≤ r.buf.length)
    (hlength : signed 32 (beNat (slice r.buf (r.pos + 4) 4)) = length)
    (hoffset : signed 64 (beNat (slice r.buf (r.pos + 8) 8)) = offset) :
    segment r = (if length < 0 then refuse (.negativeSegment length)
      else do
        let data ← view length
        pure ⟨slice r.buf r.pos 4, offset, data⟩ : Op ReadVSegment) { r with pos := r.pos + READ_LIST_SIZE } := by
  subst hlength hoffset
  have hsize : READ_LIST_SIZE = 4 + 4 + 8 := rfl
  have hfhandle := @view_of_le r 4 (by omega)
  have hi32 := @unpackSigned_of_le { r with pos := r.pos + 4 } 4 (by simp only; omega)
  have hi64 := @unpackSigned_of_le { r with pos := r.pos + 4 + 4 } 8 (by simp only; omega)
  exact (Act.bind_of_ok hfhandle _).trans ((Act.bind_of_ok hi32 _).trans (Act.bind_of_ok hi64 _))

end

/-- What the walker came to, beside what the parser did, which had `out` already: the same
segments, or an error each. -/
def Agrees (out : List ReadVSegment) (walked : List (Int × Bytes) × Option WalkError)
    (parsed : Result (List ReadVSegment)) : Prop :=
  match walked.2 with
  | none => ∃ segments, parsed = .ok (out ++ segments) ∧ segments.map (fun s => (s.offset, s.data)) = walked.1
  | some _ => ∃ e, parsed = .error (.protocol e)

/-- One segment more, on both sides. -/
theorem Agrees.cons {out : List ReadVSegment} {segment : ReadVSegment}
    {walked : List (Int × Bytes) × Option WalkError} {parsed : Result (List ReadVSegment)}
    (h : Agrees (out ++ [segment]) walked parsed) :
    Agrees out ((segment.offset, segment.data) :: walked.1, walked.2) parsed := by
  obtain ⟨segments, raised⟩ := walked
  cases raised with
  | none =>
    obtain ⟨more, hparsed, hmore⟩ := h
    exact ⟨segment :: more, by rw [hparsed, List.append_assoc, List.singleton_append],
      congrArg ((segment.offset, segment.data) :: ·) hmore⟩
  | some e => exact h

/-- From any place on, the loop of the parser and the walker agree. -/
theorem agrees_from (body : Bytes) (fuel : Nat) : ∀ (pos : Nat) (out : List ReadVSegment), pos ≤ body.length →
    body.length - pos < fuel →
    Agrees out (walkFrom body pos) (whileRemaining segment fuel out ⟨body, pos, .readv⟩).1 := by
  induction fuel with
  | zero => exact fun pos out _ h => absurd h (Nat.not_lt_zero _)
  | succ fuel ih =>
    intro pos out hpos hfuel
    rw [walkFrom, whileRemaining, Act.bind_of_ok (show remaining ⟨body, pos, .readv⟩ = _ from rfl)]
    by_cases hmore : pos < body.length
    · have hsome : ¬ (body.length : Int) - pos = 0 := by omega
      rw [if_pos hmore, if_neg hsome]
      by_cases hheader : body.length - pos < READ_LIST_SIZE
      · rw [if_pos hheader]
        obtain ⟨e, s, heq⟩ := segment_of_lt (r := ⟨body, pos, .readv⟩) (by simp only; omega)
        exact ⟨e, by rw [Act.bind_of_error heq]⟩
      · rw [if_neg hheader]
        generalize hlength : signed 32 (beNat (slice body (pos + 4) 4)) = length
        generalize hoffset : signed 64 (beNat (slice body (pos + 8) 8)) = offset
        have hread := segment_of_le (r := ⟨body, pos, .readv⟩) (by simp only; omega) hlength hoffset
        simp only
        by_cases hneg : length < 0
        · rw [if_pos hneg] at hread ⊢
          exact ⟨_, by rw [Act.bind_of_error hread]⟩
        rw [if_neg hneg] at hread ⊢
        obtain ⟨n, rfl⟩ := Int.eq_ofNat_of_zero_le (Int.not_lt.mp hneg)
        by_cases hlong : body.length < pos + READ_LIST_SIZE + n
        · obtain ⟨e, hview⟩ := view_of_lt (r := ⟨body, pos + READ_LIST_SIZE, .readv⟩) hlong
          rw [if_pos (by omega)]
          exact ⟨e, by rw [Act.bind_of_error (hread.trans (Act.bind_of_error hview _))]⟩
        · have hview := view_of_le (r := ⟨body, pos + READ_LIST_SIZE, .readv⟩) (Nat.not_lt.mp hlong)
          rw [if_neg (by omega), Act.bind_of_ok (hread.trans (Act.bind_of_ok hview _))]
          refine @Agrees.cons _ ⟨slice body pos 4, offset, slice body (pos + READ_LIST_SIZE) n⟩ _ _ ?_
          have hsize : READ_LIST_SIZE = 16 := rfl
          exact ih _ _ (Nat.not_lt.mp hlong) (by omega)
    · have hnone : (body.length : Int) - pos = 0 := by omega
      rw [if_neg hmore, if_pos hnone]
      exact ⟨[], by rw [List.append_nil]; rfl, rfl⟩

/-! ## The request -/

/-- `READ_LIST_ENTRY_LEN` -/
def READ_LIST_ENTRY_LEN : Nat := 16

/-- The `reply_cap` a class body writes, if it writes one. -/
def ownReplyCap : Cls → Option (Fields → Option Int)
  | .request => some fun _ => some 0
  | .read => some fun
      | .read _ _ length _ => some length
      | _ => none
  | .readV => some fun
      | .readV chunks _ => some (READ_LIST_ENTRY_LEN * chunks.length + (chunks.map fun chunk => chunk.2.2).sum)
      | _ => none
  | .pgRead => some fun
      | .pgRead _ offset length _ _ =>
          some (length + (kXR_pgUnitSZ - kXR_pgPageSZ : Nat) * ceilDiv (offset % kXR_pgPageSZ + length) kXR_pgPageSZ)
      | _ => none
  | .pgWrite => some fun
      | .pgWrite _ _ data _ _ => some (PgWrite.replyCap data)
      | _ => none
  | _ => none

/-- `reply_cap()`: that of the class, or of its base. -/
def replyCap (c : Cls) (fields : Fields) : Option Int :=
  match ownReplyCap c with
  | some cap => cap fields
  | none =>
    match ownReplyCap c.base with
    | some cap => cap fields
    | none => none

/-- An item that takes an argument, and those behind it. -/
theorem pack_cons {item : Item} (h : ∀ n, item ≠ .x n) (format : List Item) (arg : Arg) (args : List Arg) :
    pack (item :: format) (arg :: args) = match item.pack arg, pack format args with
      | some b, some rest => some (b ++ rest)
      | _, _ => none := by
  cases item with
  | x n => exact absurd rfl (h n)
  | _ => rfl

theorem field_pack (w : Writer) {item : Item} (h : ∀ n, item ≠ .x n) (format : List Item) (arg : Arg)
    (args : List Arg) :
    w.field (pack (item :: format) (arg :: args)) = (w.field (item.pack arg)).field (pack format args) := by
  rw [pack_cons h]
  cases w <;> cases item.pack arg <;> cases pack format args <;> simp

/-- The arguments of one element, packed, are the element that the writer writes. -/
theorem field_pack_element (w : Writer) {chunk : Blob × Int × Int} (h : chunk.1.packable = true)
    (format : List Item) (args : List Arg) :
    w.field (pack ([.s 4, .i, .q] ++ format) ([.blob chunk.1, .int chunk.2.2, .int chunk.2.1] ++ args))
      = (readElement w chunk).field (pack format args) := by
  have hhandle : Item.pack (.s 4) (.blob chunk.1) = chunk.1.raw.map (Proto.padded · 4) := if_pos h
  simp only [List.cons_append, List.nil_append]
  rw [@field_pack w (.s 4) nofun, @field_pack _ .i nofun, @field_pack _ .q nofun, hhandle]
  rfl

theorem pack_elements (chunks : List (Blob × Int × Int)) (h : ∀ chunk ∈ chunks, chunk.1.packable = true) (w : Writer) :
    w.field (pack (chunks.flatMap fun _ => [.s 4, .i, .q])
      (chunks.flatMap fun chunk => [.blob chunk.1, .int chunk.2.2, .int chunk.2.1])) = chunks.foldl readElement w := by
  induction chunks generalizing w with
  | nil =>
    cases w with
    | none => rfl
    | some written => exact congrArg some (List.append_nil written)
  | cons chunk chunks ih =>
    obtain ⟨hchunk, hchunks⟩ := List.forall_mem_cons.mp h
    rw [List.flatMap_cons, List.flatMap_cons, field_pack_element w hchunk, ih hchunks, List.foldl_cons]

/-- The two readv codecs agree: over every body, the walker and `parse_readv` come to the same
segments or raise a `ProtocolError` each; and over every list of elements, the packed request
and the one written field by field have one payload, or neither has one, and one cap. -/
theorem codecs_agree :
    (∀ body : Bytes,
      (∃ segments, parseReadv body = .ok segments ∧
        walk body = (segments.map fun segment => (segment.offset, segment.data), none)) ∨
      ∃ e segments e', parseReadv body = .error (.protocol e) ∧ walk body = (segments, some e')) ∧
    ∀ (elements : List (Bytes × Int × Int)) (pathid : Int),
      let fields : Fields := .readV (elements.map fun element => (.bytes element.1, element.2)) pathid
      payload .packedReadV fields = payload .readV fields ∧ replyCap .packedReadV fields = replyCap .readV fields := by
  constructor
  · intro body
    have hagrees : Agrees [] (walk body) (parseReadv body) :=
      agrees_from body (body.length + 1) 0 [] (Nat.zero_le _) (by omega)
    rcases hwalk : walk body with ⟨segments, _ | e'⟩
    · rw [hwalk] at hagrees
      obtain ⟨parsed, hparsed, rfl⟩ := hagrees
      exact .inl ⟨parsed, hparsed, rfl⟩
    · rw [hwalk] at hagrees
      obtain ⟨e, hparsed⟩ := hagrees
      exact .inr ⟨e, segments, e', hparsed, rfl⟩
  · intro elements pathid fields
    refine ⟨?_, rfl⟩
    have hpackable : ∀ chunk ∈ elements.map fun element => (Blob.bytes element.1, element.2),
        chunk.1.packable = true := by
      intro chunk h
      obtain ⟨element, -, rfl⟩ := List.mem_map.mp h
      rfl
    have hpack := pack_elements _ hpackable Writer.new
    simp only [payload, fields]
    rw [← hpack]
    cases pack _ _ <;> rfl

end XrdClient.Client
