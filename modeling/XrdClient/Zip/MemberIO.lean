/-
  Zip/MemberIO.lean --- `io/zip.py`: a read-only view of one ZIP member.

  `ZipMemberIO` is the raw layer over one member: a stored member is ranged out of
  the archive under a running CRC, a deflated one is inflated into a seek cache for
  as far as it has been asked for.  The state is the object's own fields, and every
  method is a program over it that keeps what it had done when it raises.

  zlib is a parameter: `Decoder` is any streaming decoder, and `decompress` is what
  `decompressobj.decompress(data, max_length)` does with it.  The archive is a list
  of bytes behind a `weather` that says how each of the reads of it ends, since a
  raw layer may raise, or give less than it was asked for.

  The inflate loop is given `turns` turns; `Fault.spun` would say that they did not
  suffice, and `inflateTo_not_spun` that they do.
-/
import XrdClient.Lib.Act
import XrdClient.Lib.Crc32
import XrdClient.Lib.Decoder
import XrdClient.Lib.Extent

set_option autoImplicit false

namespace XrdClient.Zip

open XrdClient.Lib

/-- One central directory record. -/
structure ZipMember where
  name : Text
  size : Nat
  compressedSize : Nat
  offset : Nat
  method : Nat
  crc32 : Nat
  flags : Nat
  dataOffset : Nat
  deriving DecidableEq

/-- What the calls on a member raise.  All but the last four are `ZipArchiveError`,
one for each of its texts. -/
inductive Fault where
  | encrypted
  | unsupported (method : Nat)
  | sizesDiffer
  | endedStored
  | incomplete
  | endedCompressed
  | corrupt
  | expands
  | invalid
  | sizeMismatch (expected got : Nat)
  | crcMismatch (expected got : Nat)
  /-- `OSError(22, "negative seek position")`. -/
  | negativeSeek
  /-- `ValueError("invalid whence …")`. -/
  | whence (whence : Int)
  /-- Whatever the read of the archive raised. -/
  | archive
  /-- The loop had more turns to take than it was given. -/
  | spun
  deriving DecidableEq

/-- How one read of the archive ends. -/
inductive Reading where
  | whole
  | part (less : Nat)
  | fails
  deriving DecidableEq

/-- `_STORED`. -/
def stored : Nat := 0

/-- `_DEFLATED`. -/
def deflated : Nat := 8

/-- An archive and a member of it that `ZipMemberIO.__init__` accepts. -/
structure Opened where
  archive : Bytes
  weather : Nat → Reading
  member : ZipMember
  /-- `_ENCRYPTED` is not set. -/
  plain : member.flags % 2 = 0
  supported : member.method = stored ∨ member.method = deflated
  sizes : member.method = stored → member.compressedSize = member.size

/-- `ZipMemberIO.__init__`'s checks. -/
def openMember (archive : Bytes) (weather : Nat → Reading) (member : ZipMember) :
    Except Fault Opened :=
  if hflags : member.flags % 2 = 0 then
    if hmethod : member.method = stored ∨ member.method = deflated then
      if hsizes : member.method = stored ∧ member.compressedSize ≠ member.size then
        .error .sizesDiffer
      else
        .ok ⟨archive, weather, member, hflags, hmethod, fun hstored =>
          Decidable.byContradiction fun hne => hsizes ⟨hstored, hne⟩⟩
    else .error (.unsupported member.method)
  else .error .encrypted

/-- The fields of a `ZipMemberIO`, and how many reads of the archive it has made. -/
structure Handle (ζ : Type) where
  pos : Nat
  verifiedUntil : Nat
  storedCrc : UInt32
  storedSequential : Bool
  inflater : ζ
  /-- `inflater.unused_data`. -/
  unused : Bytes
  compressedAt : Nat
  inflated : Nat
  inflatedCrc : UInt32
  compressedPending : Bytes
  finished : Bool
  cache : Bytes
  asked : Nat

section

variable {ζ : Type} (D : Decoder ζ UInt8 UInt8) (A : Opened)

/-- The fields as `__init__` leaves them. -/
def Handle.new : Handle ζ where
  pos := 0
  verifiedUntil := 0
  storedCrc := 0
  storedSequential := true
  inflater := D.start
  unused := []
  compressedAt := 0
  inflated := 0
  inflatedCrc := 0
  compressedPending := []
  finished := false
  cache := []
  asked := 0

/-- `archive.seek(offset); archive.read(count)`, as the weather has it. -/
def given (reading : Reading) (offset count : Nat) : Except Fault Bytes :=
  match reading with
  | .whole => .ok (slice A.archive offset count)
  | .part less => .ok (slice A.archive offset (min count (less + 1)))
  | .fails => .error .archive

def archiveRead (offset count : Nat) : Act (Handle ζ) Fault Bytes := do
  let h ← Act.get
  Act.modify fun h => { h with asked := h.asked + 1 }
  Act.ofExcept (given A (A.weather h.asked) offset count)

/-- `_verify`. -/
def verify (crc : UInt32) (length : Nat) : Act (Handle ζ) Fault Unit :=
  if length ≠ A.member.size then Act.throw (.sizeMismatch A.member.size length)
  else if crc.toNat ≠ A.member.crc32 then Act.throw (.crcMismatch A.member.crc32 crc.toNat)
  else pure ()

/-- `_read_stored`. -/
def readStored (count : Nat) : Act (Handle ζ) Fault Bytes := do
  let h ← Act.get
  let data ← archiveRead A (A.member.dataOffset + h.pos) count
  if data.length ≠ count then Act.throw .endedStored
  else if h.storedSequential = true ∧ h.pos = h.verifiedUntil then do
    let crc := crc32 data h.storedCrc
    let until_ := h.verifiedUntil + data.length
    Act.modify fun h => { h with storedCrc := crc, verifiedUntil := until_ }
    if until_ = A.member.size then do
      verify A crc until_
      pure data
    else pure data
  else do
    -- A gap or a re-read: the running CRC no longer covers the member in order.
    Act.modify fun h => { h with storedSequential := false }
    pure data

/-- `_next_compressed`. -/
def nextCompressed : Act (Handle ζ) Fault Bytes := do
  let h ← Act.get
  if h.compressedPending ≠ [] then pure h.compressedPending
  else if A.member.compressedSize ≤ h.compressedAt then Act.throw .incomplete
  else do
    let compressed ← archiveRead A (A.member.dataOffset + h.compressedAt)
      (min (2 ^ 20) (A.member.compressedSize - h.compressedAt))
    if compressed = [] then Act.throw .endedCompressed
    else do
      Act.modify fun h => { h with compressedAt := h.compressedAt + compressed.length }
      pure compressed

/-- The room `_decompress` gives zlib. -/
def room (inflated target : Nat) : Nat :=
  if target = A.member.size then max (A.member.size - inflated + 1) 1
  else max (target - inflated) 1

/-- `_decompress`.  What zlib had given before it found the stream broken is lost. -/
def decompress (compressed : Bytes) (target : Nat) : Act (Handle ζ) Fault Bytes := do
  let h ← Act.get
  let (plain, rest, z) := D.drive (room A h.inflated target) compressed h.inflater
  if D.broken z then do
    Act.modify fun h => { h with inflater := z }
    Act.throw .corrupt
  else if D.ended z then do
    Act.modify fun h =>
      { h with inflater := z, unused := h.unused ++ rest, compressedPending := [] }
    pure plain
  else do
    Act.modify fun h => { h with inflater := z, compressedPending := rest }
    pure plain

/-- `cache.seek(self._inflated); cache.write(plain)`, and the running CRC. -/
def addPlain (plain : Bytes) (h : Handle ζ) : Handle ζ :=
  { h with
    cache := writeAt 0 h.cache h.inflated plain
    inflated := h.inflated + plain.length
    inflatedCrc := crc32 plain h.inflatedCrc }

/-- `_cache_plain`. -/
def cachePlain (plain : Bytes) : Act (Handle ζ) Fault Unit := do
  Act.modify (addPlain plain)
  let h ← Act.get
  if A.member.size < h.inflated then Act.throw .expands else pure ()

/-- `inflater.flush()`: what zlib still gives with no more input. -/
def flush (z : ζ) : Bytes := (D.drive 16384 [] z).1

/-- `_finish_inflate`. -/
def finishInflate : Act (Handle ζ) Fault Unit := do
  let h ← Act.get
  if h.finished then pure ()
  else if D.ended h.inflater = false ∨ h.compressedPending ≠ [] ∨ h.unused ≠ [] ∨
      h.compressedAt ≠ A.member.compressedSize then Act.throw .invalid
  else do
    Act.modify fun h => { addPlain (flush D h.inflater) h with finished := true }
    let h ← Act.get
    verify A h.inflatedCrc h.inflated

/-- The `while` loop of `_inflate_to`. -/
def inflateLoop (target : Nat) : Nat → Act (Handle ζ) Fault Unit
  | 0 => Act.throw .spun
  | turns + 1 => do
    let h ← Act.get
    if h.finished = false ∧ (h.inflated < target ∨ target = A.member.size) then
      if D.ended h.inflater then finishInflate D A
      else do
        let compressed ← nextCompressed A
        let plain ← decompress D A compressed target
        cachePlain A plain
        inflateLoop target turns
    else pure ()

/-- Turns that suffice: each of them gives a plain byte or takes a compressed one. -/
def turns (h : Handle ζ) : Nat :=
  (A.member.size + 1 - h.inflated) + (A.member.compressedSize - h.compressedAt) +
    h.compressedPending.length + 2

/-- `_inflate_to`. -/
def inflateTo (wanted : Nat) : Act (Handle ζ) Fault Unit := do
  let h ← Act.get
  inflateLoop D A (min wanted A.member.size) (turns A h)

/-- `_read_deflated`. -/
def readDeflated (count : Nat) : Act (Handle ζ) Fault Bytes := do
  let h ← Act.get
  inflateTo D A (h.pos + count)
  let now ← Act.get
  pure (slice now.cache h.pos count)

/-- The bytes at the position, as the member's method has them. -/
def readMember (count : Nat) : Act (Handle ζ) Fault Bytes :=
  if A.member.method = stored then readStored A count else readDeflated D A count

/-- `readinto`, with a buffer of `length` bytes: what it puts there. -/
def readinto (length : Nat) : Act (Handle ζ) Fault Bytes := do
  let h ← Act.get
  let count := min length (A.member.size - h.pos)
  if count = 0 then pure []
  else do
    let data ← readMember D A count
    Act.modify fun h => { h with pos := h.pos + data.length }
    pure data

/-- Where `seek` goes; the three values of `whence` are those of `io`. -/
def seekTarget (pos : Nat) (offset whence : Int) : Except Fault Int :=
  if whence = 0 then .ok offset
  else if whence = 1 then .ok (pos + offset)
  else if whence = 2 then .ok (A.member.size + offset)
  else .error (.whence whence)

/-- `seek`. -/
def seek (offset whence : Int) : Act (Handle ζ) Fault Nat := do
  let h ← Act.get
  let target ← Act.ofExcept (seekTarget A h.pos offset whence)
  if target < 0 then Act.throw .negativeSeek
  else do
    Act.modify fun h => { h with pos := target.toNat }
    pure target.toNat

/-- One call on a handle. -/
inductive Call where
  | seek (offset whence : Int)
  | readinto (length : Nat)
  deriving DecidableEq

/-- What a call returns: the new position, or the bytes in the buffer. -/
inductive Answer where
  | position (pos : Nat)
  | bytes (data : Bytes)
  deriving DecidableEq

/-- A call, made on a handle. -/
def Call.run : Call → Act (Handle ζ) Fault Answer
  | .seek offset whence => do
    let pos ← Zip.seek A offset whence
    pure (.position pos)
  | .readinto length => do
    let data ← Zip.readinto D A length
    pure (.bytes data)

/-- The handle after some calls, whether they raised or not. -/
def after (calls : List Call) : Handle ζ :=
  calls.foldl (fun h call => (call.run D A h).2) (Handle.new D)

end

end XrdClient.Zip
