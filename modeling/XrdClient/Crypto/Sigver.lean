/-
  Crypto/Sigver.lean --- which requests are signed, and with which number.

  Source: `crypto/sigver.py`.  The hash and the cipher are outside the
  repository (`hashlib`, `xrdsec.aes`) and are parameters of `sigverSign` and
  `sigverVerify`.  `Signer.sign` takes the signature as a function of exactly the
  arguments `sigver_sign` is given, so that what does not depend on the two is
  said for any.
-/
import XrdClient.Proto.Wire
import XrdClient.Lib.Assoc

set_option autoImplicit false

namespace XrdClient.Crypto

open XrdClient.Lib
open XrdClient.Proto

/-- Opcodes that mutate state: `chmod`, `fattr`, `mkdir`, `mv`, `open`,
`pgwrite`, `prepare`, `rm`, `rmdir`, `set`, `truncate`, `write`, `writev`,
`chkpoint`, `clone`. -/
def SIGNED_OPCODES : List Nat :=
  [3002, 3020, 3008, 3009, 3010, 3026, 3021, 3014, 3015, 3018, 3028, 3019, 3031, 3012, 3032]

/-- `LEVEL_OPCODES.get(level, SIGNED_OPCODES)`. -/
def levelOpcodes : Nat → List Nat
  | 0 => []
  | 1 => []
  | 2 => SIGNED_OPCODES
  | 3 => SIGNED_OPCODES ++ [3003, 3004, 3027, 3017]
  | 4 => (List.range 33).map (· + kXR_1stRequest)
  | _ => SIGNED_OPCODES

/-- The requests whose payload is file data: `write` and `pgwrite`. -/
def DATA_OPCODES : List Nat := [3019, 3026]

/-- `is_signed`. -/
def isSigned (opcode level : Nat) (overrides : Assoc Nat Nat) : Bool :=
  match overrides.get opcode with
  | some l => l ≠ kXR_secNone
  | none => if level ≤ 1 then false else opcode ∈ levelOpcodes level

/-! ## The signature -/

section Signature

variable (sha256 : Bytes → Bytes)

/-- What a signature covers: the sequence number, the header, and the payload
unless it travels unsigned. -/
def covered (seqno : Nat) (header payload : Bytes) (nodata : Bool) : Bytes :=
  beBytes 8 seqno ++ header ++ (if nodata then [] else payload)

/-- `sigver_hash`. -/
def sigverHash (seqno : Nat) (header payload : Bytes) (nodata : Bool) : Bytes :=
  sha256 (covered seqno header payload nodata)

/-- `sigver_sign`, with the zero IV of an unsigned-DH session. -/
def sigverSign (cbcEncrypt : Bytes → Bytes → Bytes) (key : Bytes) (seqno : Nat)
    (header payload : Bytes) (nodata : Bool) : Bytes :=
  cbcEncrypt key (sigverHash sha256 seqno header payload nodata)

/-- `sigver_verify`; `none` is the `ValueError` of a signature that will not even
decrypt. -/
def sigverVerify (cbcDecrypt : Bytes → Bytes → Option Bytes) (key signature : Bytes)
    (seqno : Nat) (header payload : Bytes) (nodata : Bool) : Bool :=
  match cbcDecrypt key signature with
  | none => false
  | some plain => decide (plain = sigverHash sha256 seqno header payload nodata)

end Signature

/-! ## The signer -/

/-- Per-connection signing state. -/
structure Signer where
  key : Bytes
  level : Nat
  overrides : Assoc Nat Nat
  secodata : Bool
  /-- The sequence number of the last signature made; 0 before the first. -/
  seqno : Nat := 0
  deriving DecidableEq

/-- `required(opcode)`. -/
def Signer.required (s : Signer) (opcode : Nat) : Bool :=
  s.key ≠ [] && isSigned opcode s.level s.overrides

/-- A signature for an encoded frame, or nothing when none is needed; `sign` is
`sigver_sign key seqno header payload nodata`. -/
def Signer.sign (sign : Bytes → Nat → Bytes → Bytes → Bool → Bytes) (s : Signer)
    (frame : Bytes) : Option (Nat × Bytes × Bool) × Signer :=
  let opcode := beNat ((frame.drop 2).take 2)
  if s.required opcode then
    let seqno := s.seqno + 1
    let dlen := signed 32 (beNat ((frame.drop 20).take 4))
    let payload := sliceTo (frame.drop REQUEST_HDRLEN) dlen
    let nodata := decide (opcode ∈ DATA_OPCODES) && !s.secodata
    (some (seqno, sign s.key seqno (frame.take REQUEST_HDRLEN) payload nodata, nodata),
      { s with seqno := seqno })
  else (none, s)

end XrdClient.Crypto
