/-
  Proto/Responses.lean --- the response body decoders the session machine needs.

  Source: `proto/responses.py`, the control-status bodies and the bring-up
  bodies.  Each decoder is a pure function of the bytes after the 8-byte
  header and reads through `Reader`, so it fails only with a `ProtocolError`.
-/
import XrdClient.Proto.Wire
import XrdClient.Lib.Assoc

set_option autoImplicit false

namespace XrdClient.Proto

open XrdClient.Lib

/-! ## Control-status bodies -/

/-- Body of a `kXR_error` response. -/
structure ErrorInfo where
  code : Int
  message : Text
  deriving DecidableEq

/-- `errnum[4] errmsg`. -/
def parseError (data : Bytes) : Except ProtocolError ErrorInfo := do
  let (code, r) ← (Reader.mk data 0 .error).i32
  return ⟨code, r.cstring⟩

/-- Body of a `kXR_redirect` response. -/
structure RedirectInfo where
  host : Text
  port : Int
  token : Text
  deriving DecidableEq

/-- What closes the target field of a `kXR_redirect`. -/
def endsTarget (c : Char) : Bool := c.toNat == 0 || c == '\r' || c == '\n'

/-- A port, then a host and an opaque token, whose leading separators go. -/
def parseRedirect (data : Bytes) : Except ProtocolError RedirectInfo := do
  let (port, r) ← (Reader.mk data 0 .redirect).i32
  let target := (decodeReplace r.rest).takeWhile (fun c => !endsTarget c)
  let (host, _, token) := partitionAt '?' target
  if host = [] then throw .redirectNoHost
  return ⟨host, port, token.dropWhile (fun c => c == '?' || c == '&')⟩

/-- Body of a `kXR_wait` or `kXR_waitresp` response. -/
structure WaitInfo where
  seconds : Int
  message : Text := []
  deriving DecidableEq

/-- `seconds[4] infomsg`. -/
def parseWait (data : Bytes) : Except ProtocolError WaitInfo := do
  let (seconds, r) ← (Reader.mk data 0 .wait).i32
  return ⟨seconds, r.cstring⟩

/-- `seconds[4]`. -/
def parseWaitresp (data : Bytes) : Except ProtocolError WaitInfo := do
  let (seconds, _) ← (Reader.mk data 0 .waitresp).i32
  return ⟨seconds, []⟩

/-- Body of an unsolicited `kXR_attn` response. -/
structure AttnInfo where
  action : Int
  params : Bytes
  deriving DecidableEq

/-- `actnum[4] parms`. -/
def parseAttn (data : Bytes) : Except ProtocolError AttnInfo := do
  let (action, r) ← (Reader.mk data 0 .attn).i32
  return ⟨action, r.rest⟩

/-- Body of a `kXR_status` response.  `dlen` is the length of the raw data that
follows the body on the wire, and it is read as a *signed* number. -/
structure StatusInfo where
  crc32c : Nat
  streamid : Nat
  requestid : Nat
  resptype : Nat
  dlen : Int
  info : Bytes
  deriving DecidableEq

/-- `kXR_FinalResult`: no more frames follow on this stream. -/
def StatusInfo.isFinal (s : StatusInfo) : Bool := s.resptype == kXR_FinalResult

/-- `crc32c[4] streamid[2] requestid[1] resptype[1] reserved[4] dlen[4] info`. -/
def parseStatus (data : Bytes) : Except ProtocolError StatusInfo := do
  let (crc, r) ← (Reader.mk data 0 .status).u32
  let (streamid, r) ← r.u16
  let (requestid, r) ← r.u8
  let (resptype, r) ← r.u8
  let (_, r) ← r.take 4
  let (dlen, r) ← r.i32
  return ⟨crc, streamid, requestid + kXR_1stRequest, resptype, dlen, r.rest⟩

/-! ## Session bring-up -/

/-- Result of `kXR_protocol`. -/
structure ProtocolInfo where
  version : Int := 0
  flags : Nat := 0
  securityLevel : Nat := kXR_secNone
  securityVersion : Nat := 0
  securityOptions : Nat := 0
  securityOverrides : Assoc Nat Nat := []
  deriving DecidableEq

/-- The tag of a `ServerResponseReqs_Protocol` record: an ASCII `S`. -/
def secReqsTag : UInt8 := 0x53

/-- `_find_sec_reqs`: the record as the whole trailer, or behind a vendor's
4-byte header and its 8-byte method entries. -/
def findSecReqs (trailer : Bytes) : Option Bytes :=
  let off := 4 + (trailer.getD 2 0).toNat * 8
  if 6 ≤ trailer.length ∧ trailer.head? = some secReqsTag then some trailer
  else if 4 ≤ trailer.length ∧ off + 6 ≤ trailer.length ∧
      (trailer.drop off).head? = some secReqsTag then some (trailer.drop off)
  else none

/-- The per-request signing levels: at most `count` pairs, fewer when the record
is cut short. -/
def secOverrides : Nat → Bytes → Assoc Nat Nat → Assoc Nat Nat
  | 0, _, acc => acc
  | count + 1, index :: level :: rest, acc =>
      secOverrides count rest (acc.set (index.toNat + kXR_1stRequest) level.toNat)
  | _ + 1, _, acc => acc

/-- `kXR_protocol`: version, flags and the optional security requirements. -/
def parseProtocol (data : Bytes) : Except ProtocolError ProtocolInfo := do
  let (version, r) ← (Reader.mk data 0 .protocol).i32
  let (flags, r) ← r.u32
  match findSecReqs r.rest with
  | none => return { version := version, flags := flags }
  | some reqs =>
      return {
        version := version
        flags := flags
        securityVersion := (reqs.getD 2 0).toNat
        securityOptions := (reqs.getD 3 0).toNat
        securityLevel := (reqs.getD 4 0).toNat
        securityOverrides := secOverrides (reqs.getD 5 0).toNat (reqs.drop 6) [] }

/-- `kXR_login`: the session id plus the server's security continuation. -/
structure LoginInfo where
  sessid : Bytes
  sec : Text
  deriving DecidableEq

/-- Protocol names offered by the server, most preferred first. -/
def LoginInfo.mechanisms (l : LoginInfo) : List Text :=
  (l.sec.splitOn '&').filterMap fun part =>
    match part with
    | 'P' :: '=' :: rest => some (rest.takeWhile (· ≠ ','))
    | _ => none

/-- `sessid[16]` then an optional NUL-terminated security token.  A short body
is accepted. -/
def parseLogin (data : Bytes) : LoginInfo :=
  ⟨data.take SESSION_ID_LEN, decodeReplace (untilNul (data.drop SESSION_ID_LEN))⟩

/-- `kXR_bind`: the path id the server assigned; zero is the control link. -/
def parseBind (data : Bytes) : Except ProtocolError Nat := do
  let (pathid, _) ← (Reader.mk data 0 .bind).u8
  if pathid = 0 then throw .bindPathZero
  return pathid

/-! ## What a status block declares -/

/-- The raw data length a status block of at least sixteen bytes declares. -/
def statusDlen (data : Bytes) : Int := signed 32 (beNat ((data.drop 12).take 4))

/-- A status block is accepted exactly when its sixteen fixed bytes are there,
and then it declares `statusDlen`. -/
theorem parseStatus_ok_iff (data : Bytes) :
    (∃ s, parseStatus data = .ok s) ↔ 16 ≤ data.length := by
  constructor
  · rintro ⟨s, hs⟩
    by_contra hlen
    have hlen' : data.length < 16 := Nat.lt_of_not_le hlen
    -- Whichever field the block ends in, that field's bounds check refuses it.
    have : parseStatus data ≠ .ok s := by
      unfold parseStatus Reader.u32 Reader.u16 Reader.u8 Reader.i32
      by_cases h4 : 4 ≤ data.length
      · by_cases h6 : 6 ≤ data.length
        · by_cases h7 : 7 ≤ data.length
          · by_cases h8 : 8 ≤ data.length
            · by_cases h12 : 12 ≤ data.length
              · simp [Reader.unsigned, Reader.take, bind, Except.bind, Nat.not_lt.mpr h4,
                  Nat.not_lt.mpr h6, Nat.not_lt.mpr h7, Nat.not_lt.mpr h8,
                  Nat.not_lt.mpr h12, hlen']
              · simp [Reader.unsigned, Reader.take, bind, Except.bind,
                  Nat.not_lt.mpr h4, Nat.not_lt.mpr h6, Nat.not_lt.mpr h7, Nat.not_lt.mpr h8,
                  Nat.lt_of_not_le h12]
            · simp [Reader.unsigned, Reader.take, bind, Except.bind,
                Nat.not_lt.mpr h4, Nat.not_lt.mpr h6, Nat.not_lt.mpr h7, Nat.lt_of_not_le h8]
          · simp [Reader.unsigned, Reader.take, bind, Except.bind,
              Nat.not_lt.mpr h4, Nat.not_lt.mpr h6, Nat.lt_of_not_le h7]
        · simp [Reader.unsigned, Reader.take, bind, Except.bind,
            Nat.not_lt.mpr h4, Nat.lt_of_not_le h6]
      · simp [Reader.unsigned, Reader.take, bind, Except.bind, Nat.lt_of_not_le h4]
    exact this hs
  · intro hlen
    unfold parseStatus Reader.u32 Reader.u16 Reader.u8 Reader.i32
    have h4 : ¬ data.length < 4 := by omega
    have h6 : ¬ data.length < 6 := by omega
    have h7 : ¬ data.length < 7 := by omega
    have h8 : ¬ data.length < 8 := by omega
    have h12 : ¬ data.length < 12 := by omega
    have h16 : ¬ data.length < 16 := by omega
    simp [Reader.unsigned, Reader.take, bind, Except.bind, pure, Except.pure,
      h4, h6, h7, h8, h12, h16]

theorem parseStatus_dlen {data : Bytes} {s : StatusInfo} (h : parseStatus data = .ok s) :
    s.dlen = statusDlen data := by
  have hlen := (parseStatus_ok_iff data).mp ⟨s, h⟩
  have h4 : ¬ data.length < 4 := by omega
  have h6 : ¬ data.length < 6 := by omega
  have h7 : ¬ data.length < 7 := by omega
  have h8 : ¬ data.length < 8 := by omega
  have h12 : ¬ data.length < 12 := by omega
  have h16 : ¬ data.length < 16 := by omega
  unfold parseStatus Reader.u32 Reader.u16 Reader.u8 Reader.i32 at h
  simp [Reader.unsigned, Reader.take, bind, Except.bind, pure, Except.pure,
    h4, h6, h7, h8, h12, h16] at h
  rw [← h]
  rfl

end XrdClient.Proto
