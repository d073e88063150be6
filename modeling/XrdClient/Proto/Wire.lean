/-
  Proto/Wire.lean --- wire constants, the errors of the protocol layer, the
  bounds-checked cursor, and the frame codecs.

  Source: `proto/constants.py`, `proto/buffer.py`, `proto/frames.py`.

  An error constructor stands for one `raise` of the source and carries what
  that message interpolates; the text itself is in its comment.  A request is
  the value of its hooks: what `header_params`, `payload`, `path_data`,
  `trailer` and `reply_cap` answer is fixed once the request is submitted
  ("they must not change after submission"), so the hooks are fields.
-/
import XrdClient.Lib.Bytes

set_option autoImplicit false

namespace XrdClient.Proto

open XrdClient.Lib

/-! ## Constants -/

def kXR_auth : Nat := 3000
def kXR_protocol : Nat := 3006
def kXR_read : Nat := 3013
def kXR_login : Nat := 3007
def kXR_endsess : Nat := 3023
def kXR_bind : Nat := 3024
def kXR_sigver : Nat := 3029
def kXR_write : Nat := 3019
def kXR_1stRequest : Nat := 3000

def kXR_ok : Nat := 0
def kXR_oksofar : Nat := 4000
def kXR_attn : Nat := 4001
def kXR_authmore : Nat := 4002
def kXR_error : Nat := 4003
def kXR_redirect : Nat := 4004
def kXR_wait : Nat := 4005
def kXR_waitresp : Nat := 4006
def kXR_status : Nat := 4007

/-- The `kXR_attn` action that wraps a deferred answer. -/
def kXR_asynresp : Int := 5008

def kXR_haveTLS : Nat := 0x80000000
def kXR_gotoTLS : Nat := 0x40000000
def kXR_tlsData : Nat := 0x01000000
def kXR_tlsLogin : Nat := 0x04000000
def kXR_tlsSess : Nat := 0x08000000

def ROOTD_PQ : Nat := 2012
def kXR_PROTOCOLVERSION : Nat := 0x520
def kXR_secreqs : Nat := 0x01
def kXR_ableTLS : Nat := 0x02
def kXR_wantTLS : Nat := 0x04
def kXR_ExpLogin : Nat := 0x03
def kXR_asyncap : Nat := 0x80
def kXR_ver005 : Nat := 0x05
def SESSION_ID_LEN : Nat := 16

def kXR_SHA256_sig : Nat := 0x01
def kXR_nodata_sig : Nat := 0x01
def kXR_secOData : Nat := 0x01
def kXR_secNone : Nat := 0

/-- `kXR_status`: no more frames follow on this stream. -/
def kXR_FinalResult : Nat := 0x00

def RESPONSE_HDRLEN : Nat := 8
def REQUEST_HDRLEN : Nat := 24

/-- Largest single read or write the protocol carries in one frame. -/
def MAX_FRAME_PAYLOAD : Nat := 0x7FFFFFFF

/-- Largest response body this client will buffer: a fail-closed guard. -/
def MAX_RESPONSE_BODY : Nat := 1 <<< 30

theorem MAX_RESPONSE_BODY_eq : MAX_RESPONSE_BODY = 2 ^ 30 := by decide

/-- `kXR_ChkSumErr` of `errors.py`. -/
def kXR_ChkSumErr : Int := 3019

/-! ## States and errors -/

/-- Where a connection is in its lifecycle (`machine.State`). -/
inductive State where
  | new | handshake | protocol | tls | login | auth | ready | failed | closed
  /-- Waiting for `kXR_bind` to answer; only a data connection is ever here. -/
  | bind
  deriving DecidableEq, Inhabited

/-- The label a `Reader` puts in its messages. -/
inductive What where
  | error | redirect | wait | waitresp | attn | status | protocol | login | bind
  | pgwriteCse | opened | ckpQuery | readv | fattr
  deriving DecidableEq

/-- `ProtocolError`, one constructor for each place that raises it. -/
inductive ProtocolError where
  /-- "{what}: negative read of {n} bytes" -/
  | negativeRead (what : What) (n : Int)
  /-- "{what}: truncated - wanted {n} bytes at offset {pos}, only {left} remain" -/
  | truncated (what : What) (n pos left : Nat)
  /-- "response declares a body of {dlen} bytes, past the {MAX} this client will buffer" -/
  | bodyTooLarge (dlen : Nat)
  /-- "kXR_redirect names no host to redirect to" -/
  | redirectNoHost
  /-- "kXR_bind returned path id 0, which is the control link" -/
  | bindPathZero
  /-- "kXR_pgwrite answered with a {n} byte checksum-error trailer, ..." -/
  | cseTrailer (n : Nat)
  /-- "stat line has a non-numeric field: {text}" -/
  | statNumber (text : Text)
  /-- "kXR_stat returned {n} fields, expected >= 4: {text}" -/
  | statFields (n : Nat) (text : Text)
  /-- "kXR_stat vfs returned {n} fields, expected 6" -/
  | vfsFields (n : Nat)
  /-- "kXR_stat vfs has a non-numeric field: {parts}" -/
  | vfsNumber (parts : List Text)
  /-- "kXR_dirlist entry {name} in {path} is not a name" -/
  | notAName (name path : Text)
  /-- "malformed checksum response: {text}" -/
  | checksumText (text : Text)
  /-- "kXR_Qspace {key}={raw} is not a number" -/
  | spaceNumber (key raw : Text)
  /-- "kXR_readlink named no target" -/
  | noTarget
  /-- "kXR_readv segment declares a negative length of {length}" -/
  | negativeSegment (length : Int)
  /-- "{request}.params wrote {n} bytes, expected 16" -/
  | paramsLength (n : Nat)
  /-- "payload of {dlen} bytes exceeds the protocol maximum" -/
  | payloadTooLarge (dlen : Nat)
  /-- "start() called in state {state}" -/
  | startState (state : State)
  /-- "cannot submit in state {state}" -/
  | submitState (state : State)
  /-- "tls_established() called in state {state}" -/
  | tlsState (state : State)
  /-- "stream {sid} is not waiting" -/
  | notWaiting (sid : Nat)
  /-- "stream id {sid} was not leased for bulk use" -/
  | notLeased (sid : Nat)
  /-- "stream id space exhausted" -/
  | exhausted
  /-- "unexpected {status} during {state}" -/
  | unexpectedBringup (status : Nat) (state : State)
  /-- "TLS required but {host}:{port} does not offer it (flags {flags})" -/
  | tlsNotOffered (host : Text) (port flags : Nat)
  /-- "unexpected response status {status}" -/
  | unexpectedStatus (status : Nat)
  /-- "{request} was answered with more than the {cap} bytes it asked for" -/
  | overCap (cap : Nat)
  deriving DecidableEq

/-- What a call can raise. -/
inductive Raised where
  | protocol (error : ProtocolError)
  /-- "credtype must be <= 4 bytes, got {credtype}" -/
  | credtypeTooLong (credtype : Text)
  /-- "lease_sids needs a positive count" -/
  | leaseCount
  /-- A `KeyError` out of a dictionary of the authentication ladder. -/
  | keyError (key : Text)
  /-- `struct.error`: a value past its field. -/
  | structError
  /-- `AssertionError`. -/
  | assertion
  deriving DecidableEq

/-! ## The reading cursor -/

/-- `buffer.Reader`: a bounds-checked big-endian cursor. -/
structure Reader where
  buf : Bytes
  pos : Nat := 0
  what : What
  deriving DecidableEq

namespace Reader

/-- Bytes not yet consumed. -/
def remaining (r : Reader) : Nat := r.buf.length - r.pos

/-- `_take(n)`: the single bounds check every other read goes through. -/
def take (r : Reader) (n : Int) : Except ProtocolError (Bytes × Reader) :=
  if n < 0 then .error (.negativeRead r.what n)
  else if r.buf.length < r.pos + n.toNat then
    .error (.truncated r.what n.toNat r.pos r.remaining)
  else
    .ok ((r.buf.drop r.pos).take n.toNat, { r with pos := r.pos + n.toNat })

/-- An unsigned big-endian field of `width` bytes. -/
def unsigned (r : Reader) (width : Nat) : Except ProtocolError (Nat × Reader) :=
  match r.take (width : Int) with
  | .error e => .error e
  | .ok (bs, r') => .ok (beNat bs, r')

def u8 (r : Reader) : Except ProtocolError (Nat × Reader) := r.unsigned 1
def u16 (r : Reader) : Except ProtocolError (Nat × Reader) := r.unsigned 2
def u32 (r : Reader) : Except ProtocolError (Nat × Reader) := r.unsigned 4

/-- A `kXR_int32`: lengths, error numbers, wait seconds. -/
def i32 (r : Reader) : Except ProtocolError (Int × Reader) :=
  match r.unsigned 4 with
  | .error e => .error e
  | .ok (n, r') => .ok (signed 32 n, r')

/-- Everything left. -/
def rest (r : Reader) : Bytes := r.buf.drop r.pos

/-- `cstring()` with no width: text up to the next NUL, or to the end. -/
def cstring (r : Reader) : Text := decodeReplace (untilNul r.rest)

/-- A field inside the buffer is read and stepped over. -/
theorem take_ok (r : Reader) (n : Nat) (h : r.pos + n ≤ r.buf.length) :
    r.take (n : Int) = .ok ((r.buf.drop r.pos).take n, { r with pos := r.pos + n }) := by
  have hlt : ¬ ((n : Int) < 0) := by omega
  have hlen : ¬ (r.buf.length < r.pos + n) := by omega
  simp [take, hlt, hlen]

/-- A field past the end of the buffer is refused. -/
theorem take_error (r : Reader) (n : Nat) (h : r.buf.length < r.pos + n) :
    r.take (n : Int) = .error (.truncated r.what n r.pos r.remaining) := by
  have hlt : ¬ ((n : Int) < 0) := by omega
  simp [take, hlt, h]

theorem unsigned_ok (r : Reader) (n : Nat) (h : r.pos + n ≤ r.buf.length) :
    r.unsigned n =
      .ok (beNat ((r.buf.drop r.pos).take n), { r with pos := r.pos + n }) := by
  simp [unsigned, take_ok r n h]

theorem unsigned_error (r : Reader) (n : Nat) (h : r.buf.length < r.pos + n) :
    r.unsigned n = .error (.truncated r.what n r.pos r.remaining) := by
  simp [unsigned, take_error r n h]

end Reader

/-! ## Requests -/

/-- A client request, as the values its hooks return. -/
structure Request where
  opcode : Nat
  /-- What `header_params()` returns. -/
  params : Bytes
  payload : Bytes := []
  /-- Bytes streamed after the frame that `dlen` does not count. -/
  trailer : Bytes := []
  /-- The bound data path this request uses, or 0 for the control link. -/
  pathid : Nat := 0
  /-- Bytes that travel on `pathid` instead of on this link. -/
  pathData : Bytes := []
  /-- Most bytes the answer may add up to; 0 for no cap. -/
  replyCap : Nat := 0
  deriving DecidableEq

/-- A body at most this long rides in the same buffer as its header. -/
def inlineLimit : Nat := 4096

/-- `HANDSHAKE`: three zero words, then 4, then `ROOTD_PQ`. -/
def HANDSHAKE : Bytes := List.replicate 12 0 ++ beBytes 4 4 ++ beBytes 4 ROOTD_PQ

/-- `encode_parts`: the buffers that make up a frame, in wire order. -/
def encodeParts (req : Request) (streamid : Nat) : Except Raised (List Bytes) :=
  let dlen := req.payload.length + req.pathData.length
  if req.params.length ≠ 16 then .error (.protocol (.paramsLength req.params.length))
  else if MAX_FRAME_PAYLOAD < dlen then .error (.protocol (.payloadTooLarge dlen))
  else if 0x10000 ≤ req.opcode then .error .structError
  else
    let head := beBytes 2 (streamid % 0x10000) ++ beBytes 2 req.opcode ++ req.params ++
      beBytes 4 dlen
    if req.payload.length + req.trailer.length ≤ inlineLimit then
      .ok [head ++ req.payload ++ req.trailer]
    else
      .ok ([head] ++ (if req.payload = [] then [] else [req.payload]) ++
        (if req.trailer = [] then [] else [req.trailer]))

/-- `encode`: a complete wire frame as one byte string. -/
def encode (req : Request) (streamid : Nat) : Except Raised Bytes :=
  match encodeParts req streamid with
  | .error e => .error e
  | .ok parts => .ok parts.flatten

/-! ## The response header -/

/-- The 8-byte `ServerResponseHdr`. -/
structure Header where
  sid : Nat
  status : Nat
  dlen : Nat
  deriving DecidableEq

/-- `header_fields(data, offset)`.  The caller has checked that eight bytes are
there. -/
def headerFields (data : Bytes) (offset : Nat := 0) : Except ProtocolError Header :=
  let at_ := data.drop offset
  let header : Header := ⟨beNat (at_.take 2), beNat ((at_.drop 2).take 2),
    beNat ((at_.drop 4).take 4)⟩
  if MAX_RESPONSE_BODY < header.dlen then .error (.bodyTooLarge header.dlen) else .ok header

/-- The eight bytes a server puts in front of a body. -/
def headerBytes (h : Header) : Bytes := beBytes 2 h.sid ++ beBytes 2 h.status ++ beBytes 4 h.dlen

@[simp] theorem length_headerBytes (h : Header) : (headerBytes h).length = 8 := by
  simp [headerBytes]

/-- A header whose fields fit and whose body is not over the ceiling. -/
structure Header.WellFormed (h : Header) : Prop where
  sid_lt : h.sid < 0x10000
  status_lt : h.status < 0x10000
  dlen_le : h.dlen ≤ MAX_RESPONSE_BODY

/-- Reading back a well-formed header, whatever follows it. -/
theorem headerFields_headerBytes {h : Header} (hw : h.WellFormed) (rest : Bytes) :
    headerFields (headerBytes h ++ rest) = .ok h := by
  have hdlen : h.dlen < 256 ^ 4 := by
    have := hw.dlen_le
    rw [MAX_RESPONSE_BODY_eq] at this
    omega
  have e1 : (headerBytes h ++ rest).take 2 = beBytes 2 h.sid := by
    simp [headerBytes]
  have e2 : ((headerBytes h ++ rest).drop 2).take 2 = beBytes 2 h.status := by
    simp [headerBytes]
  have e3 : ((headerBytes h ++ rest).drop 4).take 4 = beBytes 4 h.dlen := by
    simp [headerBytes, List.take_append, List.drop_append]
  have hle : ¬ (MAX_RESPONSE_BODY < h.dlen) := by
    have := hw.dlen_le
    omega
  simp only [headerFields, List.drop_zero, e1, e2, e3,
    beNat_beBytes 2 h.sid hw.sid_lt, beNat_beBytes 2 h.status hw.status_lt,
    beNat_beBytes 4 h.dlen hdlen, hle, if_false]

/-- An accepted header never declares a body over the ceiling. -/
theorem headerFields_dlen_le {data : Bytes} {offset : Nat} {h : Header}
    (hok : headerFields data offset = .ok h) : h.dlen ≤ MAX_RESPONSE_BODY := by
  unfold headerFields at hok
  simp only at hok
  split at hok
  · simp at hok
  · rename_i hle
    have hh := Except.ok.inj hok
    rw [← hh]
    exact Nat.le_of_not_lt hle

/-- A header depends on its eight bytes alone. -/
theorem headerFields_append {data : Bytes} (more : Bytes) (h : 8 ≤ data.length) :
    headerFields (data ++ more) = headerFields data := by
  have e1 : (data ++ more).take 2 = data.take 2 := List.take_append_of_le_length (by omega)
  have e2 : ((data ++ more).drop 2).take 2 = (data.drop 2).take 2 := by
    rw [List.drop_append_of_le_length (by omega), List.take_append_of_le_length (by simp; omega)]
  have e3 : ((data ++ more).drop 4).take 4 = (data.drop 4).take 4 := by
    rw [List.drop_append_of_le_length (by omega), List.take_append_of_le_length (by simp; omega)]
  simp only [headerFields, List.drop_zero, e1, e2, e3]

end XrdClient.Proto
