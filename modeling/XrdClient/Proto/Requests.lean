/-
  Proto/Requests.lean --- the requests the session machine builds itself,
  the read and the write.

  Source: `proto/_requests_session.py`; `Read` and `Write` are in
  `proto/_requests_io.py`.
-/
import XrdClient.Proto.Wire

set_option autoImplicit false

namespace XrdClient.Proto

open XrdClient.Lib

/-- `Writer.padded`: NUL-pad, or truncate, to exactly `width` bytes. -/
def padded (bs : Bytes) (width : Nat) : Bytes :=
  bs.take width ++ List.replicate (width - bs.length) 0

/-- `str.encode("utf-8")`. -/
def utf8 (s : Text) : Bytes := s.flatMap String.utf8EncodeChar

/-- `kXR_protocol`: capability negotiation. -/
def protocolRequest (flags : Nat) : Request where
  opcode := kXR_protocol
  params := beBytes 4 kXR_PROTOCOLVERSION ++ beBytes 1 flags ++ beBytes 1 kXR_ExpLogin ++
    List.replicate 10 0

/-- `kXR_login`; `pid` is the process id, a `kXR_int32`. -/
def loginRequest (username : Text) (pid : Nat) : Request where
  opcode := kXR_login
  params := beBytes 4 pid ++ padded (utf8 username) 8 ++ List.replicate 2 0 ++
    beBytes 1 (kXR_ver005 ||| kXR_asyncap) ++ [0]

/-- `kXR_auth`: one round of a credential exchange.  A name past the 4-byte
field is refused rather than truncated into another mechanism's. -/
def authRequest (credtype : Text) (cred : Bytes) : Except Raised Request :=
  if 4 < (utf8 credtype).length then .error (.credtypeTooLong credtype)
  else .ok {
    opcode := kXR_auth
    params := List.replicate 12 0 ++ padded (utf8 credtype) 4
    payload := cred }

/-- `kXR_endsess`: graceful session teardown. -/
def endSessionRequest (sessid : Bytes) : Request where
  opcode := kXR_endsess
  params := padded sessid 16

/-- `kXR_bind`: attach a data connection to a session. -/
def bindRequest (sessid : Bytes) : Request where
  opcode := kXR_bind
  params := padded sessid 16

/-- `Read`: one contiguous range of an open file, answered on a bound path when
`pathid` names one. -/
def readRequest (fhandle : Bytes) (offset length : Nat) (pathid : Nat := 0) : Request where
  opcode := kXR_read
  params := padded fhandle 4 ++ beBytes 8 offset ++ beBytes 4 length
  payload := if pathid = 0 then [] else beBytes 1 pathid ++ List.replicate 7 0
  pathid := pathid
  replyCap := length

/-- `Write`: one contiguous range, its data in the body. -/
def writeRequest (fhandle : Bytes) (offset : Nat) (data : Bytes) : Request where
  opcode := kXR_write
  params := padded fhandle 4 ++ beBytes 8 offset ++ List.replicate 4 0
  payload := data

/-- `kXR_sigver`: the signature frame that goes in front of a signed request. -/
def sigverRequest (expectrid seqno : Nat) (signature : Bytes) (nodata : Bool) : Request where
  opcode := kXR_sigver
  params := beBytes 2 expectrid ++ [0] ++ beBytes 1 (if nodata then kXR_nodata_sig else 0) ++
    beBytes 8 seqno ++ beBytes 1 kXR_SHA256_sig ++ List.replicate 3 0
  payload := signature

end XrdClient.Proto
