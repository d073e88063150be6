/-
  Proto/Decoders.lean --- every body decoder, with whatever it could raise.

  Source: `proto/responses.py`; the record types are those of `types.py`.

  `Responses` has the decoders the session machine runs, as far as they return or raise a
  `ProtocolError`.  Here are all of them, each step as the interpreter takes it: an index may
  be past the end, a text may spell no number, a loop may not end, and only what the source
  catches is caught.  `Hostile` says which of these come out.
-/
import XrdClient.Proto.Cursor
import XrdClient.Proto.Responses
import XrdClient.Crypto.Pages
import XrdClient.Client.Batches

set_option autoImplicit false

namespace XrdClient.Proto.Decoders

open XrdClient.Lib
open XrdClient.Proto.Cursor
open XrdClient.Crypto (PGW_CSE_HDRLEN)
open XrdClient.Client.Batches (StatInfo DirEntry words linesOf cksumToken joined)

def FHANDLE_LEN : Nat := 4

/-- The value of a decoder, or what it raises. -/
abbrev Result (α : Type) : Type := Except DecodeFault α

/-- `raise ProtocolError(...)`. -/
def raise {α : Type} (e : ProtocolError) : Result α := .error (.protocol e)

/-- `xs[i]`. -/
def item {α : Type} (xs : List α) (i : Nat) : Result α :=
  match xs[i]? with
  | some x => .ok x
  | none => .error .index

/-- `try: result except ValueError: raise ProtocolError(...)`. -/
def exceptValue {α : Type} (e : ProtocolError) (result : Result α) : Result α :=
  match result with
  | .error .value => raise e
  | result => result

/-- A decoder that reads a body through a `Reader`. -/
def decode {α : Type} (what : What) (data : Bytes) (program : Op α) : Result α :=
  (program ⟨data, 0, what⟩).1

/-- `data.split(b"\x00", 1)[0].decode("utf-8", "replace")`. -/
def textOf (data : Bytes) : Text := decodeReplace (untilNul data)

/-! ## Control-status bodies -/

def parseError (data : Bytes) : Result ErrorInfo := decode .error data do
  let code ← i32
  let message ← cstring none
  pure ⟨code, message⟩

def parseRedirect (data : Bytes) : Result RedirectInfo := decode .redirect data do
  let port ← i32
  let raw ← rest
  let target := (decodeReplace raw).takeWhile fun c => !endsTarget c
  let (host, sep, token) := partitionAt '?' target
  if host = [] then refuse .redirectNoHost
  else pure ⟨host, port, if sep then token.dropWhile fun c => c == '?' || c == '&' else []⟩

def parseWait (data : Bytes) : Result WaitInfo := decode .wait data do
  let seconds ← i32
  let message ← cstring none
  pure ⟨seconds, message⟩

def parseWaitresp (data : Bytes) : Result WaitInfo := decode .waitresp data do
  let seconds ← i32
  pure ⟨seconds, []⟩

def parseAttn (data : Bytes) : Result AttnInfo := decode .attn data do
  let action ← i32
  let params ← rest
  pure ⟨action, params⟩

def parseStatus (data : Bytes) : Result StatusInfo := decode .status data do
  let crc ← u32
  let streamid ← u16
  let requestid ← u8
  let resptype ← u8
  skip 4
  let dlen ← i32
  let info ← rest
  pure ⟨crc, streamid, requestid + kXR_1stRequest, resptype, dlen, info⟩

/-- `tuple(r.i64() for _ in range(count))`. -/
def offsets : Nat → Op (List Int)
  | 0 => pure []
  | count + 1 => do
    let offset ← i64
    let more ← offsets count
    pure (offset :: more)

def parsePgwriteCse (data : Bytes) : Result (List Int) :=
  if data.length < PGW_CSE_HDRLEN ∨ (data.length - PGW_CSE_HDRLEN) % 8 ≠ 0 then
    raise (.cseTrailer data.length)
  else decode .pgwriteCse data do
    skip PGW_CSE_HDRLEN
    offsets ((data.length - PGW_CSE_HDRLEN) / 8)

/-! ## Session bring-up -/

/-- `_find_sec_reqs`. -/
def findSecReqs (trailer : Bytes) : Result (Option Bytes) :=
  if 6 ≤ trailer.length ∧ trailer.take 1 = [secReqsTag] then .ok (some trailer)
  else if trailer.length < 4 then .ok none
  else do
    let count ← item trailer 2
    let off := 4 + count.toNat * 8
    return if off + 6 ≤ trailer.length ∧ (trailer.drop off).take 1 = [secReqsTag] then
      some (trailer.drop off) else none

/-- The loop over the signing levels, from `pos`. -/
def overridesFrom (reqs : Bytes) : Nat → Nat → Assoc Nat Nat → Result (Assoc Nat Nat)
  | 0, _, overrides => .ok overrides
  | count + 1, pos, overrides =>
    if reqs.length < pos + 2 then .ok overrides
    else do
      let level ← item reqs (pos + 1)
      let index ← item reqs pos
      overridesFrom reqs count (pos + 2) (overrides.set (index.toNat + kXR_1stRequest) level.toNat)

/-- What `parse_protocol` makes of the security requirements, where there are any. -/
def protocolOf (version : Int) (flags : Nat) : Option Bytes → Result ProtocolInfo
  | none => .ok { version := version, flags := flags }
  | some reqs => do
    let secver ← item reqs 2
    let secopt ← item reqs 3
    let seclvl ← item reqs 4
    let secvsz ← item reqs 5
    let overrides ← overridesFrom reqs secvsz.toNat 6 []
    return { version := version, flags := flags, securityLevel := seclvl.toNat,
             securityVersion := secver.toNat, securityOptions := secopt.toNat,
             securityOverrides := overrides }

def parseProtocol (data : Bytes) : Result ProtocolInfo := decode .protocol data do
  let version ← i32
  let flags ← u32
  let trailer ← rest
  let reqs ← Act.ofExcept (findSecReqs trailer)
  Act.ofExcept (protocolOf version flags reqs)

def parseLogin (data : Bytes) : Result LoginInfo := decode .login data do
  let left ← remaining
  let sessid ← view (min (SESSION_ID_LEN : Int) left)
  let sec ← rest
  pure ⟨sessid, textOf sec⟩

def parseBind (data : Bytes) : Result Nat := decode .bind data do
  let pathid ← u8
  if pathid = 0 then refuse .bindPathZero else pure pathid

/-! ## Metadata -/

/-- `_flags`: what an `IntFlag` of eight bits keeps of a number, which is no negative one. -/
def flagWord (value : Int) : Int :=
  if 0 ≤ value then value
  else if -256 ≤ value then 256 + value
  else 2 ^ (value.natAbs.log2 + 1) + value

/-- `VFSInfo` -/
structure VFSInfo where
  nodesRw : Int := 0
  freeRw : Int := 0
  utilizationRw : Int := 0
  nodesStaging : Int := 0
  freeStaging : Int := 0
  utilizationStaging : Int := 0
  deriving DecidableEq

/-- `VFSInfo(*numbers)`: a number too many is a `TypeError`. -/
def vfsInfo (numbers : List Int) : Result VFSInfo :=
  if 6 < numbers.length then .error .type
  else .ok ⟨numbers.getD 0 0, numbers.getD 1 0, numbers.getD 2 0, numbers.getD 3 0,
    numbers.getD 4 0, numbers.getD 5 0⟩

/-- `LocationInfo` -/
structure LocationInfo where
  address : Text
  type : Char
  access : Char
  deriving DecidableEq

/-- `SpaceInfo` -/
structure SpaceInfo where
  name : Text := []
  total : Int := 0
  free : Int := 0
  largestFree : Int := 0
  used : Int := 0
  quota : Int := -1
  deriving DecidableEq

/-- `CheckpointInfo` -/
structure CheckpointInfo where
  capacity : Nat
  used : Nat
  deriving DecidableEq

/-- `_checked` -/
def checked (name path : Text) : Result Text :=
  if '/' ∈ name ∨ name = ['.', '.'] then raise (.notAName name path) else .ok name

/-- `parse_dirlist`, of lines that are names. -/
def plainEntries (path : Text) (names : List Text) : Result (List DirEntry) :=
  names.mapM fun n => do
    let name ← checked n path
    return { name := name, parent := path, stat := none, checksum := none }

/-- `zip(lines[::2], lines[1::2], strict=False)` -/
def pairs : List Text → List (Text × Text)
  | name :: statline :: lines => (name, statline) :: pairs lines
  | _ => []

/-- `parse_locate`, of its tokens. -/
def locations : List Text → Result (List LocationInfo)
  | [] => .ok []
  | token :: tokens =>
    if token.length < 3 then locations tokens
    else do
      let type ← item token 0
      let access ← item token 1
      let more ← locations tokens
      return ⟨token.drop 2, type, access⟩ :: more

def parseLocate (data : Bytes) : Result (List LocationInfo) := locations (words (textOf data))

section

/- The interpreter's: the number a text spells, if it spells one; a text in lower case; whether
a text is of digits. -/
variable (int : Text → Option Int) (lower : Text → Text) (isDigit : Text → Bool)

/-- `int(text)`, a `ValueError` where the text is no number. -/
def toInt (text : Text) : Result Int :=
  match int text with
  | some n => .ok n
  | none => .error .value

/-- `_parse_stat_fields` -/
def parseStatFields (text path : Text) : Result StatInfo :=
  let parts := words text
  if 9 ≤ parts.length then
    match (parts.drop 4).take 5 with
    | [ctime, atime, mode, owner, group] => do
      let mtime ← item parts 3 >>= toInt int
      let id ← item parts 0
      let size ← item parts 1 >>= toInt int
      let flags ← item parts 2 >>= toInt int
      let ctime ← toInt int ctime
      let atime ← toInt int atime
      return ⟨id, size, flagWord flags, mtime, ctime, atime, path, mode, owner, group⟩
    | _ => .error .value
  else if parts.length < 4 then raise (.statFields parts.length text)
  else do
    let mtime ← item parts 3 >>= toInt int
    let id ← item parts 0
    let size ← item parts 1 >>= toInt int
    let flags ← item parts 2 >>= toInt int
    return ⟨id, size, flagWord flags, mtime, mtime, mtime, path, [], [], []⟩

/-- `_stat_fields` -/
def statFields (text path : Text) : Result StatInfo :=
  exceptValue (.statNumber text) (parseStatFields int text path)

def parseStat (path : Text) (data : Bytes) : Result StatInfo := statFields int (textOf data) path

def parseStatvfs (data : Bytes) : Result VFSInfo :=
  let parts := words (textOf data)
  if parts.length = 4 ∧ (parts.drop 1).all isDigit then .error .unsupported
  else if parts.length < 6 then raise (.vfsFields parts.length)
  else do
    let numbers ← exceptValue (.vfsNumber parts) ((parts.take 6).mapM (toInt int))
    vfsInfo numbers

/-- An entry of `parse_dirlist` with its stat line. -/
def statEntry (path name statline : Text) : Result DirEntry := do
  let _ ← checked name path
  let stat ← statFields int (cksumToken lower statline).1 (joined path name)
  return { name := name, parent := path, stat := some stat, checksum := (cksumToken lower statline).2 }

/-- The loop of `parse_dirlist` over lines in pairs. -/
def statEntries (path : Text) : List (Text × Text) → Result (List DirEntry)
  | [] => .ok []
  | (name, statline) :: more =>
    if name = ['.'] then statEntries path more
    else do
      let entry ← statEntry int lower path name statline
      let entries ← statEntries path more
      return entry :: entries

def parseDirlist (path : Text) (withStat : Bool) (data : Bytes) : Result (List DirEntry) :=
  let lines := linesOf (textOf data)
  if withStat = false ∨ lines.take 1 ≠ [['.']] then plainEntries path lines
  else statEntries int lower path (pairs lines)

/-- The stat `parse_open` reports, where there is a line for it. -/
def openStat (path tail : Text) : Result (Option StatInfo) :=
  if tail = [] then .ok none
  else do
    let stat ← statFields int tail path
    return some stat

/-- The handle, the stat, and the page size and algorithm of the compression. -/
def parseOpen (path : Text) (data : Bytes) : Result (Bytes × Option StatInfo × Int × Text) :=
  decode .opened data do
    let fhandle ← view FHANDLE_LEN
    let left ← remaining
    if left < 8 then pure (fhandle, none, 0, [])
    else do
      let page ← i32
      let algorithm ← view 4
      let tail ← rest
      let stat ← Act.ofExcept (openStat int path (strip (textOf tail)))
      pure (fhandle, stat, page, textOf algorithm)

/-- The algorithm and the value. -/
def parseChecksum (data : Bytes) : Result (Text × Text) :=
  let text := strip (textOf data)
  let (name, _, value) := partitionAt ' ' text
  if value = [] then raise (.checksumText text) else .ok (lower name, lower (strip value))

/-- The fields of a `kXR_Qspace` reply: pairs that have a `=`, the last of a key. -/
def spaceFields (text : Text) : Assoc Text Text :=
  ((text.map fun c => if c = '\n' then '&' else c).splitOn '&').foldl
    (fun fields pair =>
      let (key, sep, value) := partitionAt '=' pair
      if sep then fields.set (strip key) (strip value) else fields) []

/-- `number`, of `parse_space`. -/
def number (fields : Assoc Text Text) (key : Text) (default : Int) : Result Int :=
  match fields.get key with
  | none => .ok default
  | some raw =>
    if raw = [] then .ok default
    else exceptValue (.spaceNumber key raw) (toInt int raw)

def parseSpace (data : Bytes) : Result SpaceInfo := do
  let fields := spaceFields (strip (textOf data))
  let total ← number int fields "oss.space".toList 0
  let free ← number int fields "oss.free".toList 0
  let largestFree ← number int fields "oss.maxf".toList 0
  let used ← number int fields "oss.used".toList 0
  let quota ← number int fields "oss.quota".toList (-1)
  return ⟨(fields.get "oss.cgroup".toList).getD [], total, free, largestFree, used, quota⟩

end

def parseCheckpoint (data : Bytes) : Result CheckpointInfo := decode .ckpQuery data do
  let capacity ← u32
  let used ← u32
  pure ⟨capacity, used⟩

def parseReadlink (data : Bytes) : Result Text :=
  let target := strip (textOf data)
  if target = [] then raise .noTarget else .ok target

/-! ## Vector I/O -/

/-- One element of a `kXR_readv` response. -/
structure ReadVSegment where
  fhandle : Bytes
  offset : Int
  data : Bytes
  deriving DecidableEq

/-- One turn of the loop of `parse_readv`. -/
def segment : Op ReadVSegment := do
  let fhandle ← view FHANDLE_LEN
  let length ← i32
  let offset ← i64
  if length < 0 then refuse (.negativeSegment length)
  else do
    let data ← view length
    pure ⟨fhandle, offset, data⟩

/-- `while r.remaining: out.append(...)`. -/
def whileRemaining {α : Type} (turn : Op α) : Nat → List α → Op (List α)
  | 0, _ => Act.throw .never
  | fuel + 1, out => do
    let left ← remaining
    if left = 0 then pure out
    else do
      let x ← turn
      whileRemaining turn fuel (out ++ [x])

def parseReadv (data : Bytes) : Result (List ReadVSegment) :=
  decode .readv data (whileRemaining segment (data.length + 1) [])

/-! ## Extended attributes -/

/-- One attribute in a `kXR_fattr` response. -/
structure FattrItem where
  name : Text
  code : Nat := 0
  value : Option Bytes := none
  deriving DecidableEq

/-- `kXR_fattr` response body. -/
structure FattrResult where
  errors : Nat := 0
  items : List FattrItem := []
  deriving DecidableEq

/-- The loop of `_read_name`. -/
def nameFrom : Nat → Bytes → Op Text
  | 0, _ => Act.throw .never
  | fuel + 1, raw => do
    let b ← u8
    if b = 0 then pure (decodeReplace raw) else nameFrom fuel (raw ++ [UInt8.ofNat b])

/-- `_read_name` -/
def readName : Op Text := do
  let r ← Act.get
  nameFrom (r.buf.length + 1) []

/-- A value behind its length. -/
def value : Op (Option Bytes) := do
  let length ← i32
  let value ← view length
  pure (some value)

/-- The value of an item of `parse_fattr`. -/
def itemValue (values : Bool) : Op (Option Bytes) := do
  let left ← remaining
  if values ∧ 4 ≤ left then value else pure none

/-- The loop of `parse_fattr`. -/
def fattrItems (values : Bool) : Nat → List FattrItem → Op (List FattrItem)
  | 0, items => pure items
  | count + 1, items => do
    let left ← remaining
    if left < 3 then pure items
    else do
      let code ← u16
      let name ← readName
      let value ← itemValue values
      fattrItems values count (items ++ [⟨name, code, value⟩])

def parseFattr (values : Bool) (data : Bytes) : Result FattrResult :=
  if data.length < 2 then .ok {}
  else decode .fattr data do
    let errors ← u8
    let count ← u8
    let items ← fattrItems values count []
    pure ⟨errors, items⟩

/-- The value of an item of `parse_fattr_list`. -/
def listValue (values : Bool) : Op (Option Bytes) := if values then value else pure none

/-- One turn of the loop of `parse_fattr_list`. -/
def listItem (values : Bool) : Op FattrItem := do
  let name ← readName
  let value ← listValue values
  pure ⟨name, 0, value⟩

def parseFattrList (values : Bool) (data : Bytes) : Result FattrResult :=
  decode .fattr data do
    let items ← whileRemaining (listItem values) (data.length + 1) []
    pure ⟨0, items⟩

/-- `str.rpartition(":")`: what is before the last colon and behind it, where there is one. -/
def rpartitionColon (text : Text) : Option (Text × Text) :=
  if ':' ∈ text then
    let name := (text.reverse.takeWhile (· ≠ ':')).reverse
    some (text.take (text.length - name.length - 1), name)
  else none

/-- One entry of `parse_fattr_tree`. -/
def treeEntry (tree : Assoc Text (List Text)) (entry : Bytes) : Assoc Text (List Text) :=
  if entry = [] then tree
  else match rpartitionColon (decodeReplace entry) with
    | none => tree
    | some (path, name) => tree.set path ((tree.get path).getD [] ++ [name])

def parseFattrTree (data : Bytes) : Result (Assoc Text (List Text)) :=
  .ok ((data.splitOn 0).foldl treeEntry [])

end XrdClient.Proto.Decoders
