/-
  Proto/Encoders.lean --- the request encoders: every `kXR_*` class with its
  `params`, its precomputed layout where it has one, and its other hooks.

  Source: `proto/frames.py`, `proto/buffer.py` (`Writer`),
  `proto/_requests_base.py`, `_requests_session.py`, `_requests_ns.py`,
  `_requests_query.py`, `_requests_io.py`, and `_PackedReadV` of
  `client/_vector.py`.

  Here a field is what the caller put there: an integer of any size, text that
  may hold a lone surrogate, a handle in any of the types `Writer.padded`
  takes.  `none` is an exception, whichever it is: `struct.error` for a number
  past its field, `UnicodeEncodeError`, `TypeError`, `AttributeError`.
-/
import XrdClient.Proto.Requests

set_option autoImplicit false

namespace XrdClient.Proto

open XrdClient.Lib

/-! ## Opcodes and options -/

def kXR_query : Nat := 3001
def kXR_chmod : Nat := 3002
def kXR_close : Nat := 3003
def kXR_dirlist : Nat := 3004
def kXR_mkdir : Nat := 3008
def kXR_mv : Nat := 3009
def kXR_open : Nat := 3010
def kXR_ping : Nat := 3011
def kXR_chkpoint : Nat := 3012
def kXR_rm : Nat := 3014
def kXR_rmdir : Nat := 3015
def kXR_sync : Nat := 3016
def kXR_stat : Nat := 3017
def kXR_set : Nat := 3018
def kXR_fattr : Nat := 3020
def kXR_prepare : Nat := 3021
def kXR_statx : Nat := 3022
def kXR_readv : Nat := 3025
def kXR_pgwrite : Nat := 3026
def kXR_locate : Nat := 3027
def kXR_truncate : Nat := 3028
def kXR_pgread : Nat := 3030
def kXR_writev : Nat := 3031
def kXR_clone : Nat := 3032
def kXR_setattr : Nat := 3500
def kXR_symlink : Nat := 3501
def kXR_readlink : Nat := 3502
def kXR_link : Nat := 3503

def kXR_mkdirpath : Int := 0x01
def kXR_wv_doSync : Int := 0x01
def kXR_pgRetry : Int := 0x01

namespace Encoders

/-! ## The values of fields -/

/-- A code point of a `str`. -/
inductive Point where
  | scalar (c : Char)
  /-- U+D800 to U+DFFF, alone: UTF-8 has no bytes for it. -/
  | surrogate (low : Fin 2048)
  deriving DecidableEq

/-- A `str`. -/
abbrev Str : Type := List Point

/-- `s.encode("utf-8")`. -/
def Str.encode : Str → Option Bytes
  | [] => some []
  | .scalar c :: rest => (Str.encode rest).map (String.utf8EncodeChar c ++ ·)
  | .surrogate _ :: _ => none

/-- `"\n".join(paths)`. -/
def Str.lines (paths : List Str) : Str := List.intercalate [.scalar '\n'] paths

/-- What a handle, a session id or a user name may be given as. -/
inductive Blob where
  | bytes (b : Bytes)
  | bytearray (b : Bytes)
  /-- A `memoryview`, by the bytes it shows. -/
  | view (b : Bytes)
  | text (s : Str)
  deriving DecidableEq

/-- `_handle`, and what `Writer.padded` makes of its argument. -/
def Blob.raw : Blob → Option Bytes
  | .bytes b => some b
  | .bytearray b => some b
  | .view b => some b
  | .text s => s.encode

/-- Whether the `s` format of `struct` takes it: `bytes` or a `bytearray`. -/
def Blob.packable : Blob → Bool
  | .bytes _ => true
  | .bytearray _ => true
  | .view _ => false
  | .text _ => false

/-- A buffer of bytes, as it goes into a frame. -/
inductive Buf where
  | bytes (b : Bytes)
  /-- A `memoryview` of format `"B"`. -/
  | view (shape : List Nat) (contiguous : Bool) (b : Bytes)
  deriving DecidableEq

namespace Buf

/-- `len(buffer)`: the first dimension; a view of none has no length. -/
def len : Buf → Option Nat
  | .bytes b => some b.length
  | .view [] _ _ => none
  | .view (n :: _) _ _ => some n

/-- The bytes behind it, wherever they lie. -/
def raw : Buf → Bytes
  | .bytes b => b
  | .view _ _ b => b

/-- The bytes as one block, as joining and sending ask for them; a view with
gaps raises. -/
def block : Buf → Option Bytes
  | .bytes b => some b
  | .view _ true b => some b
  | .view _ false _ => none

/-- A buffer whose length is its number of bytes. -/
def Flat (b : Buf) : Prop := b.len = some b.raw.length

instance (b : Buf) : Decidable b.Flat := inferInstanceAs (Decidable (_ = _))

end Buf

/-- What the caller hands to a write. -/
inductive Data where
  | bytes (b : Bytes)
  | bytearray (b : Bytes)
  /-- A `memoryview`; `octets` when its format is `"B"`. -/
  | view (octets : Bool) (shape : List Nat) (contiguous : Bool) (b : Bytes)
  deriving DecidableEq

/-- `data if isinstance(data, bytes) else _byte_view(data)`.  A cast takes a
contiguous view, and one of several dimensions only without a zero among
them. -/
def Data.held : Data → Option Buf
  | .bytes b => some (.bytes b)
  | .bytearray b => some (.view [b.length] true b)
  | .view true shape contiguous b => some (.view shape contiguous b)
  | .view false shape contiguous b =>
      if ¬ contiguous ∨ (shape.length ≠ 1 ∧ 0 ∈ shape) then none
      else some (.view [b.length] true b)

/-! ## The byte builder -/

/-- An unsigned field of `struct`. -/
def unsignedField (width : Nat) (v : Int) : Option Bytes :=
  if 0 ≤ v ∧ v < 256 ^ width then some (beBytes width v.toNat) else none

/-- A signed field of `struct`, in two's complement. -/
def signedField (width : Nat) (v : Int) : Option Bytes :=
  if -(256 ^ width : Int) ≤ 2 * v ∧ 2 * v < 256 ^ width then
    some (beBytes width (v % 256 ^ width).toNat)
  else none

/-- `buffer.Writer`: what has been written, or an exception on the way. -/
abbrev Writer : Type := Option Bytes

namespace Writer

/-- `Writer()`. -/
def new : Writer := some []

/-- Append one field. -/
def field (w : Writer) (f : Option Bytes) : Writer :=
  match w, f with
  | some written, some b => some (written ++ b)
  | _, _ => none

def u8 (w : Writer) (v : Int) : Writer := w.field (unsignedField 1 v)
def u16 (w : Writer) (v : Int) : Writer := w.field (unsignedField 2 v)
def u32 (w : Writer) (v : Int) : Writer := w.field (unsignedField 4 v)
def u64 (w : Writer) (v : Int) : Writer := w.field (unsignedField 8 v)
def i32 (w : Writer) (v : Int) : Writer := w.field (signedField 4 v)
def i64 (w : Writer) (v : Int) : Writer := w.field (signedField 8 v)
def zeros (w : Writer) (n : Nat) : Writer := w.field (some (List.replicate n 0))

/-- NUL-pad, or truncate, to exactly `width` bytes. -/
def padded (w : Writer) (b : Blob) (width : Nat) : Writer :=
  w.field (b.raw.map (Proto.padded · width))

end Writer

/-! ## Precomputed layouts -/

/-- One item of a `struct` format, big-endian. -/
inductive Item where
  | B | H | i | q
  /-- `{n}s`: NUL-pads and truncates. -/
  | s (n : Nat)
  /-- `{n}x`: pad bytes, which take no argument. -/
  | x (n : Nat)
  deriving DecidableEq

/-- An argument of `pack`. -/
inductive Arg where
  | int (v : Int)
  | blob (b : Blob)
  deriving DecidableEq

/-- One item given its argument. -/
def Item.pack : Item → Arg → Option Bytes
  | .B, .int v => unsignedField 1 v
  | .H, .int v => unsignedField 2 v
  | .i, .int v => signedField 4 v
  | .q, .int v => signedField 8 v
  | .s n, .blob b => if b.packable then b.raw.map (Proto.padded · n) else none
  | _, _ => none

/-- `Struct(format).pack(*args)`. -/
def pack : List Item → List Arg → Option Bytes
  | [], [] => some []
  | .x n :: format, args => (pack format args).map (List.replicate n 0 ++ ·)
  | item :: format, arg :: args =>
      match item.pack arg, pack format args with
      | some b, some rest => some (b ++ rest)
      | _, _ => none
  | _, _ => none

def ZERO_PARAMS : Bytes := List.replicate 16 0
def STAT_PARAMS : List Item := [.B, .x 11, .s 4]
def OPEN_PARAMS : List Item := [.H, .H, .H, .x 6, .s 4]
def HANDLE_PARAMS : List Item := [.s 4, .x 12]
def READ_PARAMS : List Item := [.s 4, .q, .i]
def WRITE_PARAMS : List Item := [.s 4, .q, .B, .x 3]

/-- `_handle(fhandle)` as an argument of `pack`. -/
def handleArg (b : Blob) : Option Arg := b.raw.map (fun raw => .blob (.bytes raw))

/-- A layout that starts with, or ends in, a handle. -/
def packWith (format : List Item) (before : List Arg) (handle : Blob) (after : List Arg) :
    Option Bytes :=
  match handleArg handle with
  | some arg => pack format (before ++ arg :: after)
  | none => none

/-! ## The classes -/

/-- Every request class of the library. -/
inductive Cls where
  | request
  | protocol | login | auth | ping | endSession | bind | set | sigver
  | stat | statVFS | statx | dirlist | locate | mkdir | rm | rmdir | mv | symlink | link
  | readlink | setattr | chmod | truncate
  | query | prepare
  | opening | close | read | write | sync | readV | packedReadV | writeV | clone | pgRead
  | pgWrite | chkPoint | fattr
  deriving DecidableEq

/-- The attributes of an instance, one shape for each `__init__`. -/
inductive Fields where
  | none
  | protocol (flags : Int)
  | login (username : Str) (pid capver : Int) (token : Str)
  | auth (credtype : Str) (cred : Bytes)
  | sessid (sessid : Blob)
  | set (data : Str)
  | sigver (expectrid seqno : Int) (signature : Bytes) (crypto : Int) (nodata : Bool)
  | stat (path : Str) (options : Int) (fhandle : Blob)
  | paths (paths : List Str)
  | options (path : Str) (options : Int)
  | mkdir (path : Str) (mode : Int) (mkpath : Bool)
  | path (path : Str)
  | mv (src dst : Str)
  | setattr (path : Str) (flags : Int) (atime mtime owner : Int × Int)
  | chmod (path : Str) (mode : Int)
  | truncate (path : Str) (size : Int) (fhandle : Blob)
  | query (infotype : Int) (args : Str ⊕ Bytes) (fhandle : Blob)
  | prepare (paths : List Str) (options priority port extended : Int)
  | opening (path : Str) (options mode optiont : Int) (fhtemplt : Blob)
  | fhandle (fhandle : Blob)
  | read (fhandle : Blob) (offset length pathid : Int)
  | write (fhandle : Blob) (offset : Int) (data : Data) (pathid : Int)
  | readV (chunks : List (Blob × Int × Int)) (pathid : Int)
  | writeV (chunks : List (Blob × Int × Bytes)) (options : Int)
  | clone (fhandle : Blob) (items : List (Blob × Int × Int × Int))
  | pgRead (fhandle : Blob) (offset length reqflags pathid : Int)
  | pgWrite (fhandle : Blob) (offset : Int) (data : Bytes) (reqflags pathid : Int)
  | chkPoint (fhandle : Blob) (subcode : Int) (data tail : Bytes)
  | fattr (subcode : Int) (body : Bytes) (numattr options : Int) (fhandle : Blob)
  deriving DecidableEq

/-- The `params` a class body writes, if it writes one. -/
def Cls.ownParams : Cls → Option (Fields → Writer)
  | .request => some fun _ => Writer.new.zeros 16
  | .protocol => some fun
      | .protocol flags =>
          (((Writer.new.u32 kXR_PROTOCOLVERSION).u8 flags).u8 kXR_ExpLogin).zeros 10
      | _ => none
  | .login => some fun
      | .login username pid capver _ =>
          ((((Writer.new.i32 pid).padded (.text username) 8).zeros 2).u8 capver).u8 0
      | _ => none
  | .auth => some fun
      | .auth credtype _ => (Writer.new.zeros 12).padded (.text credtype) 4
      | _ => none
  | .endSession => some fun
      | .sessid sessid => Writer.new.padded sessid 16
      | _ => none
  | .bind => some fun
      | .sessid sessid => Writer.new.padded sessid 16
      | _ => none
  | .sigver => some fun
      | .sigver expectrid seqno _ crypto nodata =>
          (((((Writer.new.u16 expectrid).u8 0).u8 (if nodata then kXR_nodata_sig else 0)).u64
            seqno).u8 crypto).zeros 3
      | _ => none
  | .stat => some fun
      | .stat _ options fhandle => ((Writer.new.u8 options).zeros 11).padded fhandle 4
      | _ => none
  | .dirlist => some fun
      | .options _ options => (Writer.new.zeros 15).u8 options
      | _ => none
  | .locate => some fun
      | .options _ options => (Writer.new.u16 options).zeros 14
      | _ => none
  | .mkdir => some fun
      | .mkdir _ mode mkpath =>
          ((Writer.new.u8 (if mkpath then kXR_mkdirpath else 0)).zeros 13).u16 mode
      | _ => none
  | .mv => some fun
      | .mv src _ =>
          match src.encode with
          | some b => (Writer.new.zeros 14).u16 b.length
          | none => none
      | _ => none
  | .chmod => some fun
      | .chmod _ mode => (Writer.new.zeros 14).u16 mode
      | _ => none
  | .truncate => some fun
      | .truncate _ size fhandle => ((Writer.new.padded fhandle 4).i64 size).zeros 4
      | _ => none
  | .query => some fun
      | .query infotype _ fhandle =>
          (((Writer.new.u16 infotype).zeros 2).padded fhandle 4).zeros 8
      | _ => none
  | .prepare => some fun
      | .prepare _ options priority port extended =>
          ((((Writer.new.u8 options).u8 priority).u16 port).u16 extended).zeros 10
      | _ => none
  | .opening => some fun
      | .opening _ options mode optiont fhtemplt =>
          ((((Writer.new.u16 mode).u16 options).u16 optiont).zeros 6).padded fhtemplt 4
      | _ => none
  | .close => some fun
      | .fhandle fhandle => (Writer.new.padded fhandle 4).zeros 12
      | _ => none
  | .read => some fun
      | .read fhandle offset length _ => ((Writer.new.padded fhandle 4).i64 offset).i32 length
      | _ => none
  | .write => some fun
      | .write fhandle offset _ pathid =>
          (((Writer.new.padded fhandle 4).i64 offset).u8 pathid).zeros 3
      | _ => none
  | .sync => some fun
      | .fhandle fhandle => (Writer.new.padded fhandle 4).zeros 12
      | _ => none
  | .readV => some fun
      | .readV _ pathid => (Writer.new.zeros 15).u8 pathid
      | _ => none
  | .writeV => some fun
      | .writeV _ options => (Writer.new.u8 options).zeros 15
      | _ => none
  | .clone => some fun
      | .clone fhandle _ => (Writer.new.padded fhandle 4).zeros 12
      | _ => none
  | .pgRead => some fun
      | .pgRead fhandle offset length _ _ =>
          ((Writer.new.padded fhandle 4).i64 offset).i32 length
      | _ => none
  | .pgWrite => some fun
      | .pgWrite fhandle offset _ reqflags pathid =>
          ((((Writer.new.padded fhandle 4).i64 offset).u8 pathid).u8 reqflags).zeros 2
      | _ => none
  | .chkPoint => some fun
      | .chkPoint fhandle subcode _ _ => ((Writer.new.padded fhandle 4).zeros 11).u8 subcode
      | _ => none
  | .fattr => some fun
      | .fattr subcode _ numattr options fhandle =>
          ((((Writer.new.padded fhandle 4).u8 subcode).u8 numattr).u8 options).zeros 9
      | _ => none
  | _ => none

/-- The `header_params` a class body writes, if it writes one.  The template
handle of an open goes to `pack` as it is; every other handle through
`_handle`. -/
def Cls.ownHeader : Cls → Option (Fields → Option Bytes)
  | .ping => some fun _ => some ZERO_PARAMS
  | .stat => some fun
      | .stat _ options fhandle => packWith STAT_PARAMS [.int options] fhandle []
      | _ => none
  | .opening => some fun
      | .opening _ options mode optiont fhtemplt =>
          pack OPEN_PARAMS [.int mode, .int options, .int optiont, .blob fhtemplt]
      | _ => none
  | .close => some fun
      | .fhandle fhandle => packWith HANDLE_PARAMS [] fhandle []
      | _ => none
  | .read => some fun
      | .read fhandle offset length _ =>
          packWith READ_PARAMS [] fhandle [.int offset, .int length]
      | _ => none
  | .write => some fun
      | .write fhandle offset _ pathid =>
          packWith WRITE_PARAMS [] fhandle [.int offset, .int pathid]
      | _ => none
  | .sync => some fun
      | .fhandle fhandle => packWith HANDLE_PARAMS [] fhandle []
      | _ => none
  | .clone => some fun
      | .clone fhandle _ => packWith HANDLE_PARAMS [] fhandle []
      | _ => none
  | .pgRead => some fun
      | .pgRead fhandle offset length _ _ =>
          packWith READ_PARAMS [] fhandle [.int offset, .int length]
      | _ => none
  | _ => none

/-- The one base of a class. -/
def Cls.base : Cls → Cls
  | .statVFS => .stat
  | .rmdir => .rm
  | .symlink => .mv
  | .link => .mv
  | .packedReadV => .readV
  | _ => .request

/-- `opcode`. -/
def Cls.opcode : Cls → Nat
  | .request => 0
  | .protocol => kXR_protocol
  | .login => kXR_login
  | .auth => kXR_auth
  | .ping => kXR_ping
  | .endSession => kXR_endsess
  | .bind => kXR_bind
  | .set => kXR_set
  | .sigver => kXR_sigver
  | .stat => kXR_stat
  | .statVFS => kXR_stat
  | .statx => kXR_statx
  | .dirlist => kXR_dirlist
  | .locate => kXR_locate
  | .mkdir => kXR_mkdir
  | .rm => kXR_rm
  | .rmdir => kXR_rmdir
  | .mv => kXR_mv
  | .symlink => kXR_symlink
  | .link => kXR_link
  | .readlink => kXR_readlink
  | .setattr => kXR_setattr
  | .chmod => kXR_chmod
  | .truncate => kXR_truncate
  | .query => kXR_query
  | .prepare => kXR_prepare
  | .opening => kXR_open
  | .close => kXR_close
  | .read => kXR_read
  | .write => kXR_write
  | .sync => kXR_sync
  | .readV => kXR_readv
  | .packedReadV => kXR_readv
  | .writeV => kXR_writev
  | .clone => kXR_clone
  | .pgRead => kXR_pgread
  | .pgWrite => kXR_pgwrite
  | .chkPoint => kXR_chkpoint
  | .fattr => kXR_fattr

/-! ## The other hooks -/

/-- One `readahead_list` element, field by field. -/
def readElement (w : Writer) (chunk : Blob × Int × Int) : Writer :=
  ((w.padded chunk.1 4).i32 chunk.2.2).i64 chunk.2.1

/-- One `write_list` descriptor. -/
def writeElement (w : Writer) (chunk : Blob × Int × Bytes) : Writer :=
  ((w.padded chunk.1 4).i32 chunk.2.2.length).i64 chunk.2.1

/-- One `clone_item`. -/
def cloneItem (w : Writer) (item : Blob × Int × Int × Int) : Writer :=
  ((((w.padded item.1 4).zeros 4).i64 item.2.1).i64 item.2.2.1).i64 item.2.2.2

/-- `payload()` of the class, which only a packed vector writes apart from its
attributes. -/
def payload (c : Cls) (fields : Fields) : Option Buf :=
  match c, fields with
  | .request, _ => some (.bytes [])
  | .login, .login _ _ _ token => token.encode.map .bytes
  | .auth, .auth _ cred => some (.bytes cred)
  | .set, .set data => data.encode.map .bytes
  | .sigver, .sigver _ _ signature _ _ => some (.bytes signature)
  | .stat, .stat path _ _ => path.encode.map .bytes
  | .statVFS, .stat path _ _ => path.encode.map .bytes
  | .statx, .paths paths => (Str.lines paths).encode.map .bytes
  | .dirlist, .options path _ => path.encode.map .bytes
  | .locate, .options path _ => path.encode.map .bytes
  | .mkdir, .mkdir path _ _ => path.encode.map .bytes
  | .rm, .path path => path.encode.map .bytes
  | .rmdir, .path path => path.encode.map .bytes
  | .mv, .mv src dst => Str.encode (src ++ [.scalar ' '] ++ dst) |>.map .bytes
  | .symlink, .mv src dst => Str.encode (src ++ [.scalar ' '] ++ dst) |>.map .bytes
  | .link, .mv src dst => Str.encode (src ++ [.scalar ' '] ++ dst) |>.map .bytes
  | .readlink, .path path => path.encode.map .bytes
  | .setattr, .setattr path flags atime mtime owner =>
      ((((((((Writer.new.i32 flags).i64 atime.1).i64 atime.2).i64 mtime.1).i64 mtime.2).i32
        owner.1).i32 owner.2).field path.encode).field (some [0]) |>.map .bytes
  | .chmod, .chmod path _ => path.encode.map .bytes
  | .truncate, .truncate path _ _ => path.encode.map .bytes
  | .query, .query _ (.inl text) _ => text.encode.map .bytes
  | .query, .query _ (.inr args) _ => some (.bytes args)
  | .prepare, .prepare paths _ _ _ _ => (Str.lines paths).encode.map .bytes
  | .opening, .opening path _ _ _ _ => path.encode.map .bytes
  | .read, .read _ _ _ pathid =>
      if pathid = 0 then some (.bytes []) else (Writer.new.u8 pathid).zeros 7 |>.map .bytes
  | .write, .write _ _ data pathid => if pathid = 0 then data.held else some (.bytes [])
  | .readV, .readV chunks _ => (chunks.foldl readElement Writer.new).map .bytes
  | .packedReadV, .readV chunks _ =>
      (pack (chunks.flatMap fun _ => [.s 4, .i, .q])
        (chunks.flatMap fun chunk =>
          [.blob chunk.1, .int chunk.2.2, .int chunk.2.1])).map .bytes
  | .writeV, .writeV chunks _ => (chunks.foldl writeElement Writer.new).map .bytes
  | .clone, .clone _ items => (items.foldl cloneItem Writer.new).map .bytes
  | .pgRead, .pgRead _ _ _ reqflags pathid =>
      if reqflags = 0 ∧ pathid = 0 then some (.bytes [])
      else ((Writer.new.u8 pathid).u8 reqflags).zeros 2 |>.map .bytes
  | .pgWrite, .pgWrite _ _ data _ pathid => some (.bytes (if pathid = 0 then data else []))
  | .chkPoint, .chkPoint _ _ data _ => some (.bytes data)
  | .fattr, .fattr _ body _ _ _ => some (.bytes body)
  | .protocol, _ => some (.bytes [])
  | .ping, _ => some (.bytes [])
  | .endSession, _ => some (.bytes [])
  | .bind, _ => some (.bytes [])
  | .close, _ => some (.bytes [])
  | .sync, _ => some (.bytes [])
  | _, _ => none

/-- `path_data()`: the data of a write on a bound path. -/
def pathData (c : Cls) (fields : Fields) : Option Buf :=
  match c, fields with
  | .write, .write _ _ data pathid => if pathid = 0 then some (.bytes []) else data.held
  | .pgWrite, .pgWrite _ _ data _ pathid => some (.bytes (if pathid = 0 then [] else data))
  | .write, _ => none
  | .pgWrite, _ => none
  | _, _ => some (.bytes [])

/-- `trailer()`. -/
def trailer (c : Cls) (fields : Fields) : Option Bytes :=
  match c, fields with
  | .writeV, .writeV chunks _ => some (chunks.flatMap (·.2.2))
  | .chkPoint, .chkPoint _ _ _ tail => some tail
  | .writeV, _ => none
  | .chkPoint, _ => none
  | _, _ => some []

/-! ## Frames -/

/-- What the hooks of one request answer. -/
structure Hooks where
  opcode : Int
  headerParams : Option Bytes
  payload : Option Buf
  pathData : Option Buf
  trailer : Option Bytes
  deriving DecidableEq

/-- `_HDR.pack(streamid & 0xFFFF, opcode, params, dlen)`. -/
def headerBlock (streamid : Nat) (opcode : Int) (params : Bytes) (dlen : Nat) : Option Bytes :=
  (unsignedField 2 opcode).map fun code =>
    beBytes 2 (streamid % 0x10000) ++ code ++ params ++ beBytes 4 dlen

/-- The buffers of a frame whose pieces are all there. -/
def assemble (head : Bytes) (body : Buf) (size : Nat) (trailer : Bytes) : Option (List Buf) :=
  if size + trailer.length ≤ inlineLimit then
    if size = 0 ∧ trailer = [] then some [.bytes head]
    else body.block.map fun block => [.bytes (head ++ block ++ trailer)]
  else
    some ([.bytes head] ++ (if size = 0 then [] else [body]) ++
      (if trailer = [] then [] else [.bytes trailer]))

/-- `encode_parts`. -/
def encodeParts (h : Hooks) (streamid : Nat) : Option (List Buf) := do
  let params ← h.headerParams
  if params.length ≠ 16 then none
  let body ← h.payload
  let trailer ← h.trailer
  let size ← body.len
  let data ← h.pathData
  let beside ← data.len
  if MAX_FRAME_PAYLOAD < size + beside then none
  let head ← headerBlock streamid h.opcode params (size + beside)
  assemble head body size trailer

/-- `b"".join(parts)`. -/
def join : List Buf → Option Bytes
  | [] => some []
  | part :: parts =>
      match part.block, join parts with
      | some b, some rest => some (b ++ rest)
      | _, _ => none

/-- `encode`. -/
def encode (h : Hooks) (streamid : Nat) : Option Bytes :=
  match encodeParts h streamid with
  | none => none
  | some [.bytes frame] => some frame
  | some parts => join parts

/-! ## Classes as the interpreter resolves them -/

/-- A value of the class attribute `header_params`: `Request`'s own, which runs
whatever `params` the instance has, or one a class body wrote. -/
inductive HeaderFn (F : Type) where
  | general
  | written (f : F)
  deriving DecidableEq

/-- A class: its resolution order, itself first, and what its dictionary holds
of the two attributes.  Functions are compared by identity. -/
structure PyClass (F : Type) where
  mro : List Nat
  params : Option F := none
  headerParams : Option (HeaderFn F) := none
  deriving DecidableEq

/-- The classes made so far; `Request` is the first. -/
abbrev Classes (F : Type) : Type := List (PyClass F)

section Resolve

variable {F : Type}

/-- `getattr(cls, "params", None)`. -/
def Classes.params (t : Classes F) (c : Nat) : Option F := do
  let cls ← t[c]?
  cls.mro.findSome? fun k => t[k]?.bind (·.params)

/-- `next(k for k in cls.__mro__ if "header_params" in k.__dict__)`. -/
def Classes.owner (t : Classes F) (c : Nat) : Option Nat := do
  let cls ← t[c]?
  cls.mro.find? fun k => (t[k]?.bind (·.headerParams)).isSome

/-- `cls.header_params`. -/
def Classes.header (t : Classes F) (c : Nat) : Option (HeaderFn F) := do
  let k ← t.owner c
  let cls ← t[k]?
  cls.headerParams

/-- A class statement: the rest of the resolution order and what the body
writes. -/
structure Declaration (F : Type) where
  bases : List Nat
  params : Option F := none
  headerParams : Option F := none
  deriving DecidableEq

variable [DecidableEq F]

/-- The class as its body leaves it. -/
def Declaration.body (d : Declaration F) (id : Nat) : PyClass F :=
  { mro := id :: d.bases, params := d.params, headerParams := d.headerParams.map .written }

/-- Making a class.  `__init_subclass__` runs for the subclasses of `Request`,
and gives the general path back to a class whose `params` is not the one its
fast path was written beside. -/
def Classes.declare (t : Classes F) (d : Declaration F) : Classes F :=
  let made := t ++ [d.body t.length]
  if 0 ∈ d.bases then
    match made.owner t.length with
    | none => made
    | some owner =>
        if owner ≠ 0 ∧ made.params t.length ≠ made.params owner then
          t ++ [{ d.body t.length with headerParams := some .general }]
        else made
  else made

/-- `Request` alone, with its `params` and its `header_params`. -/
def Classes.root (base : F) : Classes F :=
  [{ mro := [0], params := some base, headerParams := some .general }]

/-- What an instance of `c` answers to `params`; `code` runs a function. -/
def Classes.runParams {σ : Type} (t : Classes F) (code : F → σ → Option Bytes) (c : Nat)
    (self : σ) : Option Bytes := do
  let f ← t.params c
  code f self

/-- What an instance of `c` answers to `header_params`. -/
def Classes.runHeader {σ : Type} (t : Classes F) (code : F → σ → Option Bytes) (c : Nat)
    (self : σ) : Option Bytes := do
  match ← t.header c with
  | .general => t.runParams code c self
  | .written f => code f self

end Resolve

/-! ## The library's classes -/

/-- A function of the library, by the class body it stands in; or one of a
class made outside it. -/
inductive Fn (ν : Type) where
  | params (c : Cls)
  | header (c : Cls)
  | other (f : ν)
  deriving DecidableEq

/-- The classes in the order they are made. -/
def Cls.all : List Cls :=
  [.request, .protocol, .login, .auth, .ping, .endSession, .bind, .set, .sigver,
    .stat, .statVFS, .statx, .dirlist, .locate, .mkdir, .rm, .rmdir, .mv, .symlink, .link,
    .readlink, .setattr, .chmod, .truncate, .query, .prepare,
    .opening, .close, .read, .write, .sync, .readV, .writeV, .clone, .pgRead,
    .pgWrite, .chkPoint, .fattr, .packedReadV]

/-- Its place among the classes. -/
def Cls.id (c : Cls) : Nat := Cls.all.idxOf c

/-- The class statement of a library class. -/
def Cls.declaration (ν : Type) (c : Cls) : Declaration (Fn ν) where
  bases := if c.base = .request then [0] else [c.base.id, 0]
  params := c.ownParams.map fun _ => .params c
  headerParams := c.ownHeader.map fun _ => .header c

/-- The library, imported. -/
def library (ν : Type) [DecidableEq ν] : Classes (Fn ν) :=
  (Cls.all.tail.map (Cls.declaration ν)).foldl Classes.declare (Classes.root (.params .request))

/-- Running a function: the library's read the attributes of the instance, the
others what they like. -/
def code {ν σ : Type} (attributes : σ → Fields) (other : ν → σ → Option Bytes) :
    Fn ν → σ → Option Bytes
  | .params c, self => match c.ownParams with
      | some f => f (attributes self)
      | none => none
  | .header c, self => match c.ownHeader with
      | some f => f (attributes self)
      | none => none
  | .other f, self => other f self

/-- The functions of no other class. -/
def nowhere (f : Empty) (_ : Fields) : Option Bytes := nomatch f

/-- An instance of a library class. -/
structure Instance where
  cls : Cls
  fields : Fields
  deriving DecidableEq

/-- `request.params(w)` on an empty writer. -/
def Instance.params (r : Instance) : Option Bytes :=
  (library Empty).runParams (code id nowhere) r.cls.id r.fields

/-- `request.header_params()`. -/
def Instance.headerParams (r : Instance) : Option Bytes :=
  (library Empty).runHeader (code id nowhere) r.cls.id r.fields

/-- The hooks of an instance. -/
def Instance.hooks (r : Instance) : Hooks where
  opcode := r.cls.opcode
  headerParams := r.headerParams
  payload := payload r.cls r.fields
  pathData := pathData r.cls r.fields
  trailer := trailer r.cls r.fields

/-- The requests a checkpoint can execute. -/
def EXECUTABLE : List Nat := [kXR_write, kXR_pgwrite, kXR_truncate]

/-- `ChkPoint.execute`: the embedded header is the counted body, what follows
it the uncounted trailer. -/
def execute (fhandle : Blob) (inner : Instance) : Option Instance :=
  if inner.cls.opcode ∉ EXECUTABLE then none
  else (encode inner.hooks 0).map fun frame =>
    ⟨.chkPoint, .chkPoint fhandle 4 (frame.take REQUEST_HDRLEN) (frame.drop REQUEST_HDRLEN)⟩

end Encoders

end XrdClient.Proto
