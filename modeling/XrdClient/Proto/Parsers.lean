/-
  Proto/Parsers.lean --- the decoders as one family, and what holds of all of them.

  A parser is named with what its caller gives it: the path a stat is of, whether stat lines
  or values were asked for.
-/
import XrdClient.Proto.Hostile

set_option autoImplicit false

namespace XrdClient.Proto

open XrdClient.Lib
open XrdClient.Proto.Cursor
open XrdClient.Proto.Decoders
open XrdClient.Client.Batches (StatInfo DirEntry)

/-- The parsers of `responses.py`. -/
inductive Parser where
  | error | redirect | wait | waitresp | attn | status | pgwriteCse
  | protocol | login | bind
  | stat (path : Text)
  | statvfs
  | dirlist (path : Text) (withStat : Bool)
  | locate
  | opened (path : Text)
  | checksum | space | checkpoint | readlink | readv
  | fattr (values : Bool)
  | fattrList (values : Bool)
  | fattrTree
  deriving DecidableEq

namespace Parser

/-- What a parser returns. -/
def Value : Parser → Type
  | .error => ErrorInfo
  | .redirect => RedirectInfo
  | .wait | .waitresp => WaitInfo
  | .attn => AttnInfo
  | .status => StatusInfo
  | .pgwriteCse => List Int
  | .protocol => ProtocolInfo
  | .login => LoginInfo
  | .bind => Nat
  | .stat _ => StatInfo
  | .statvfs => VFSInfo
  | .dirlist _ _ => List DirEntry
  | .locate => List LocationInfo
  | .opened _ => Bytes × Option StatInfo × Int × Text
  | .checksum => Text × Text
  | .space => SpaceInfo
  | .checkpoint => CheckpointInfo
  | .readlink => Text
  | .readv => List ReadVSegment
  | .fattr _ | .fattrList _ => FattrResult
  | .fattrTree => Assoc Text (List Text)

section

variable (int : Text → Option Int) (lower : Text → Text) (isDigit : Text → Bool)

def run (data : Bytes) : (parser : Parser) → Result parser.Value
  | .error => Decoders.parseError data
  | .redirect => Decoders.parseRedirect data
  | .wait => Decoders.parseWait data
  | .waitresp => Decoders.parseWaitresp data
  | .attn => Decoders.parseAttn data
  | .status => Decoders.parseStatus data
  | .pgwriteCse => parsePgwriteCse data
  | .protocol => Decoders.parseProtocol data
  | .login => Decoders.parseLogin data
  | .bind => Decoders.parseBind data
  | .stat path => parseStat int path data
  | .statvfs => parseStatvfs int isDigit data
  | .dirlist path withStat => parseDirlist int lower path withStat data
  | .locate => parseLocate data
  | .opened path => parseOpen int path data
  | .checksum => parseChecksum lower data
  | .space => parseSpace int data
  | .checkpoint => parseCheckpoint data
  | .readlink => parseReadlink data
  | .readv => parseReadv data
  | .fattr values => parseFattr values data
  | .fattrList values => parseFattrList values data
  | .fattrTree => parseFattrTree data

/-- A value is built of the body: of pieces of it, of numbers in it and texts it spells, and
of nothing else but the caller's path and the defaults of what is not there. -/
def Inside (data : Bytes) : (parser : Parser) → parser.Value → Prop
  | .error => ErrorInfo.Inside data
  | .redirect => RedirectInfo.Inside data
  | .wait | .waitresp => WaitInfo.Inside data
  | .attn => AttnInfo.Inside data
  | .status => StatusInfo.Inside data
  | .pgwriteCse => fun (offsets : List Int) => ∀ offset ∈ offsets, SignedField data 8 offset
  | .protocol => ProtocolInfo.Inside data
  | .login => LoginInfo.Inside data
  | .bind => fun (pathid : Nat) => Field data 1 pathid ∧ pathid ≠ 0
  | .stat path => StatInside int data path
  | .statvfs => VFSInfo.Inside int data
  | .dirlist path _ => fun (entries : List DirEntry) =>
      ∀ entry ∈ entries, EntryInside int lower data path entry
  | .locate => fun (locations : List LocationInfo) =>
      ∀ location ∈ locations, LocationInfo.Inside data location
  | .opened path => OpenInside int data path
  | .checksum => fun (digest : Text × Text) => Lowered lower data digest.1 ∧ Lowered lower data digest.2
  | .space => SpaceInfo.Inside int data
  | .checkpoint => CheckpointInfo.Inside data
  | .readlink => fun (target : Text) => Spelled data target ∧ target ≠ []
  | .readv => fun (segments : List ReadVSegment) => ∀ segment ∈ segments, ReadVSegment.Inside data segment
  | .fattr _ | .fattrList _ => FattrResult.Inside data
  | .fattrTree => fun (tree : Assoc Text (List Text)) => ∀ entry ∈ tree, TreeInside data entry

/-- A `ProtocolError`; and for the vfs figures, that the server has none. -/
def MayRaise : Parser → DecodeFault → Prop
  | .statvfs => fun e => e.IsProtocol ∨ e = .unsupported
  | _ => DecodeFault.IsProtocol

end

theorem run_spec (int : Text → Option Int) (lower : Text → Text) (isDigit : Text → Bool) (data : Bytes)
    (parser : Parser) : Ends parser.MayRaise (parser.run int lower isDigit data)
      (parser.Inside int lower data) := by
  cases parser with
  | error => exact parseError_spec
  | redirect => exact parseRedirect_spec
  | wait => exact parseWait_spec
  | waitresp => exact parseWaitresp_spec
  | attn => exact parseAttn_spec
  | status => exact parseStatus_spec
  | pgwriteCse => exact parsePgwriteCse_spec
  | protocol => exact parseProtocol_spec
  | login => exact parseLogin_spec
  | bind => exact parseBind_spec
  | stat path => exact parseStat_spec
  | statvfs => exact parseStatvfs_spec
  | dirlist path withStat => exact parseDirlist_spec
  | locate => exact parseLocate_spec
  | opened path => exact parseOpen_spec
  | checksum => exact parseChecksum_spec
  | space => exact parseSpace_spec
  | checkpoint => exact parseCheckpoint_spec
  | readlink => exact parseReadlink_spec
  | readv => exact parseReadv_spec
  | fattr values => exact parseFattr_spec
  | fattrList values => exact parseFattrList_spec
  | fattrTree => exact parseFattrTree_spec

end Parser

/-- Whatever the bytes are, every parser returns what is in them, or raises what it may; and a
cursor over them is inside them after any reads, and is not moved by one that raises. -/
theorem hostile_body (int : Text → Option Int) (lower : Text → Text) (isDigit : Text → Bool)
    (data : Bytes) :
    (∀ parser : Parser, Ends parser.MayRaise (parser.run int lower isDigit data)
      (parser.Inside int lower data)) ∧
    ∀ (what : What) (ops : List ReadOp), At data 0 (reached ⟨data, 0, what⟩ ops) ∧
      ∀ op e r, ReadOp.run op (reached ⟨data, 0, what⟩ ops) = (.error e, r) →
        r = reached ⟨data, 0, what⟩ ops ∧ e.IsProtocol := by
  refine ⟨fun parser => parser.run_spec int lower isDigit data, fun what ops => ?_⟩
  have hinside : At data 0 (reached ⟨data, 0, what⟩ ops) :=
    reached_inside ops ⟨rfl, Nat.le_refl 0, Nat.zero_le _⟩
  refine ⟨hinside, fun op e r hraise => op.stays _ ?_ e r hraise⟩
  rw [hinside.1]
  exact hinside.2.2

end XrdClient.Proto
