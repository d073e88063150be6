/-
  Copy/Rendezvous.lean --- the rendezvous of a root:// third-party copy.

  Source: `copy/tpc.py`, `_root_copy` and what it calls: `_placement`, `_open_target`, `_settle`,
  `_rendezvous`, `_pull`, `_call_off`, `_report`, `_close_both`, and the CGI of `_dst_opaque`,
  `_src_opaque` and `_opening`.

  Two servers are asked, each through a router that a redirect may move.  What they answer, and
  where the routers stand then, is the script's to say, as is what each check between two steps
  raises.  The log has every request in the order of the calls; the pull's, which another thread
  waits for, where that thread begins.
-/
import XrdClient.Lib.Act
import XrdClient.Proto.Decoders
import XrdClient.Urls.Text

set_option autoImplicit false

namespace XrdClient.Copy.Tpc

open XrdClient.Lib
open XrdClient.Proto (DecodeFault)
open XrdClient.Proto.Decoders
open XrdClient.Urls

/-! ## What a copy raises -/

inductive End where
  | source
  | destination
  deriving DecidableEq

/-- An exception, as far as an `except` clause of the copy can tell. -/
inductive Failure where
  /-- `ServerError` -/
  | server (code : Nat) (message : Text)
  /-- `UnsupportedError(kXR_Unsupported, message)` -/
  | unsupported (message : Text)
  | aborted
  /-- What a reply is refused for. -/
  | malformed (fault : DecodeFault)
  /-- Any other `XRootDError`. -/
  | xrootd (which : Nat)
  /-- `CopyTimeoutError` -/
  | expired
  /-- Any other `OSError`. -/
  | os (which : Nat)
  /-- Any other `Exception`. -/
  | other (which : Nat)
  deriving DecidableEq

/-- An `XRootDError`. -/
def Failure.isXRootD : Failure → Bool
  | .server _ _ | .unsupported _ | .aborted | .malformed (.protocol _) | .xrootd _ => true
  | _ => false

/-- What `_quietly` suppresses. -/
def Failure.isQuiet : Failure → Bool
  | .expired | .os _ => true
  | failure => failure.isXRootD

/-- An exception, and the end it was noted with first, which `failed_end` reads. -/
structure Raised where
  failure : Failure
  note : Option End := none
  deriving DecidableEq

/-- `exc.add_note(_END_NOTE + end)` -/
def Raised.noted (e : Raised) (at_ : End) : Raised := { e with note := e.note.or (some at_) }

/-! ## What goes out -/

inductive Ask where
  | open (wire path : Text) (exclusive : Bool)
  | sync (handle : Bytes)
  /-- `kXR_Qconfig` -/
  | config (names : Text)
  | stat (handle : Bytes)
  /-- `TPC_CANCEL` -/
  | cancel (handle : Bytes)
  | close (handle : Bytes)
  deriving DecidableEq

inductive Event where
  /-- A request, its answer, and where the router stands then. -/
  | asked (at_ : End) (ask : Ask) (answer : Except Failure Bytes) (stands : XRootDURL)
  /-- The destination's router is pinned where it stands. -/
  | pinned
  /-- The destination's connection is shut down. -/
  | cut
  /-- A router is closed. -/
  | closed (at_ : End)

/-- What becomes of a request: its answer, where the router stands, and the path it was sent with
last. -/
structure Turn where
  answer : Except Failure Bytes
  stands : XRootDURL
  path : Text

/-- What becomes of a look at a pull under way. -/
inductive Poll where
  | quiet
  /-- The destination is asked how far it is, and what the callback raises. -/
  | report (raises : Option Failure)
  /-- The caller has asked to stop, and whether the destination heeds the cancel. -/
  | cancelled (heeded : Bool)
  deriving DecidableEq

structure Script where
  turn : Nat → Turn
  /-- What `check` raises. -/
  check : Nat → Option Failure
  /-- Whether anyone watches the pull, and the looks taken at it. -/
  active : Bool
  polls : List Poll
  /-- What the callback raises at the end. -/
  last : Option Failure

/-- The options of the copy that reach the wire. -/
structure Options where
  overwrite : Bool
  tokenMode : Text
  delegate : Bool
  streams : Nat
  targetScheme : Text
  deriving DecidableEq

structure World where
  src : XRootDURL
  dst : XRootDURL
  log : List Event
  checks : Nat

abbrev Op (α : Type) : Type := Act World Raised α

/-! ## CGI -/

/-- `"&".join(parts)` -/
def joined (parts : List Text) : Text := ['&'].intercalate parts

/-- `f"{name}={value}"` -/
def field (name : String) (value : Text) : Text := name.toList ++ '=' :: value

/-- `field.partition("=")[0]` -/
def nameOf (field : Text) : Text := (partitionAt '=' field).1

/-- `_host_id` -/
def hostId (url : XRootDURL) : Text :=
  (if url.username = [] then [] else url.username ++ ['@']) ++
    (if ':' ∈ url.host then '[' :: url.host ++ [']'] else url.host) ++ ':' :: reprInt url.port

/-- The fields of a URL's CGI that go on the wire. -/
def ownFields (url : XRootDURL) : List Text :=
  (url.rawQuery.splitOn '&').filter fun f => decide (f ≠ []) && !"xrdcl.".toList.isPrefixOf f

/-- `_scgi` -/
def scgi (src : XRootDURL) : List Text :=
  let scgi := ['\t'].intercalate ((ownFields src).mergeSort fun a b => !decide (b < a))
  if scgi = [] then [] else [field "tpc.scgi" scgi]

/-- `_dst_opaque` -/
def dstOpaque (key : Text) (src : XRootDURL) (endpoint : Text) (size : Int) (o : Options) : Text :=
  joined ([field "tpc.key" key, field "tpc.src" endpoint, field "tpc.lfn" src.path] ++
    (if 1 < o.streams then [field "tpc.str" (reprInt (o.streams - 1))] else []) ++
    [field "tpc.dlg" (hostId src), field "tpc.spr" src.scheme, field "tpc.tpr" o.targetScheme,
      field "tpc.dlgon" (if o.delegate then ['1'] else ['0'])] ++
    (if 0 ≤ size then [field "oss.asize" (reprInt size)] else []) ++ [field "tpc.stage" "copy".toList] ++
    (if o.delegate then scgi src else []) ++
    (if o.tokenMode = [] then [] else [field "tpc.token_mode" o.tokenMode]))

/-- `_src_opaque` -/
def srcOpaque (key dstHost tokenMode : Text) : Text :=
  joined ([field "tpc.key" key, field "tpc.dst" dstHost, field "tpc.stage" "copy".toList] ++
    (if tokenMode = [] then [] else [field "tpc.token_mode" tokenMode]))

/-- `_opening` -/
def opening (url : XRootDURL) (opaq tail : Text) : Text :=
  let taken := (opaq.splitOn '&').map nameOf
  let own := (ownFields url).filter fun f => decide (nameOf f ∉ taken)
  url.path ++ '?' :: joined (own ++ [opaq] ++ if tail = [] then [] else [tail])

/-- `_redirect_cgi` -/
def redirectCgi (sent landed : Text) : Text :=
  let ours := (partitionAt '?' sent).2.2.splitOn '&'
  joined (((partitionAt '?' landed).2.2.splitOn '&').filter fun f => decide (f ≠ []) && decide (f ∉ ours))

/-! ## The code -/

section

variable (int : Text → Option Int) (script : Script)

/-- `router.execute`, and the path that the request was sent with last. -/
def execute (at_ : End) (ask : Ask) : Op (Bytes × Text) := fun w =>
  let t := script.turn w.log.length
  let w' := { w with log := w.log ++ [Event.asked at_ ask t.answer t.stands] }
  (match t.answer with
    | .ok data => .ok (data, t.path)
    | .error failure => .error ⟨failure, none⟩,
    match at_ with
    | .source => { w' with src := t.stands }
    | .destination => { w' with dst := t.stands })

def emit (e : Event) : Op Unit := Act.modify fun w => { w with log := w.log ++ [e] }

/-- `check()` -/
def check : Op Unit := fun w =>
  (match script.check w.checks with
    | none => .ok ()
    | some failure => .error ⟨failure, none⟩,
    { w with checks := w.checks + 1 })

/-- `_at` -/
def noting {α : Type} (at_ : End) (step : Op α) : Op α := Act.tryExcept step fun e => Act.throw (e.noted at_)

/-- `_quietly` -/
def quietly (at_ : End) (ask : Ask) : Op Unit :=
  Act.tryExcept
    (do
      let _ ← execute script at_ ask
      pure ())
    fun e => if e.failure.isQuiet then pure () else Act.throw e

/-- `_with_handle` -/
def withHandle {α : Type} (handle : Bytes) (step : Op α) : Op α :=
  Act.tryExcept step fun e => do
    quietly script .destination (.close handle)
    Act.throw e

/-- `parse_open`: the handle, and the size, or -1. -/
def opened (path : Text) (data : Bytes) : Except Raised (Bytes × Int) :=
  match parseOpen int path data with
  | .ok (handle, info, _) => .ok (handle, (info.map fun stat => stat.size).getD (-1))
  | .error fault => .error ⟨.malformed fault, none⟩

def PLACEMENT : Text := field "tpc.stage" "placement".toList

/-- `_place_source` -/
def placeSource (su : XRootDURL) : Op (Int × Text) := do
  let sent := opening su PLACEMENT []
  let (data, path) ← execute script .source (.open sent su.path false)
  let (handle, size) ← Act.ofExcept (opened int su.path data)
  quietly script .source (.close handle)
  pure (size, redirectCgi sent path)

/-- `_placement` -/
def placement (su : XRootDURL) (delegate : Bool) : Op (Int × Text × Bool) :=
  Act.tryExcept
    (do
      let (size, capability) ← placeSource int script su
      pure (size, capability, true))
    fun e => if e.failure.isXRootD && delegate then pure (-1, [], false) else Act.throw e

def NO_TPC_AT_DESTINATION : Text := "Destination does not support third-party-copy.".toList
def NO_TPC_AT_SOURCE : Text := "Source does not support third-party-copy".toList
def NO_DELEGATION : Text := "Destination does not support delegation.".toList

def kXR_FSError : Nat := 3005

/-- What `_open_target` makes of a failure. -/
def targetFailure (e : Raised) : Raised :=
  match e.failure with
  | .server code message =>
    if code = kXR_FSError ∧ "tpc not supported".toList <:+: message then ⟨.unsupported NO_TPC_AT_DESTINATION, none⟩
    else e.noted .destination
  | _ => e.noted .destination

/-- `_open_target` -/
def openTarget (du : XRootDURL) (opaq : Text) (o : Options) : Op Bytes :=
  Act.tryExcept
    (do
      let (data, _) ← execute script .destination (.open (opening du opaq []) du.path !o.overwrite)
      pure data)
    fun e => Act.throw (targetFailure e)

/-- The lines of an answer of `kXR_Qconfig`. -/
def linesOf (data : Bytes) : List Text := ((textOf data).splitOn '\n').filter (· ≠ [])

/-- `_config_lines` -/
def configLines (at_ : End) (names : Text) : Op (List Text) :=
  Act.tryExcept
    (do
      let (data, _) ← execute script at_ (.config names)
      pure (linesOf data))
    fun e => if e.failure.isXRootD then pure [] else Act.throw e

/-- `_atoi` -/
def atoi (text : Text) : Nat := (text.takeWhile isDigit).foldl (fun n c => 10 * n + (c.toNat - 48)) 0

/-- Whether the lines of an answer say that there is third-party copy. -/
def able (lines : List Text) : Bool :=
  match lines with
  | [] => false
  | line :: _ => decide (atoi line ≠ 0)

/-- Whether the lines name a protocol whose credentials the destination forwards. -/
def forwards (lines : List Text) : Bool := decide (1 < lines.length) && decide (lines[1]? ≠ some "tpcdlg".toList)

/-- What a destination is asked, and a source. -/
def DESTINATION_CONFIG : Text := "tpc tpcdlg".toList
def SOURCE_CONFIG : Text := "tpc".toList

/-- `_lite` -/
def lite (delegate : Bool) : Op Bool := do
  let lines ← configLines script .destination DESTINATION_CONFIG
  if able lines then pure (delegate && forwards lines)
  else Act.throw ⟨.unsupported NO_TPC_AT_DESTINATION, none⟩

/-- `_require_tpc` -/
def requireTpc : Op Unit := do
  let lines ← configLines script .source SOURCE_CONFIG
  if able lines then pure () else Act.throw ⟨.unsupported NO_TPC_AT_SOURCE, none⟩

/-- `_settle` -/
def settle (placed delegate : Bool) : Op Bool := do
  check script
  if ← lite script delegate then pure true
  else if placed then do
    check script
    requireTpc script
    check script
    pure false
  else Act.throw ⟨.unsupported NO_DELEGATION, none⟩

/-- `_Keyed` -/
structure Keyed where
  url : XRootDURL
  key : Text
  puller : Text
  tokenMode : Text
  capability : Text

/-- `_Keyed.open` -/
def Keyed.open (source : Keyed) : Op Bytes := do
  let wire := opening source.url (srcOpaque source.key source.puller source.tokenMode) source.capability
  let (data, _) ← noting .source (execute script .source (.open wire source.url.path false))
  let (handle, _) ← Act.ofExcept (opened int source.url.path data)
  pure handle

/-- `_rendezvous` -/
def rendezvous (handle : Bytes) (source : Option Keyed) : Op (Option Bytes) := do
  let _ ← noting .destination (execute script .destination (.sync handle))
  check script
  match source with
  | none => pure none
  | some source => do
    let held ← source.open int script
    Act.tryExcept (check script) fun e => do
      quietly script .source (.close held)
      Act.throw e
    pure (some held)

/-- What `_report` asks the destination. -/
def askSize (handle : Bytes) (path : Text) : Op Bool := do
  let (data, _) ← execute script .destination (.stat handle)
  match parseStat int path data with
  | .ok _ => pure true
  | .error fault => Act.throw ⟨.malformed fault, none⟩

/-- `_report`, with what the callback raises. -/
def report (handle : Bytes) (path : Text) (raises : Option Failure) : Op Unit := do
  let known ← Act.tryExcept (askSize int script handle path) fun e =>
    if e.failure.isXRootD || decide (e.failure = .malformed .value) then pure false else Act.throw e
  match known, raises with
  | true, some failure => Act.throw ⟨failure, none⟩
  | _, _ => pure ()

/-- `_call_off` -/
def callOff (handle : Bytes) (heeded : Bool) : Op Unit := do
  quietly script .destination (.cancel handle)
  if heeded then pure () else emit .cut

/-- The loop of `_pull`, which raises what became of the sync at the end. -/
def watch (handle : Bytes) (path : Text) (outcome : Except Raised (Bytes × Text)) : List Poll → Op Unit
  | [] => do
    let _ ← Act.ofExcept outcome
    pure ()
  | .quiet :: polls => watch handle path outcome polls
  | .report raises :: polls => do
    report int script handle path raises
    watch handle path outcome polls
  | .cancelled heeded :: _ => do
    callOff script handle heeded
    Act.throw ⟨.aborted, none⟩

/-- `_pull` -/
def pull (handle : Bytes) (path : Text) : Op Unit := fun w =>
  match execute script .destination (.sync handle) w with
  | (outcome, w) => watch int script handle path outcome (if script.active then script.polls else []) w

/-- `_closing` -/
def closing (at_ : End) (handle : Bytes) : Op (Option Raised) :=
  Act.tryExcept
    (do
      let _ ← execute script at_ (.close handle)
      pure none)
    fun e => pure (some (e.noted at_))

/-- `_close_both` -/
def closeBoth (held : Option Bytes) (handle : Bytes) : Op Unit := do
  let target ← closing script .destination handle
  let source ← match held with
    | some held => closing script .source held
    | none => pure none
  match source.or target with
  | some failure => Act.throw failure
  | none => pure ()

/-- What becomes of the source's handle where the pull failed. -/
def giveBack : Option Bytes → Op Unit
  | some held => quietly script .source (.close held)
  | none => pure ()

/-- `_root_copy`, from its `try` to the end of the pull: the size, and the handles held then. -/
def holding (su du : XRootDURL) (key : Text) (o : Options) : Op (Int × Option Bytes × Bytes) := do
  let (size, capability, placed) ← placement int script su o.delegate
  check script
  let w ← Act.get
  let origin := if placed then hostId w.src else hostId su
  let data ← openTarget script du (dstOpaque key su origin size o) o
  emit .pinned
  let (handle, _) ← Act.ofExcept (opened int du.path data)
  let lite ← withHandle script handle (settle script placed o.delegate)
  let w ← Act.get
  let source := if lite then none else some ⟨su, key, w.dst.host, o.tokenMode, capability⟩
  let held ← withHandle script handle (rendezvous int script handle source)
  Act.tryExcept (withHandle script handle (pull int script handle du.path)) fun e => do
    giveBack script held
    Act.throw e
  pure (size, held, handle)

/-- `_root_copy`, between its `try` and its `finally`. -/
def transfer (su du : XRootDURL) (key : Text) (o : Options) : Op Int := do
  let (size, held, handle) ← holding int script su du key o
  closeBoth script held handle
  pure size

/-- `_root_copy` -/
def rootCopy (su du : XRootDURL) (key : Text) (o : Options) : Op Int := do
  let size ← Act.tryFinally (transfer int script su du key o) (do
    emit (.closed .destination)
    emit (.closed .source))
  match script.last with
  | some failure => Act.throw ⟨failure, none⟩
  | none => pure (max size 0)

end

end XrdClient.Copy.Tpc
