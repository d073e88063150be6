/-
  Copy/Move.lean --- moving the bytes, each way a plan can send them.

  Source: `copy/engine.py`, `_move`, `_bulk`, `_from_replicas`, `_in_parallel`,
  `_one_stream`, `_source_stream`, `_require_whole`, `_spans`;
  `copy/_endpoints.py`, `_writer`, `_resumer`; `copy/_fastpath.py`,
  `_bulk_to_file`, `_create`, `_bulk_to_stream`; `client/bulk.py`, `download`,
  `stream`, `_plan`, `_spans`, `_preallocate`, `_Transfer.span`;
  `copy/replicas.py`, `fetch`.

  A pass over the bytes follows a script: what opening each end raises, the
  pieces in the order they land, and what ends it.  A bulk worker that loses its
  server reads on from the bytes it has delivered (`Piece.lost`), so a span never
  delivers a byte twice; what its recovery budget does not cover ends the pass.

  A read that comes back empty ends a pass quietly.  A source with a size may do
  that early, and then `_require_whole` finds it short; one without a size does
  so only at its end, where `http/file.py` raises for a body that stops short.
-/
import XrdClient.Copy.Verify
import XrdClient.Lib.Extent

set_option autoImplicit false

namespace XrdClient.Copy

open XrdClient.Lib

/-! ## State and script -/

/-- What a copy acts on. -/
structure World where
  /-- What the target's URL names. -/
  file : Option Bytes := none
  /-- What this copy has put on the caller's stream. -/
  written : Bytes := []
  /-- What the caller's stream has yet to yield. -/
  rest : Bytes := []
  /-- What the digest of the attempt under way has seen. -/
  digested : Bytes := []
  /-- This copy has created or truncated the target. -/
  made : Bool := false
  /-- What clean-ups have removed: the bytes it held, and whether it was made here. -/
  cleared : List (Bytes × Bool) := []
  deriving DecidableEq

/-- How one pass over the bytes goes. -/
structure Script where
  /-- What opening the source raises, or asking where its replicas are. -/
  source : Option Fault := none
  /-- What opening the target raises. -/
  target : Option Fault := none
  /-- The open that raised had been carried out all the same. -/
  took : Bool := false
  /-- The file system sizes a file ahead of its bytes, says that it cannot, or
  fails. -/
  sizing : Except Fault Bool := .ok true
  /-- How many replicas were found. -/
  replicas : Nat := 1
  pieces : List Piece := []
  /-- What ends the pass; every read ran dry if nothing does. -/
  ended : Option Fault := none
  /-- An upload that is cut is closed, and what it had sent may be kept. -/
  commits : Bool := false
  /-- Bytes read off the caller's stream ahead of the ones written. -/
  ahead : Nat := 0
  /-- The file system removes what it is asked to. -/
  removes : Bool := true

/-- What a pass returns, and the world it leaves. -/
abbrev Moved (α : Type) : Type := Except Fault α × World

/-! ## Opening the target -/

/-- The target created, or cut to nothing. -/
def World.truncate (w : World) : World := { w with file := some [], made := true }

/-- `_writer`: truncating, or exclusive.  An upload sends nothing at its open. -/
def writer (job : Job) (script : Script) (w : World) : Moved Unit :=
  match job.dst with
  | none => (.ok (), w)
  | some .other => (.error (script.target.getD .unsupported), w)
  | some dst =>
    if w.file.isSome && !job.overwrite then (.error (script.target.getD .exists), w)
    else match script.target with
      | some e => (.error e, if script.took && dst.writesAtOffset then w.truncate else w)
      | none => (.ok (), if dst.writesAtOffset then w.truncate else w)

/-- `_resumer`: opened for update, keeping what is there. -/
def resumer (job : Job) (script : Script) (w : World) : Moved Unit :=
  match script.target with
  | some e => (.error e, w)
  | none =>
    if !job.dst.any (·.writesAtOffset) then (.error .unsupported, w)
    else if w.file.isNone then (.error .os, w)
    else (.ok (), w)

/-! ## One stream -/

/-- What the source has to give. -/
def contentOf (setting : Setting) (job : Job) (w : World) : Bytes :=
  if job.src.isSome then setting.content else w.rest

/-- `_source_stream`: the size the source is trusted to have. -/
def total (job : Job) (content : Bytes) : Option Nat :=
  match job.src with
  | none => none
  | some src =>
    if job.dynamic then none
    else if src.member.isSome || src.scheme.writesAtOffset then some content.length
    else none

/-- `_reader` knows the scheme. -/
def readable (job : Job) : Bool := job.src.all fun src => src.scheme != .other

/-- `_require_whole`, and the count it lets through. -/
def requireWhole (moved count : Nat) (expected : Option Nat) : Except Fault Nat :=
  match expected with
  | some size => if moved < size then .error .xrootd else .ok count
  | none => .ok count

/-- Where a stream of bytes from `offset` ends up when the script has run. -/
def streamed (content base : Bytes) (offset : Nat) (sized : Bool) (script : Script) :
    Landing UInt8 :=
  let l := Landing.run 0 content ⟨base, [{ start := offset, length := content.length - offset }]⟩
    script.pieces
  if script.ended.isNone && !sized then Landing.step 0 content l (.landed 0 content.length) else l

/-- What a pass over one stream leaves: the file as far as it was written, or, over
HTTP, what the close committed. -/
def settle (job : Job) (script : Script) (content : Bytes) (offset : Nat) (l : Landing UInt8)
    (w : World) : World :=
  let w := { w with
    digested := w.digested ++ slice content offset l.moved
    rest := if job.src.isSome then w.rest else w.rest.drop (l.moved + script.ahead) }
  match job.dst with
  | none => { w with written := w.written ++ l.file }
  | some dst =>
    if dst.writesAtOffset then { w with file := some l.file }
    else if script.ended.isNone || script.commits then { w with file := some l.file, made := true }
    else w

/-- What a stream writes behind: the target's bytes, for one written at offsets. -/
def baseOf (job : Job) (w : World) : Bytes :=
  if job.dst.any (·.writesAtOffset) then w.file.getD [] else []

/-- The pump, between two ends that are open. -/
def pump (setting : Setting) (job : Job) (offset : Nat) (script : Script) (w : World) :
    Moved Nat :=
  let content := contentOf setting job w
  let size := total job content
  let l := streamed content (baseOf job w) offset size.isSome script
  let w := settle job script content offset l w
  match script.ended with
  | some e => (.error e, w)
  | none => (requireWhole (offset + l.moved) l.moved size, w)

/-- `_one_stream`. -/
def oneStream (setting : Setting) (job : Job) (resuming : Option Nat) (script : Script)
    (w : World) : Moved Nat :=
  match script.source with
  | some e => (.error e, w)
  | none =>
    if !readable job then (.error .unsupported, w)
    else match (if resuming.isSome then resumer job script w else writer job script w) with
      | (.error e, w) => (.error e, w)
      | (.ok _, w) => pump setting job (resuming.getD 0) script w

/-! ## Several workers -/

/-- `-(-size // workers)`: a worker's share, rounded up. -/
def share (size workers : Nat) : Nat := (size + workers - 1) / workers

/-- Pieces of `size` bytes land in the target, in stripes of `width`. -/
def World.fill (w : World) (setting : Setting) (size width : Nat) (script : Script) :
    Landing UInt8 :=
  Landing.run 0 setting.content ⟨w.file.getD [], divide size width⟩ script.pieces

/-- The fan-out of `_in_parallel` and of `fetch`, into a target that is open. -/
def fanOut (setting : Setting) (size width : Nat) (script : Script) (w : World) : Moved Nat :=
  let l := w.fill setting size width script
  let w := { w with file := some l.file }
  match script.ended with
  | some e => (.error e, w)
  | none => (requireWhole l.moved l.moved (some size), w)

/-- `_in_parallel`.  The spans open their own readers, so what that raises ends
the pass. -/
def inParallel (setting : Setting) (job : Job) (s : Spread) (script : Script) (w : World) :
    Moved Nat :=
  match writer job script w with
  | (.error e, w) => (.error e, w)
  | (.ok _, w) => fanOut setting s.size (share s.size s.workers) script w

/-- `BLOCK_SIZE`. -/
def blockSize : Nat := 134217728

/-- `_from_replicas`: the replicas are found before the target is touched, and
one whose reads fail hands its block to the next. -/
def fromReplicas (setting : Setting) (job : Job) (sources : Nat) (script : Script) (w : World) :
    Moved Nat :=
  match script.source with
  | some e => (.error e, w)
  | none =>
    match writer job script w with
    | (.error e, w) => (.error e, w)
    | (.ok _, w) =>
      if script.replicas = 0 then (.error .xrootd, w)
      else
        let size := setting.content.length
        fanOut setting size (max job.chunk (min blockSize (size / min sources script.replicas)))
          script w

/-! ## The bulk plane -/

/-- `client.bulk._plan`: how many connections. -/
def bulkCount (config : Config) (size : Nat) : Nat :=
  max 1 (min (max 1 config.bulkWorkers)
    (if size = 0 then 1 else share size config.bulkChunk))

/-- `_create`: whether the file was created. -/
def create (overwrite : Bool) (w : World) : Moved Bool :=
  match w.file with
  | none => (.ok true, w.truncate)
  | some _ => if overwrite then (.ok false, w) else (.error .exists, w)

/-- `_preallocate`. -/
def World.preallocate (w : World) (size : Nat) : World :=
  { w with file := some (resize 0 size (w.file.getD [])), made := true }

/-- `download`, into a file that is open: what it moved, and whether any bytes
had landed when it ended. -/
def download (setting : Setting) (job : Job) (script : Script) (w : World) : Moved Nat × Bool :=
  match script.source with
  | some e => ((.error e, w), false)
  | none =>
    match script.sizing with
    | .error e => ((.error e, w), false)
    | .ok sized =>
      let size := setting.content.length
      let w := if sized then w.preallocate size else w
      let l := w.fill setting size (share size (bulkCount job.config size)) script
      let w := { w with file := some l.file }
      match script.ended with
      | some e => ((.error e, w), 0 < l.moved)
      | none => ((if l.moved = size then .ok l.moved else .error .xrootd, w), 0 < l.moved)

/-- `_bulk_to_file`: a file it created is removed again if it failed before a byte
arrived, or was declined. -/
def bulkToFile (setting : Setting) (job : Job) (script : Script) (w : World) : Moved Nat :=
  match script.target with
  | some e => (.error e, w)
  | none =>
    match create job.overwrite w with
    | (.error e, w) => (.error e, w)
    | (.ok created, w) =>
      match download setting job script w with
      | ((.ok n, w), _) => (.ok n, w)
      | ((.error e, w), arrived) =>
        (.error e,
          if created && (!arrived || e == .bulkUnsupported) && script.removes
          then { w with file := none } else w)

/-- `_bulk_to_stream`: one worker, in order, digested on the way. -/
def bulkToStream (setting : Setting) (script : Script) (w : World) : Moved Nat :=
  match script.source with
  | some e => (.error e, w)
  | none =>
    let content := setting.content
    let l := Landing.run 0 content (Landing.single [] content.length) script.pieces
    let w := { w with
      written := w.written ++ l.file
      digested := w.digested ++ slice content 0 l.moved }
    match script.ended with
    | some e => (.error e, w)
    | none => (if l.moved = content.length then .ok l.moved else .error .xrootd, w)

/-- `_bulk`: nothing, if the server declined. -/
def bulk (setting : Setting) (job : Job) (script : Script) (w : World) : Moved (Option Nat) :=
  match (if job.dst.isSome then bulkToFile setting job script w
    else bulkToStream setting script w) with
  | (.ok n, w) => (.ok (some n), w)
  | (.error .bulkUnsupported, w) => (.ok none, w)
  | (.error e, w) => (.error e, w)

/-! ## Every way -/

/-- The rest of `_move`, when the bulk plane is not used or was declined. -/
def moveGeneral (setting : Setting) (job : Job) (p : Plan) (script : Script) (w : World) :
    Moved Nat :=
  if p.sources ≠ 0 then fromReplicas setting job p.sources script w
  else match p.spread with
    | some s => inParallel setting job s script w
    | none => oneStream setting job p.resuming script w

/-- `_move`. -/
def move (setting : Setting) (job : Job) (p : Plan) (bulkScript script : Script) (w : World) :
    Moved Nat :=
  if p.bulking then
    match bulk setting job bulkScript w with
    | (.error e, w) => (.error e, w)
    | (.ok (some n), w) => (.ok n, w)
    | (.ok none, w) => moveGeneral setting job p script w
  else moveGeneral setting job p script w

end XrdClient.Copy
