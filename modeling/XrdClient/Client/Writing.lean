/-
  Client/Writing.lean --- what writes to an open file, and what the server makes of it.

  Source: `client/_writing.py`; `_write_batches`, `_range` and `_clone_extent` of
  `client/_vector.py`; `checkpoint` of `client/file.py`.

  A handle that writes is never opened again, so a request is sent once, or twice where a
  data path did not answer it.  A `Fate` is what becomes of one request: it is answered, and
  then the server has executed it, or it is not, and then the server may have stored a part.

  On the bulk plane the pieces of a window are on the wire together.  Their ranges are
  apart, so that it does not matter in which order the server stores them; which of two
  failures is raised does not matter here.
-/
import XrdClient.Client.Reading
import XrdClient.Crypto.Pages
import XrdClient.Session.Writes

set_option autoImplicit false

namespace XrdClient.Client

open XrdClient.Lib
open XrdClient.Session
open XrdClient.Proto (MAX_RESPONSE_BODY)
open XrdClient.Crypto (pageSpan)

def WRITEV_MAX_ELEMENT : Nat := 2097152

def READV_MAX_CHUNKS : Nat := 1024

def READV_MAX_BYTES : Nat := 2097152

def CLONE_MAX_RANGES : Nat := 1024

def PGW_MAX_RETRY : Nat := 3

def kXR_InvalidRequest : Nat := 3006

/-! ## What a write meets -/

/-- What becomes of a request that writes.  `kept` is how much of its data the server has stored
of one that it does not answer; of one without data, whether it was executed. -/
inductive Fate where
  | acked
  | failed (kept : Nat) (e : FileError)
  deriving DecidableEq

/-- How a chunk is run: down a data path that it arrives on, and then over the control link. -/
structure WriteWay where
  arrival : Option Fate := none
  /-- What is raised on the path is neither an `XRootDError` nor a `ValueError`. -/
  foreign : Bool := false
  control : Fate := .acked
  deriving DecidableEq

/-- The pieces that went out on the plane, and what ended the exchange if it was not they. -/
structure Window where
  fates : List Fate
  ended : Option FileError := none
  deriving DecidableEq

/-- What comes of borrowing the connection to write. -/
inductive WritePlane where
  | declines
  | lost
  | protocol
  | lends (window : Window)
  deriving DecidableEq

/-- What one write meets. -/
structure WriteWeather where
  /-- `_paths_idle()`. -/
  idle : Bool := true
  plane : WritePlane := .declines
  ways : Nat → WriteWay := fun _ => {}

/-- What a stream of pieces meets. -/
structure PiecesWeather where
  idle : Bool := true
  plane : WritePlane := .declines
  /-- The caller is told of the pieces that the server would not have yet. -/
  waited : Bool := false
  serial : Nat → WriteWeather := fun _ => {}
  /-- What the caller's callbacks raise behind a piece. -/
  hooks : Nat → Option FileError := fun _ => none

/-- What a paged write meets: each request, and the pages that the server says are corrupt. -/
structure PagedTurn where
  fate : Fate := .acked
  corrupt : List Int := []
  deriving DecidableEq

/-- What a clone meets. -/
structure CloneWeather where
  /-- The other file is open, and on the same session. -/
  sourceOpen : Bool := true
  sameSession : Bool := true
  sourceSize : Except FileError Nat
  source : Bytes
  fates : Nat → Fate := fun _ => .acked

/-- A range as the caller gives it: offset, length, and where it goes. -/
structure CloneRange where
  offset : Int
  length : Int
  target : Option Int := none
  deriving DecidableEq

namespace File

/-! ## The server -/

/-- `data` is stored at `offset`.  In a file opened to append it is placed at the end. -/
def stored (f : File) (offset : Nat) (data : Bytes) : File :=
  { f with server := if f.flags.append then f.server ++ data else writeAt 0 f.server offset data }

/-- The first `kept` bytes of some writes are stored, in their order. -/
def storedEach (f : File) : List (Nat × Bytes) → Nat → File
  | [], _ => f
  | (offset, data) :: rest, kept => storedEach (f.stored offset (data.take kept)) rest (kept - data.length)

/-- One request with some writes in it. -/
def putEach (fate : Fate) (writes : List (Nat × Bytes)) : Op Unit := do
  handle
  match fate with
  | .acked => Act.modify fun f => f.storedEach writes (writes.map fun w => w.2.length).sum
  | .failed kept e => do
      Act.modify fun f => f.storedEach writes kept
      Act.throw e

/-- One `kXR_write`. -/
def put (fate : Fate) (offset : Nat) (data : Bytes) : Op Unit := putEach fate [(offset, data)]

/-- `_bulk`, of a write: what is raised on the data path sends it again. -/
def bulkWrite (way : WriteWay) (offset : Nat) (piece : Bytes) : Op Unit :=
  match way.arrival with
  | none => put way.control offset piece
  | some fate =>
      Act.tryExcept (put fate offset piece) fun e =>
        if way.foreign then Act.throw e else put way.control offset piece

/-- `_invalidate`. -/
def invalidate (high : Nat) (exact : Bool := false) : Op Unit :=
  Act.modify fun f => { f with sizeHint := if exact then high else max f.sizeHint high, stat := none }

/-! ## `write` -/

/-- The loop of `_event_write`. -/
def writeLoop (ways : Nat → WriteWay) (limit : Int) (view : Bytes) (offset : Nat) :
    Nat → Nat → Nat → Op Nat
  | 0, _, _ => Act.throw .never
  | fuel + 1, i, written =>
      if view.length ≤ written then pure written
      else do
        let piece := (sliceTo view (written + limit)).drop written
        bulkWrite (ways i) (offset + written) piece
        writeLoop ways limit view offset fuel (i + 1) (written + piece.length)

/-- `_event_write`.  In a checkpoint no data path is taken. -/
def eventWrite (ways : Nat → WriteWay) (view : Bytes) (offset : Nat) : Op Nat := do
  let f ← Act.get
  let ways := if f.checkpoint then fun i => { ways i with arrival := none } else ways
  let written ← writeLoop ways f.config.chunkSize view offset (view.length + 1) 0 0
  invalidate (offset + written)
  pure written

/-- `_writes_on_plane`. -/
def writesOnPlane (f : File) (idle : Bool) : Bool :=
  f.config.bulk && !f.checkpoint && !f.flags.append && idle

/-- A `BulkReader` can be made with these. -/
def Makes (chunk depth : Int) : Prop := 1 ≤ chunk ∧ chunk ≤ MAX_RESPONSE_BODY ∧ 1 ≤ depth

instance (chunk depth : Int) : Decidable (Makes chunk depth) := inferInstanceAs (Decidable (_ ∧ _ ∧ _))

/-- The pieces that went out, as the server has stored them. -/
def landed (f : File) : List (Nat × Bytes) → List Fate → File
  | (offset, piece) :: rest, .acked :: fates => landed (f.stored offset piece) rest fates
  | (offset, piece) :: rest, .failed kept _ :: fates => landed (f.stored offset (piece.take kept)) rest fates
  | _, _ => f

/-- The failure that the plane raises.  A piece that the server would not have yet is none, for a
caller who is told of it. -/
def firstFailure (waited : Bool) (fates : List Fate) : Option FileError :=
  fates.findSome? fun
    | .acked => none
    | .failed _ e => if waited ∧ e = .bulkUnsupported then none else some e

/-- The ranges that were acknowledged. -/
def acknowledged (pieces : List (Nat × Bytes)) (fates : List Fate) : List (Nat × Nat) :=
  (pieces.zip fates).filterMap fun p => if p.2 = .acked then some (p.1.1, p.1.2.length) else none

/-- `write_chunks`. -/
def stream (waited : Bool) (pieces : List (Nat × Bytes)) (w : Window) : Op Nat := do
  Act.modify fun f => f.landed pieces w.fates
  match (firstFailure waited w.fates).or w.ended with
  | some e => Act.throw e
  | none =>
      if w.fates.length < pieces.length then Act.throw .transient
      else pure ((acknowledged pieces w.fates).map Prod.snd).sum

/-- The pieces of `write_from`. -/
def cuts (chunk : Nat) (view : Bytes) (offset : Nat) : List (Nat × Bytes) :=
  (BulkReader.chunks chunk view.length).map fun c => (offset + c.1, slice view c.1 c.2)

/-- `_plane_write`; `none` if the plane declined. -/
def planeWrite (w : WriteWeather) (view : Bytes) (offset : Nat) : Op (Option Nat) := do
  let f ← Act.get
  let chunk := f.config.chunkSize
  if chunk = 0 then Act.throw .zeroDivision
  else do
    handle
    match w.plane with
    | .declines => pure none
    | .lost => Act.throw .transient
    | .protocol => Act.throw .protocol
    | .lends window =>
        if Makes chunk (min f.config.bulkDepth (ceilDiv view.length chunk)) then
          Act.tryExcept (do
              let written ← stream false (cuts chunk.toNat view offset) window
              pure (some written))
            fun e => if e = .bulkUnsupported then pure none else Act.throw e
        else Act.throw .value

/-- `write`. -/
def write (w : WriteWeather) (view : Bytes) (offset : Nat) : Op Nat := do
  let f ← Act.get
  if view ≠ [] ∧ f.writesOnPlane w.idle = true then do
    match ← planeWrite w view offset with
    | some written => do
        invalidate (offset + written)
        pure written
    | none => eventWrite w.ways view offset
  else eventWrite w.ways view offset

/-! ## `write_pieces` -/

/-- The furthest byte that was acknowledged. -/
def highWater (w : PiecesWeather) (pieces : List Bytes) (offset : Nat) : Nat :=
  match w.plane with
  | .lends window =>
      ((acknowledged (BulkReader.placed offset pieces) window.fates).map fun p => p.1 + p.2).foldl max offset
  | _ => offset

/-- `_stream_on_plane`. -/
def streamOnPlane (w : PiecesWeather) (pieces : List Bytes) (offset : Nat) (depth : Int) : Op Nat :=
  Act.tryFinally
    (do
      handle
      let f ← Act.get
      match w.plane with
      | .declines => Act.throw .bulkUnsupported
      | .lost => Act.throw .transient
      | .protocol => Act.throw .protocol
      | .lends window =>
          if Makes f.config.chunkSize (if depth = 0 then f.config.bulkDepth else depth) then
            stream w.waited (BulkReader.placed offset pieces) window
          else Act.throw .value)
    (invalidate (highWater w pieces offset))

/-- `_stream_serially`: what is left, the number of the piece, and what was written. -/
def streamSerially (w : PiecesWeather) (offset : Nat) : List Bytes → Nat → Nat → Op Nat
  | [], _, done => pure done
  | piece :: rest, i, done => do
      let count ← write (w.serial i) piece (offset + done)
      match w.hooks i with
      | some e => Act.throw e
      | none => streamSerially w offset rest (i + 1) (done + count)

/-- `write_pieces`.  The plane is given up only before the first piece is taken. -/
def writePieces (w : PiecesWeather) (pieces : List Bytes) (offset : Nat) (depth : Int) : Op Nat := do
  let f ← Act.get
  if f.writesOnPlane w.idle = true then
    Act.tryExcept (streamOnPlane w pieces offset depth) fun e =>
      if e = .bulkUnsupported ∧ w.plane = .declines then streamSerially w offset pieces 0 0
      else Act.throw e
  else streamSerially w offset pieces 0 0

/-! ## `writev` and `clone` -/

/-- `_write_pieces`. -/
def elements (chunk : Nat × Bytes) : List (Nat × Bytes) :=
  if chunk.2.length ≤ WRITEV_MAX_ELEMENT then [chunk] else cuts WRITEV_MAX_ELEMENT chunk.2 chunk.1

/-- The loop of `_write_batches`. -/
def batchLoop (batch : List (Nat × Bytes)) (total : Nat) : List (Nat × Bytes) → List (List (Nat × Bytes))
  | [] => if batch = [] then [] else [batch]
  | chunk :: rest =>
      if batch ≠ [] ∧ (READV_MAX_CHUNKS ≤ batch.length ∨ READV_MAX_BYTES < total + chunk.2.length) then
        batch :: batchLoop [chunk] chunk.2.length rest
      else batchLoop (batch ++ [chunk]) (total + chunk.2.length) rest

/-- `_write_batches`. -/
def writeBatches (items : List (Nat × Bytes)) : List (List (Nat × Bytes)) :=
  batchLoop [] 0 (items.flatMap elements)

/-- Some requests, one behind the other. -/
def putAll (fates : Nat → Fate) (translate : FileError → FileError) :
    Nat → List (List (Nat × Bytes)) → Op Unit
  | _, [] => pure ()
  | i, batch :: rest => do
      Act.tryExcept (putEach (fates i) batch) fun e => Act.throw (translate e)
      putAll fates translate (i + 1) rest

/-- `writev`. -/
def writev (fates : Nat → Fate) (items : List (Nat × Bytes)) : Op Nat :=
  if items = [] then pure 0
  else do
    let f ← Act.get
    if f.checkpoint then Act.throw .unsupported
    else do
      let batches := writeBatches items
      putAll fates id 0 batches
      invalidate ((batches.flatten.map fun w => w.1 + w.2.length).foldl max 0)
      pure (batches.flatten.map fun w => w.2.length).sum

/-- `_range`: offset, length and destination, none of them negative. -/
def checkedRange (r : CloneRange) : Except FileError (Nat × Nat × Nat) :=
  let target := r.target.getD r.offset
  if r.offset < 0 ∨ r.length < 0 ∨ target < 0 then .error .value
  else .ok (r.offset.toNat, r.length.toNat, target.toNat)

/-- `_clone_items`. -/
def cloneItems (w : CloneWeather) : Option (List CloneRange) → Except FileError (List (Nat × Nat × Nat))
  | none => do
      let size ← w.sourceSize
      pure ([(0, size, 0)].filter fun r => r.2.1 ≠ 0)
  | some ranges => do
      let items ← ranges.mapM checkedRange
      pure (items.filter fun r => r.2.1 ≠ 0)

/-- What `_send_clone` makes of a refusal. -/
def cloneError : FileError → FileError
  | .server code => if code = kXR_InvalidRequest then .unsupported else .server code
  | e => e

/-- `clone`. -/
def clone (w : CloneWeather) (ranges : Option (List CloneRange)) : Op Nat := do
  handle
  let f ← Act.get
  if w.sourceOpen = false then Act.throw .closed
  else if w.sameSession = false then Act.throw .value
  else if f.checkpoint then Act.throw .unsupported
  else do
    let items ← Act.ofExcept (cloneItems w ranges)
    let batches := (BulkReader.chunks CLONE_MAX_RANGES items.length).map fun c => slice items c.1 c.2
    putAll w.fates cloneError 0
      (batches.map fun batch => batch.map fun r => (r.2.2, slice w.source r.1 r.2.1))
    let total := (batches.flatten.map fun r => r.2.1).sum
    if total = 0 then pure total
    else do
      invalidate ((batches.flatten.map fun r => r.2.2 + r.2.1).foldl max 0)
      pure total

/-! ## `pgwrite` -/

/-- `_pgwrite_once`. -/
def pgwriteOnce (turn : PagedTurn) (data : Bytes) (offset : Nat) : Op (List Int) := do
  put turn.fate offset data
  pure turn.corrupt

/-- The loop of `_pgwrite_retry`. -/
def resendPage (turns : Nat → PagedTurn) (page : Bytes) (offset : Nat) : Nat → Nat → Op Unit
  | 0, _ => Act.throw (.pageIntegrity offset)
  | left + 1, i => do
      let corrupt ← pgwriteOnce (turns i) page offset
      if corrupt = [] then pure () else resendPage turns page offset left (i + 1)

/-- `_pgwrite_retry`. -/
def pgwriteRetry (turns : Nat → PagedTurn) (data : Bytes) (base : Nat) (pageOffset : Int) : Op Unit :=
  let start := pageOffset - base
  if 0 ≤ start ∧ start < data.length then
    resendPage turns (slice data start.toNat (pageSpan pageOffset.toNat (data.length - start.toNat)))
      pageOffset.toNat PGW_MAX_RETRY 0
  else Act.throw .protocol

/-- The pages that were corrupt, one after the other. -/
def retryPages (turns : Nat → Nat → PagedTurn) (data : Bytes) (base : Nat) : List Int → Nat → Op Unit
  | [], _ => pure ()
  | page :: rest, i => do
      pgwriteRetry (turns i) data base page
      retryPages turns data base rest (i + 1)

/-- `pgwrite`. -/
def pgwrite (first : PagedTurn) (turns : Nat → Nat → PagedTurn) (data : Bytes) (offset : Nat) : Op Nat :=
  if data = [] then pure 0
  else do
    let corrupt ← pgwriteOnce first data offset
    retryPages turns data offset corrupt 0
    invalidate (offset + data.length)
    pure data.length

/-! ## `truncate`, `sync` and checkpoints -/

/-- A request without data: `change` is what it does on the server. -/
def control (fate : Fate) (change : File → File) : Op Unit := do
  handle
  match fate with
  | .acked => Act.modify change
  | .failed kept e => do
      Act.modify fun f => if kept = 0 then f else change f
      Act.throw e

/-- `truncate`.  No server takes a length below nothing. -/
def truncate (fate : Fate) (size : Int) : Op Int :=
  if size < 0 then Act.throw (.server 0)
  else do
    control fate fun f => { f with server := resize 0 size.toNat f.server }
    invalidate size.toNat true
    pure size

/-- `sync`. -/
def sync (fate : Fate) : Op Unit := control fate fun f => f

/-- The way into a `checkpoint` block. -/
def beginCheckpoint (fate : Fate) : Op Unit := do
  let f ← Act.get
  if f.checkpoint then Act.throw .unsupported
  else do
    control fate fun f => { f with journal := f.server }
    Act.modify fun f => { f with checkpoint := true }

/-- The way out of the block.  A commit that is not executed is rolled back. -/
def commit (fate : Fate) : Op Unit := do
  let f ← Act.get
  if f.checkpoint then do
    Act.modify fun f => { f with checkpoint := false }
    handle
    match fate with
    | .acked => pure ()
    | .failed kept e => do
        Act.modify fun f => if kept = 0 then { f with server := f.journal } else f
        Act.throw e
  else pure ()

/-- The way out of the block by an exception. -/
def rollback (fate : Fate) : Op Unit := do
  let f ← Act.get
  if f.checkpoint then do
    Act.modify fun f => { f with checkpoint := false }
    control fate fun f => { f with server := f.journal }
    Act.modify fun f => { f with stat := none }
  else pure ()

end File

end XrdClient.Client
