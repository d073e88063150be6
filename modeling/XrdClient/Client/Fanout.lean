/-
  Client/Fanout.lean --- a file over several connections.

  Source: `client/bulk.py`, `_plan`, `_spans`, `_jobs`, `_Transfer.span`, `_Recovery`,
  `download`, `stream`, `_ordered_run`, `upload` and `_send`; `stream` and `write_chunks` of
  `session/bulk.py`; `write_pieces` of `client/_writing.py`.

  Every worker has a span of the file, a connection of its own, and reads on from what it
  has delivered when it loses the server.  The steps of the workers come in any order: an
  open, a turn of the reader's loop, a piece consumed, a piece counted.  What can go wrong
  goes wrong at any of them.  `run_all` is back when every job is, or raises.

  The source holds the same bytes throughout, and a read of it is answered with what is
  there.  A download writes each piece where it belongs; a stream waits until it is next.

  An upload has one connection, and several writes in flight on it.
-/
import XrdClient.Lib.Extent
import XrdClient.Lib.Bytes
import XrdClient.Proto.Wire

set_option autoImplicit false

namespace XrdClient.Client

open XrdClient.Lib
open XrdClient.Proto

/-! ## Plans -/

/-- `-(-a // b)`. -/
def ceilDiv (a b : Int) : Int := -((-a).fdiv b)

/-- `_plan`: how many workers. -/
def plan (size want chunk : Int) : Nat :=
  (max 1 (min (max 1 want) (if size = 0 then 1 else ceilDiv size chunk))).toNat

/-- `range(0, stop, step)`. -/
def rangeTo (stop step : Nat) : List Nat := (List.range ((stop + step - 1) / step)).map (· * step)

/-- `_spans`. -/
def spans (size : Int) (workers : Nat) : List (Nat × Nat) :=
  if size ≤ 0 then [(0, 0)]
  else
    let step := if workers = 0 then size.toNat else (ceilDiv size workers).toNat
    (rangeTo size.toNat step).map fun start => (start, min step (size.toNat - start))

/-- The spans that `_jobs` makes jobs of. -/
def jobs (size : Int) (workers : Nat) : List (Nat × Nat) := (spans size workers).filter fun s => s.2 ≠ 0

/-! ## The reader -/

/-- The locals of `BulkReader.stream`. -/
structure Reading where
  chunk : Nat
  depth : Nat
  /-- The reads in flight, in the order they went out. -/
  issued : List (Nat × Nat) := []
  offset : Nat
  stop : Nat
  deriving DecidableEq

namespace Reading

/-- A request for every free slot. -/
def fill : Nat → Reading → Reading
  | 0, r => r
  | slots + 1, r =>
      if r.offset < r.stop then
        let want := min r.chunk (r.stop - r.offset)
        fill slots { r with issued := r.issued ++ [(r.offset, want)], offset := r.offset + want }
      else r

/-- One turn of the loop: `none` once nothing is in flight, else what is handed over. -/
def turn (source : Bytes) (r : Reading) : Option (Option (Nat × Bytes) × Reading) :=
  let r := r.fill (r.depth - r.issued.length)
  match r.issued with
  | [] => none
  | (offset, length) :: rest =>
      let got := slice source offset length
      let r := { r with issued := rest }
      -- a short reply is the end of the file
      let r := if got.length < length then
          let stop := min r.stop (offset + got.length)
          { r with stop, offset := min r.offset stop }
        else r
      some (if got = [] then none else some (offset, got), r)

end Reading

/-! ## The workers -/

/-- Where a worker is. -/
inductive Stage where
  /-- About to open the file. -/
  | opening
  | reading (r : Reading)
  /-- It has a piece. -/
  | holding (r : Reading) (offset : Nat) (data : Bytes)
  /-- The piece was consumed, and is to be counted. -/
  | landed (r : Reading) (offset count : Nat)
  | returned
  | raised
  deriving DecidableEq

/-- The locals of `span`. -/
structure Worker where
  start : Nat
  length : Nat
  done : Nat := 0
  attemptStart : Nat := 0
  /-- `recovery.chunk`. -/
  chunk : Int
  stage : Stage := .opening
  deriving DecidableEq

/-- What the caller's code does with a piece. -/
inductive Took where
  | all
  /-- It raises one of `_TRANSIENT`, and the worker takes up the span again or does not. -/
  | transient (again : Bool)
  /-- It raises something else, with `bytes` of the piece written. -/
  | raises (bytes : Nat)
  deriving DecidableEq

/-- What goes on at a worker. -/
inductive Happens where
  | opens
  | turns
  /-- The transfer was cancelled, or another worker has failed. -/
  | stops
  | consumes (took : Took)
  /-- `advance`, and what the progress hook does. -/
  | counts (took : Took)
  /-- The server is lost.  `again` is whether `pause` has budget left. -/
  | loses (again : Bool)
  /-- Anything else is raised. -/
  | fails
  deriving DecidableEq

structure Fanout where
  source : Bytes
  depth : Nat
  /-- `recovery._floor`. -/
  floor : Int
  /-- Pieces are written in order, and not where they belong. -/
  ordered : Bool
  total : Int
  workers : List Worker
  moved : Nat := 0
  restarts : Nat := 0
  /-- The destination of a download. -/
  dest : Bytes := []
  cursor : Nat := 0
  abandoned : Bool := false
  /-- The pieces that the writer of a stream took. -/
  taken : List (Nat × Bytes) := []
  /-- The ranges that were counted. -/
  counted : List (Nat × Nat) := []

namespace Fanout

/-- `except _TRANSIENT`. -/
def recover (f : Fanout) (i : Nat) (w : Worker) (again : Bool) : Fanout :=
  let chunk := if w.attemptStart < w.done then w.chunk else max f.floor (w.chunk.fdiv 2)
  if again then
    { f with restarts := f.restarts + 1, workers := f.workers.set i { w with chunk, stage := .opening } }
  else { f with workers := f.workers.set i { w with chunk, stage := .raised } }

def put (f : Fanout) (i : Nat) (w : Worker) : Fanout := { f with workers := f.workers.set i w }

/-- `consume`: `_pwrite_all`, or `ordered`. -/
def consume (f : Fanout) (i : Nat) (w : Worker) (r : Reading) (offset : Nat) (data : Bytes) (took : Took) : Fanout :=
  if f.ordered then
    if f.abandoned then f.put i { w with stage := .raised }
    else if f.cursor ≠ offset then f
    else match took with
      | .all =>
          { f with taken := f.taken ++ [(offset, data)], cursor := offset + data.length }.put i
            { w with done := w.done + data.length, stage := .landed r offset data.length }
      | .transient again => f.recover i w again
      | .raises _ => f.put i { w with stage := .raised }
  else match took with
    | .all =>
        { f with dest := writeAt 0 f.dest offset data }.put i
          { w with done := w.done + data.length, stage := .landed r offset data.length }
    -- `os.pwrite` raises an `OSError`, which none of `_TRANSIENT` is a base of
    | .transient _ => f.put i { w with stage := .raised }
    | .raises bytes => { f with dest := writeAt 0 f.dest offset (data.take bytes) }.put i { w with stage := .raised }

/-- One worker's next step; a step that is not its next one changes nothing. -/
def stepAt (f : Fanout) (i : Nat) (w : Worker) (happens : Happens) : Fanout :=
  match w.stage, happens with
  | .opening, .opens =>
      if 1 ≤ w.chunk ∧ w.chunk ≤ MAX_RESPONSE_BODY ∧ 1 ≤ f.depth then
        let r : Reading :=
          { chunk := w.chunk.toNat, depth := f.depth, offset := w.start + w.done, stop := w.start + w.length }
        f.put i { w with attemptStart := w.done, stage := .reading r }
      else f.put i { w with stage := .raised }
  | .reading r, .turns =>
      match r.turn f.source with
      | none => f.put i { w with stage := .returned }
      | some (none, r) => f.put i { w with stage := .reading r }
      | some (some (offset, data), r) => f.put i { w with stage := .holding r offset data }
  | .holding r offset data, .consumes took => f.consume i w r offset data took
  | .landed r offset count, .counts took =>
      let f := { f with moved := f.moved + count, counted := f.counted ++ [(offset, count)] }
      match took with
      | .all => f.put i { w with stage := .reading r }
      | .transient again => f.recover i w again
      | .raises _ => f.put i { w with stage := .raised }
  | .holding _ _ _, .stops => f.put i { w with stage := .raised }
  | .opening, .loses again => f.recover i w again
  | .reading _, .loses again => f.recover i w again
  | .opening, .fails => f.put i { w with stage := .raised }
  | .reading _, .fails => f.put i { w with stage := .raised }
  | _, _ => f

/-- A worker goes on, or `abandon` lets those that wait their turn go. -/
inductive Step where
  | worker (i : Nat) (happens : Happens)
  | abandon
  deriving DecidableEq

def step (f : Fanout) : Step → Fanout
  | .worker i happens =>
      match f.workers[i]? with
      | some w => f.stepAt i w happens
      | none => f
  | .abandon => if f.workers.any (fun w => decide (w.stage = .raised)) then { f with abandoned := true } else f

def run (f : Fanout) (steps : List Step) : Fanout := steps.foldl step f

/-- What the call returns, of `BulkResult` the size: every job is back, and as much has moved
as the file is long. -/
def result (f : Fanout) : Option Nat :=
  if f.workers.all (fun w => decide (w.stage = .returned)) = true ∧ (f.moved : Int) = f.total then some f.moved else none

end Fanout

/-- The arguments of a call, and what it finds. -/
structure Call where
  source : Bytes
  /-- `size`, or the length the open reply carried. -/
  total : Int
  /-- `workers`, or `config.bulk_workers`. -/
  want : Int
  /-- `chunk`, or `config.bulk_chunk`. -/
  chunk : Int
  depth : Nat
  /-- `config.bulk_recovery_chunk`. -/
  recoveryChunk : Int

namespace Call

/-- How many workers are asked for. -/
def count (c : Call) : Nat := plan c.total c.want c.chunk

def start (c : Call) (ordered : Bool) (dest : Bytes) : Fanout where
  source := c.source
  depth := c.depth
  floor := min (max c.recoveryChunk 1) c.chunk
  ordered := ordered
  total := c.total
  workers := (jobs c.total c.count).map fun s => { start := s.1, length := s.2, chunk := c.chunk }
  dest := dest

/-- `download`, to a file that held `before` and that takes being sized or does not. -/
def download (c : Call) (before : Bytes) (sized : Bool) (steps : List Fanout.Step) : Fanout :=
  (c.start false (if sized then resize 0 c.total.toNat before else before)).run steps

/-- `stream`. -/
def stream (c : Call) (steps : List Fanout.Step) : Fanout := (c.start true []).run steps

end Call

/-! ## Uploads -/

/-- The answer to a write. -/
inductive Stored where
  | ok
  | wait
  | refused
  deriving DecidableEq

/-- The locals of `upload`, `_send` and `write_chunks`, and the file on the server. -/
structure Upload where
  source : Bytes
  chunk : Nat
  depth : Nat
  /-- The source can be read again. -/
  seekable : Bool
  /-- How much of the source was read. -/
  offset : Nat := 0
  /-- The writes in flight. -/
  pending : List (Nat × Nat) := []
  /-- The writes that were put off. -/
  again : List (Nat × Nat) := []
  /-- A write was refused: nothing more is sent, and it is raised at the end. -/
  failed : Bool := false
  raised : Bool := false
  remote : Bytes := []
  /-- `moved.done`. -/
  moved : Nat := 0
  counted : List (Nat × Nat) := []

namespace Upload

inductive Step where
  /-- A piece is read, and sent. -/
  | send (bytes : Nat)
  /-- One of the writes in flight is answered. -/
  | answer (i : Nat) (stored : Stored)
  /-- A piece is read, and written off the bulk plane. -/
  | write (bytes : Nat)
  /-- The next write that was put off. -/
  | resend
  /-- Anything is raised. -/
  | raises
  deriving DecidableEq

/-- The server has stored a range, and that is counted. -/
def acknowledge (u : Upload) (range : Nat × Nat) : Upload :=
  { u with
    remote := writeAt 0 u.remote range.1 (slice u.source range.1 range.2)
    moved := u.moved + range.2
    counted := u.counted ++ [range] }

/-- What one `os.read` brings. -/
def piece (u : Upload) (bytes : Nat) : Nat := min (min bytes u.chunk) (u.source.length - u.offset)

def step (u : Upload) (s : Step) : Upload :=
  if u.raised then u
  else match s with
    | .send bytes =>
        if u.failed = false ∧ u.pending.length < u.depth ∧ 0 < u.piece bytes then
          { u with pending := u.pending ++ [(u.offset, u.piece bytes)], offset := u.offset + u.piece bytes }
        else u
    | .answer i stored =>
        match u.pending[i]? with
        | none => u
        | some range =>
            let u := { u with pending := u.pending.eraseIdx i }
            match stored with
            | .ok => u.acknowledge range
            | .wait => if u.seekable then { u with again := u.again ++ [range] } else { u with failed := true }
            | .refused => { u with failed := true }
    | .write bytes =>
        if u.failed = false ∧ u.pending = [] ∧ 0 < u.piece bytes then
          { u with offset := u.offset + u.piece bytes }.acknowledge (u.offset, u.piece bytes)
        else u
    | .resend =>
        match u.again with
        | [] => u
        | range :: rest =>
            if u.failed = false ∧ u.pending = [] ∧ u.offset = u.source.length then
              { u with again := rest }.acknowledge range
            else u
    | .raises => { u with raised := true }

def run (u : Upload) (steps : List Step) : Upload := steps.foldl step u

/-- What the call returns: the source was read to its end, and nothing is outstanding. -/
def result (u : Upload) : Option Nat :=
  if u.raised = false ∧ u.failed = false ∧ u.offset = u.source.length ∧ u.pending = [] ∧ u.again = [] then some u.moved
  else none

end Upload

end XrdClient.Client
