/-
  Session/Bulk.lean --- the bulk reader.

  Source: `session/bulk.py`, `BulkReader`.

  The reader has the control link to itself: it frames its own requests, keeps
  several in flight and takes each reply off the wire into the buffer it is for.
  A call is an `Act` over the reader, the machine and the session it borrowed,
  and the link.

  What the world does to a call is a list of `Tick`s.  One is used up for each
  time the reader looks at the clocks, waits for bytes, sends, or runs code of its
  caller (a callback, the source of a write, the consumer of a stream); when the
  list is at its end the peer hangs up.  Bytes that were not read yet are in
  `incoming`, so a receive takes from it what the tick lets through.

  `while True` loops run on fuel, and the fuel is the length of `incoming` or of
  the list of ticks: a turn takes a header off the wire, or uses up a tick, and a
  loop is never cut short.  Times are in milliseconds.
-/
import XrdClient.Lib.Act
import XrdClient.Proto.Pool

set_option autoImplicit false

namespace XrdClient.Proto

/-- `idle`: nothing is outstanding, so a caller may take the wire. -/
def MachineState.idle (m : MachineState) : Bool :=
  decide (m.state = .ready) && decide (m.pending = []) && decide (m.retired = [])

end XrdClient.Proto

namespace XrdClient.Session

open XrdClient.Lib
open XrdClient.Proto
open MachineState (serverError)

/-! ## What a call raises -/

/-- The exceptions of a call, one constructor for each place that raises. -/
inductive BulkError where
  /-- "connection closed with {outstanding} bytes of a reply outstanding" -/
  | closed (outstanding : Nat)
  /-- What the transport raised. -/
  | transport
  /-- "the bulk transfer was cancelled" -/
  | cancelled
  /-- "the bulk transfer expired before it completed" -/
  | expired
  /-- "bulk read stalled with {outstanding} bytes of a frame outstanding" -/
  | stalled (outstanding : Nat)
  /-- "bulk transfer: reply on stream {sid}, which is not one of the {count} in flight" -/
  | notInFlight (sid count : Nat)
  /-- "bulk read at offset {offset}: the server sent {got} bytes, more than the {length} …" -/
  | tooMuch (offset got length : Nat)
  /-- "unexpected reply to a write: stream {sid}, status {status}" -/
  | unexpectedReply (sid status : Nat)
  /-- "this bulk reader already has a read in progress" -/
  | inProgress
  /-- "write chunk exceeds the configured chunk size" -/
  | chunkTooLong
  /-- A `kXR_error`. -/
  | refused (error : SessionError)
  /-- `BulkUnsupported`: "server answered a bulk request with {status}; …" -/
  | unsupported (status : Nat)
  /-- What the machine or a decoder raised. -/
  | raised (error : Raised)
  /-- An id or an entry that is not there: `IndexError`, `KeyError`. -/
  | missing
  /-- The consumer closed the generator, or a callback or the source of the data raised. -/
  | caller
  deriving DecidableEq

/-! ## The world of a call -/

/-- How one receive comes out. -/
inductive Received where
  /-- There is nothing to read yet. -/
  | nothingYet
  /-- At most `n` bytes come, and one at least while there are any. -/
  | bytes (n : Nat)
  | hangsUp
  | fails
  deriving DecidableEq

/-- What the reader finds at one moment. -/
structure Tick where
  /-- `time.monotonic()`. -/
  now : Int := 0
  /-- `cancel.cancelled()`. -/
  cancelled : Bool := false
  /-- `deadline.remaining()`. -/
  remaining : Option Int := none
  received : Received := .hangsUp
  /-- A send goes through. -/
  sent : Bool := false
  /-- The caller's own code returns. -/
  goesOn : Bool := false
  deriving DecidableEq

/-- What a reader is made with, as `__init__` checks it. -/
structure BulkSettings where
  handle : Bytes
  chunk : Nat
  depth : Nat
  /-- `config.stall_deadline`; 0 for none. -/
  stallDeadline : Int
  /-- `config.wait_budget`. -/
  waitBudget : Int
  chunk_pos : 1 ≤ chunk
  chunk_le : chunk ≤ MAX_RESPONSE_BODY
  depth_pos : 1 ≤ depth

/-- The reader, the session it borrowed, and the link between them and the server. -/
structure BulkReader where
  settings : BulkSettings
  machine : MachineState
  /-- Stream ids the call in progress holds. -/
  leased : List Nat := []
  /-- Stream ids whose final reply has not come off the wire yet. -/
  owed : List Nat := []
  /-- The wire is part-way through a frame, or a request. -/
  torn : Bool := false
  expires : Option Int := none
  deadline : Option Int := none
  cancelBy : Option Int := none
  delivered : Nat := 0
  /-- The session's own `_broken`. -/
  broken : Bool := false
  notices : List AttnInfo := []
  /-- Bytes the server sent that nobody read yet. -/
  incoming : Bytes
  /-- Bytes put on the wire. -/
  outgoing : Bytes := []
  ticks : List Tick
  /-- Pieces handed to the consumer of a stream. -/
  yielded : List (Nat × Bytes) := []
  /-- Ranges reported to `acknowledged`. -/
  stored : List (Nat × Nat) := []
  /-- Ranges reported to `waited`. -/
  declined : List (Nat × Nat) := []
  /-- The stream of every request that went out whole, in order.  The code has no
  such record: it is what the server may answer. -/
  issued : List Nat := []

def HEADER : Nat := 8
def SINK : Nat := 64 <<< 10
def WAITRESP_GRACE : Int := 30000
def ASYNC : Nat := 16
def CANCEL_GRACE : Int := 250

abbrev Bulk : Type → Type := Act BulkReader BulkError

namespace BulkReader

/-- The next moment; past the last one the peer has hung up. -/
def tick : Bulk Tick := fun r =>
  match r.ticks with
  | [] => (.ok {}, r)
  | t :: ticks => (.ok t, { r with ticks := ticks })

/-- Code of the caller runs. -/
def callOut : Bulk Unit := do
  let t ← tick
  if t.goesOn then pure () else Act.throw .caller

/-! ## Clocks -/

/-- `_expired`. -/
def expired (r : BulkReader) (t : Tick) : Bool :=
  match r.deadline with
  | none => false
  | some deadline => deadline ≤ t.now

/-- `_stopped`. -/
def stopped : Bulk Bool := do
  let t ← tick
  let r ← Act.get
  pure (t.cancelled || r.expired t)

/-- `_abandon_now`: between frames at once, and in one after the grace. -/
def abandonNow (t : Tick) : Bulk Bool := do
  let r ← Act.get
  if r.torn = false then pure true
  else do
    let by_ := r.cancelBy.getD (t.now + CANCEL_GRACE)
    Act.modify fun r => { r with cancelBy := some by_ }
    pure (by_ ≤ t.now)

/-- `cancel.cancelled() and self._abandon_now()`. -/
def abandoned (t : Tick) : Bulk Bool := if t.cancelled then abandonNow t else pure false

/-- `_check_clocks`. -/
def checkClocks (t : Tick) (outstanding : Nat) : Bulk Unit := do
  let gone ← abandoned t
  if gone then Act.throw .cancelled
  else do
    let r ← Act.get
    if r.expired t then Act.throw .expired
    else if r.expires.any (· < t.now) then Act.throw (.stalled outstanding)
    else pure ()

/-! ## Receiving -/

/-- One `recv` of at most `n` bytes. -/
def take (n : Nat) : Bulk Bytes := fun r =>
  (.ok (r.incoming.take n), { r with incoming := r.incoming.drop n })

/-- `if fresh: self._torn = True`. -/
def tear (fresh : Bool) : Bulk Unit :=
  Act.modify fun r => { r with torn := r.torn || fresh }

/-- The loop of `_exact`, with `got` so far and `left` to come. -/
def fill (fresh : Bool) : Nat → Nat → Bytes → Bulk Bytes
  | 0, left, _ => Act.throw (.closed left)
  | fuel + 1, left, got =>
      if left = 0 then pure got
      else do
        let t ← tick
        checkClocks t left
        match t.received with
        | .nothingYet => fill fresh fuel left got
        | .hangsUp => Act.throw (.closed left)
        | .fails => Act.throw .transport
        | .bytes n => do
            let read ← take (min (max n 1) left)
            if read = [] then Act.throw (.closed left)
            else do
              tear fresh
              fill fresh fuel (left - read.length) (got ++ read)

/-- `_exact`: exactly `size` bytes.  A frame's first byte tears the wire. -/
def exact (size : Nat) (fresh : Bool := false) : Bulk Bytes := do
  let r ← Act.get
  fill fresh (r.ticks.length + 2) size []

/-- `_body`: the rest of a frame. -/
def body (size : Nat) : Bulk Bytes := do
  let body ← exact size
  Act.modify fun r => { r with torn := false }
  pure body

/-- What a decoder gives. -/
def decoded {α : Type} (x : Except ProtocolError α) : Bulk α :=
  match x with
  | .ok a => pure a
  | .error e => Act.throw (.raised (.protocol e))

/-- `_session.note(notice)`, for a notice of `body`. -/
def note (body : Bytes) : Bulk Unit := do
  let notice ← decoded (parseAttn body)
  Act.modify fun r => { r with notices := r.notices ++ [notice] }

/-- `_frame_header`: the next header, unwrapped, or nothing after a notice. -/
def frameHeader : Bulk (Option Header) := do
  let reply ← decoded (headerFields (← exact HEADER true))
  if reply.status ≠ kXR_attn then pure (some reply)
  else if reply.dlen < ASYNC then do
    note (← body reply.dlen)
    pure none
  else do
    let head ← exact HEADER
    let info ← decoded (parseAttn head)
    if info.action = kXR_asynresp then do
      let inner ← decoded (headerFields (← exact HEADER))
      -- what is left of this frame, whatever the inner header claims
      pure (some ⟨inner.sid, inner.status, reply.dlen - ASYNC⟩)
    else do
      note (head ++ (← body (reply.dlen - HEADER)))
      pure none

/-- `_deferred`: the answer gets the time the server asked for. -/
def deferred (body : Bytes) : Bulk Unit := do
  let later ← decoded (parseWaitresp body)
  let t ← tick
  Act.modify fun r => { r with
    expires := r.expires.map fun expires =>
      max expires (t.now + min (later.seconds * 1000) r.settings.waitBudget + WAITRESP_GRACE) }

/-- The loop of `_next_reply`. -/
def nextReplyLoop : Nat → Bulk Header
  | 0 => Act.throw (.closed HEADER)
  | fuel + 1 => do
      match ← frameHeader with
      | none => nextReplyLoop fuel
      | some reply => do
          let r ← Act.get
          if reply.sid ∉ r.owed then Act.throw (.notInFlight reply.sid r.owed.length)
          else if reply.status ≠ kXR_waitresp then pure reply
          else do
            deferred (← body reply.dlen)
            nextReplyLoop fuel

/-- `_next_reply`: the next header that answers a request still owed. -/
def nextReply : Bulk Header := do
  let r ← Act.get
  nextReplyLoop (r.incoming.length + 1)

/-- `_owed.discard(sid)`. -/
def settled (sid : Nat) : Bulk Unit :=
  Act.modify fun r => { r with owed := r.owed.filter (· ≠ sid) }

/-- `_InFlight`; `dest` holds what has been received of it. -/
structure InFlight where
  offset : Nat
  length : Nat
  slot : Nat := 0
  dest : Bytes := []
  deriving DecidableEq

/-- `_land`: data of `size` bytes behind what the entry has. -/
def land (entry : InFlight) (size : Nat) : Bulk InFlight :=
  if entry.length < entry.dest.length + size then
    Act.throw (.tooMuch entry.offset (entry.dest.length + size) entry.length)
  else do
    let data ← exact size
    pure { entry with dest := entry.dest ++ data }

/-- `_refuse`, as the exception it raises. -/
def refuse (status : Nat) (body : Bytes) : BulkError :=
  if status = kXR_error then
    match parseError body with
    | .ok info => .refused (serverError info [])
    | .error e => .raised (.protocol e)
  else .unsupported status

/-- `_collect`: one reply frame, and the stream whose entry it completes. -/
def collect (inflight : Assoc Nat InFlight) : Bulk (Option Nat × Assoc Nat InFlight) := do
  let reply ← nextReply
  if reply.status = kXR_ok ∨ reply.status = kXR_oksofar then
    match inflight.get reply.sid with
    | none => Act.throw .missing
    | some entry => do
        let entry ← land entry reply.dlen
        Act.modify fun r => { r with torn := false }
        let inflight := inflight.set reply.sid entry
        if reply.status = kXR_oksofar then pure (none, inflight)
        else do
          settled reply.sid
          pure (some reply.sid, inflight)
  else do
    let block ← body reply.dlen
    settled reply.sid
    Act.throw (refuse reply.status block)

/-! ## Giving the connection back -/

/-- `_drain`'s inner loop: a reply is thrown away a sinkful at a time. -/
def discard (sink : Nat) : Nat → Nat → Bulk Unit
  | 0, _ => pure ()
  | fuel + 1, left =>
      if left = 0 then pure ()
      else do
        let _ ← exact (min left sink)
        discard sink fuel (left - min left sink)

/-- `if reply.status != kXR_oksofar: self._owed.discard(reply.streamid)`. -/
def settledBy (reply : Header) : Bulk Unit :=
  if reply.status ≠ kXR_oksofar then settled reply.sid else pure ()

/-- The loop of `_drain`. -/
def drainLoop : Nat → Bulk Unit
  | 0 => Act.throw (.closed HEADER)
  | fuel + 1 => do
      let r ← Act.get
      if r.owed = [] then pure ()
      else do
        let reply ← nextReply
        discard (min r.settings.chunk SINK) reply.dlen reply.dlen
        Act.modify fun r => { r with torn := false }
        settledBy reply
        drainLoop fuel

/-- `_drain`. -/
def drain : Bulk Unit := do
  let r ← Act.get
  drainLoop (r.incoming.length + 1)

/-- `not self._torn and self._stopped()`. -/
def stoppedBetween (torn : Bool) : Bulk Bool := if torn = false then stopped else pure false

/-- `_hand_back`. -/
def handBack (sids : List Nat) : Bulk Unit := do
  let r ← Act.get
  let owed := r.owed
  Act.modify fun r => { r with owed := [] }
  if owed = [] ∧ r.torn = false then
    Act.modify fun r => { r with machine := r.machine.releaseSids sids }
  else do
    let stopped ← stoppedBetween r.torn
    if stopped then Act.modify fun r => { r with machine := r.machine.retireSids sids owed }
    else Act.modify fun r => { r with broken := true }

/-- `settle`'s first block: the replies still owed, if they can be had. -/
def drainOwed (owed : List Nat) (torn : Bool) : Bulk Unit :=
  if owed = [] ∨ torn = true then pure ()
  else do
    let stopped ← stopped
    if stopped then pure () else drain

/-- `settle`. -/
def settle : Bulk Unit := do
  let r ← Act.get
  let sids := r.leased
  Act.modify fun r => { r with leased := [] }
  if sids = [] then pure ()
  else Act.tryFinally (drainOwed r.owed r.torn) (handBack sids)

/-! ## Sending -/

/-- `_begin`: lease this call's ids and start its clocks. -/
def begin : Bulk (List Nat) := do
  let r ← Act.get
  if r.leased ≠ [] then Act.throw .inProgress
  else do
    let t ← tick
    let expires :=
      if r.settings.stallDeadline = 0 then none else some (t.now + r.settings.stallDeadline)
    Act.modify fun r => { r with
      expires := expires, deadline := t.remaining.map (t.now + ·), torn := false, cancelBy := none }
    match r.machine.leaseSids r.settings.depth with
    | (.error e, machine) => do
        Act.modify fun r => { r with machine := machine }
        Act.throw (.raised e)
    | (.ok sids, machine) => do
        Act.modify fun r => { r with machine := machine, leased := sids }
        pure sids

/-- `_send`: a send that fails part-way leaves half a request on the wire. -/
def send (sid : Nat) (frames : List Bytes) : Bulk Unit := do
  let t ← tick
  if t.cancelled then Act.throw .cancelled
  else do
    Act.modify fun r => { r with torn := true }
    if t.sent = false then Act.throw .transport
    else
      Act.modify fun r => { r with
        outgoing := r.outgoing ++ frames.flatten, torn := false
        owed := if sid ∈ r.owed then r.owed else r.owed ++ [sid], issued := r.issued ++ [sid] }

/-- `_issue`, and `_issue_write`. -/
def issue (sid : Nat) (request : Request) : Bulk Unit := do
  let r ← Act.get
  match r.machine.framePartsFor request sid with
  | (.error e, machine) => do
      Act.modify fun r => { r with machine := machine }
      Act.throw (.raised e)
  | (.ok frames, machine) => do
      Act.modify fun r => { r with machine := machine }
      send sid frames

/-! ## The four calls -/

/-- The variables of `stream`'s loop.  The ends that Python pops from and appends
to are the heads here. -/
structure Streaming where
  freeSids : List Nat
  freeSlots : List Nat
  inflight : Assoc Nat InFlight := []
  issued : List Nat := []
  done : List Nat := []
  offset : Nat
  stop : Nat

/-- `stream`'s inner loop: every free slot gets a request. -/
def ask : Nat → Streaming → Bulk Streaming
  | 0, l => pure l
  | fuel + 1, l =>
      match l.freeSlots with
      | [] => pure l
      | slot :: slots =>
          if l.stop ≤ l.offset then pure l
          else
            match l.freeSids with
            | [] => Act.throw .missing
            | sid :: sids => do
                let r ← Act.get
                let want := min r.settings.chunk (l.stop - l.offset)
                issue sid (readRequest r.settings.handle l.offset want)
                ask fuel { l with
                  freeSids := sids, freeSlots := slots
                  inflight := l.inflight.set sid ⟨l.offset, want, slot, []⟩
                  issued := l.issued ++ [sid], offset := l.offset + want }

/-- `_await_in_turn`'s loop: replies until the one on `sid` is in. -/
def awaitLoop (sid : Nat) : Nat → Streaming → Bulk Streaming
  | 0, _ => Act.throw (.closed HEADER)
  | fuel + 1, l =>
      if sid ∈ l.done then pure l
      else do
        match ← collect l.inflight with
        | (none, inflight) => awaitLoop sid fuel { l with inflight := inflight }
        | (some finished, inflight) =>
            awaitLoop sid fuel { l with inflight := inflight, done := finished :: l.done }

/-- `_await_in_turn`: the entry of `sid`, complete. -/
def awaitInTurn (sid : Nat) (l : Streaming) : Bulk (InFlight × Streaming) := do
  let r ← Act.get
  let l ← awaitLoop sid (r.incoming.length + 1) l
  match l.inflight.get sid with
  | none => Act.throw .missing
  | some entry =>
      pure (entry, { l with
        inflight := l.inflight.del sid, done := l.done.filter (· ≠ sid) })

/-- `yield entry.offset, entry.dest[: entry.got]`. -/
def hand (entry : InFlight) : Bulk Unit :=
  if entry.dest = [] then pure ()
  else do
    Act.modify fun r => { r with
      delivered := r.delivered + entry.dest.length
      yielded := r.yielded ++ [(entry.offset, entry.dest)] }
    callOut

/-- The loop of `stream`. -/
def streamLoop : Nat → Streaming → Bulk Unit
  | 0, _ => Act.throw (.closed HEADER)
  | fuel + 1, l => do
      let l ← ask l.freeSlots.length l
      match l.issued with
      | [] => pure ()
      | sid :: issued => do
          let (entry, l) ← awaitInTurn sid { l with issued := issued }
          let l := { l with freeSids := sid :: l.freeSids, freeSlots := entry.slot :: l.freeSlots }
          hand entry
          -- a short reply is the end of the file
          let stop := if entry.dest.length < entry.length then
            min l.stop (entry.offset + entry.dest.length) else l.stop
          streamLoop fuel { l with stop := stop, offset := min l.offset stop }

/-- `stream`, run by a consumer to its end or until the consumer closes it. -/
def stream (start length : Nat) : Bulk Unit :=
  if length = 0 then pure ()
  else do
    let sids ← begin
    let r ← Act.get
    Act.tryFinally
      (streamLoop (r.incoming.length + 1)
        { freeSids := sids.reverse, freeSlots := (List.range r.settings.depth).reverse
          offset := start, stop := start + length })
      settle

/-- The variables of the loops of `into` and `gather`. -/
structure Gathering where
  freeSids : List Nat
  inflight : Assoc Nat InFlight := []
  cursor : Nat := 0
  stop : Nat
  /-- What has come back whole, by offset or by request. -/
  landed : List (Nat × Bytes) := []

/-- `into`'s inner loop: every free id gets a request. -/
def askInto (start : Nat) : Nat → Gathering → Bulk Gathering
  | 0, l => pure l
  | fuel + 1, l =>
      match l.freeSids with
      | [] => pure l
      | sid :: sids =>
          if l.stop ≤ l.cursor then pure l
          else do
            let r ← Act.get
            let size := min r.settings.chunk (l.stop - l.cursor)
            issue sid (readRequest r.settings.handle (start + l.cursor) size)
            askInto start fuel { l with
              freeSids := sids, inflight := l.inflight.set sid ⟨l.cursor, size, 0, []⟩
              cursor := l.cursor + size }

/-- The loop of `into`. -/
def intoLoop (start : Nat) : Nat → Gathering → Bulk (List (Nat × Bytes))
  | 0, _ => Act.throw (.closed HEADER)
  | fuel + 1, l => do
      let l ← askInto start l.freeSids.length l
      if l.inflight = [] then do
        Act.modify fun r => { r with
          delivered := r.delivered + (l.landed.map fun p => p.2.length).sum }
        pure l.landed
      else do
        match ← collect l.inflight with
        | (none, inflight) => intoLoop start fuel { l with inflight := inflight }
        | (some finished, inflight) =>
            match inflight.get finished with
            | none => Act.throw .missing
            | some entry =>
                let stop := if entry.dest.length < entry.length then
                  min l.stop (entry.offset + entry.dest.length) else l.stop
                intoLoop start fuel { l with
                  freeSids := finished :: l.freeSids, inflight := inflight.del finished
                  landed := l.landed ++ [(entry.offset, entry.dest)]
                  stop := stop, cursor := min l.cursor stop }

/-- `into`: fill `want` bytes from `start`, and the pieces that landed. -/
def into (want start : Nat) : Bulk (List (Nat × Bytes)) :=
  if want = 0 then pure []
  else do
    let sids ← begin
    let r ← Act.get
    Act.tryFinally
      (intoLoop start (r.incoming.length + 1) { freeSids := sids.reverse, stop := want })
      settle

/-- `gather`'s inner loop. -/
def askEach (requests : List (Request × Nat)) : Nat → Gathering → Bulk Gathering
  | 0, l => pure l
  | fuel + 1, l =>
      match l.freeSids, requests.drop l.cursor with
      | sid :: sids, (request, bound) :: _ => do
          issue sid request
          askEach requests fuel { l with
            freeSids := sids, inflight := l.inflight.set sid ⟨l.cursor, bound, 0, []⟩
            cursor := l.cursor + 1 }
      | _, _ => pure l

/-- The loop of `gather`. -/
def gatherLoop (requests : List (Request × Nat)) : Nat → Gathering → Bulk (List (Nat × Bytes))
  | 0, _ => Act.throw (.closed HEADER)
  | fuel + 1, l => do
      let l ← askEach requests l.freeSids.length l
      if l.inflight = [] then pure l.landed
      else do
        match ← collect l.inflight with
        | (none, inflight) => gatherLoop requests fuel { l with inflight := inflight }
        | (some finished, inflight) =>
            match inflight.get finished with
            | none => Act.throw .missing
            | some entry =>
                gatherLoop requests fuel { l with
                  freeSids := finished :: l.freeSids, inflight := inflight.del finished
                  landed := l.landed ++ [(entry.offset, entry.dest)] }

/-- `gather`: each request's whole body, by its place among the requests. -/
def gather (requests : List (Request × Nat)) : Bulk (List (Nat × Bytes)) :=
  if requests = [] then pure []
  else do
    let sids ← begin
    let r ← Act.get
    Act.tryFinally
      (gatherLoop requests (r.incoming.length + 1)
        { freeSids := sids.reverse, stop := requests.length })
      settle

/-- `_WriteReplies`: which callbacks a write was given, and its strictness. -/
structure WriteReplies where
  acknowledged : Bool := false
  waited : Bool := false
  check : Bool := false
  strict : Bool := false
  deriving DecidableEq

/-- The variables of `write_chunks`' loop. -/
structure Writing where
  freeSids : List Nat
  pending : Assoc Nat (Nat × Nat) := []
  source : List Bytes
  exhausted : Bool := false
  offset : Nat
  acked : Nat := 0
  failure : Option BulkError := none

/-- `if check is not None: check()`. -/
def callOutIf (given : Bool) : Bulk Unit := if given then callOut else pure ()

/-- `_write_batch`: writes from the source until no id is free. -/
def writeBatch (check : Bool) : List Bytes → Writing → Bulk Writing
  | source, l =>
      match l.freeSids with
      | [] => pure { l with source := source }
      | sid :: sids => do
          callOut
          match source with
          | [] => pure { l with source := [], exhausted := true }
          | piece :: source =>
              if piece = [] then writeBatch check source l
              else do
                let r ← Act.get
                if r.settings.chunk < piece.length then Act.throw .chunkTooLong
                else do
                  issue sid (writeRequest r.settings.handle l.offset piece)
                  let l := { l with
                    freeSids := sids, pending := l.pending.set sid (l.offset, piece.length)
                    offset := l.offset + piece.length }
                  callOutIf check
                  writeBatch check source l

/-- `_write_answer`: the bytes an answer acknowledges, and its refusal. -/
def writeAnswer (replies : WriteReplies) (reply : Header) (block : Bytes) (span : Nat × Nat) :
    Bulk (Nat × Option BulkError) :=
  if reply.status = kXR_ok then do
    Act.modify fun r => { r with
      stored := if replies.acknowledged then r.stored ++ [span] else r.stored }
    callOutIf replies.acknowledged
    pure (span.2, none)
  else if reply.status = kXR_wait ∧ replies.waited = true then do
    Act.modify fun r => { r with declined := r.declined ++ [span] }
    callOut
    pure (0, none)
  else if replies.strict = true ∧ reply.status ≠ kXR_error then do
    Act.modify fun r => { r with torn := true }
    Act.throw (.unexpectedReply reply.sid reply.status)
  else pure (0, some (refuse reply.status block))

/-- `if not exhausted and failure is None: …`. -/
def writeMore (check : Bool) (l : Writing) : Bulk Writing :=
  if l.exhausted = false ∧ l.failure = none then writeBatch check l.source l else pure l

/-- The loop of `write_chunks`. -/
def writeLoop (replies : WriteReplies) : Nat → Writing → Bulk Nat
  | 0, _ => Act.throw (.closed HEADER)
  | fuel + 1, l => do
      let l ← writeMore replies.check l
      if l.pending = [] then
        match l.failure with
        | some e => Act.throw e
        | none => pure l.acked
      else do
        let reply ← nextReply
        let block ← body reply.dlen
        if reply.status = kXR_oksofar then writeLoop replies fuel l
        else do
          settled reply.sid
          match l.pending.get reply.sid with
          | none => Act.throw .missing
          | some span => do
              let (count, error) ← writeAnswer replies reply block span
              writeLoop replies fuel { l with
                freeSids := reply.sid :: l.freeSids, pending := l.pending.del reply.sid
                acked := l.acked + count, failure := l.failure.or error }

/-- `write_chunks`.  `handling` says that it is called while an exception is being
handled, when what `settle` raises is dropped. -/
def writeChunks (replies : WriteReplies) (handling : Bool) (pieces : List Bytes) (start : Nat) :
    Bulk Nat := do
  let sids ← begin
  let r ← Act.get
  Act.tryFinallyQuiet handling
    (writeLoop replies (r.incoming.length + 1)
      { freeSids := sids.reverse, source := pieces, offset := start })
    settle

end BulkReader

/-! ## Calls one after the other -/

/-- A call of the reader. -/
inductive BulkCall where
  | stream (start length : Nat)
  | into (want start : Nat)
  | gather (requests : List (Request × Nat))
  | writeChunks (replies : BulkReader.WriteReplies) (handling : Bool) (pieces : List Bytes)
      (start : Nat)

namespace BulkReader

/-- The reader after one call, however it ended. -/
def call (r : BulkReader) : BulkCall → BulkReader
  | .stream start length => (stream start length r).2
  | .into want start => (into want start r).2
  | .gather requests => (gather requests r).2
  | .writeChunks replies handling pieces start => (writeChunks replies handling pieces start r).2

/-- The reader after some calls. -/
def calls (r : BulkReader) (cs : List BulkCall) : BulkReader := cs.foldl call r

end BulkReader

end XrdClient.Session
