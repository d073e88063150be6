/-
  Session/Shared.lean --- a session that threads share.

  Source: `session/sync.py`, `Session.execute` and everything it calls, `bulk` and
  `close`.

  What a thread does while it holds the session's lock is one step, and so is
  putting one queued buffer on a link, which is done under the send lock.  A run is
  any list of steps of any threads; a step that its thread is not at, or that would
  have to wait, changes nothing.  What the clocks, the peer and the caller's
  callbacks decide is said by the step.

  A mailbox is a Python list that a waiter holds: here a number, and `boxes` says
  what is in it.  Each request is told apart by the mailbox that `_start` makes for
  it.  Three fields are not in the code: `owner` is the request a stream id was last
  given to, `due` the requests that the events in the machine's queue were produced
  for, and `line` what became of the control link.

  `_ask_arrival_routing` is an `execute` of its own; whether a request may arrive on
  its data path, and where its answer comes, is said by `start`.  The exceptions a
  thread raises to its caller are not told apart, but for those that the code treats
  differently.  Waking sleepers (`_wake`, `_parked`) has no counterpart: a waiter may
  look again at any time.
-/
import XrdClient.Session.Bulk
import XrdClient.Proto.Endings

set_option autoImplicit false

namespace XrdClient.Session

open XrdClient.Lib
open XrdClient.Proto

/-! ## Mail -/

/-- Why a link, or the session, is gone. -/
inductive Loss where
  | session (error : SessionError)
  /-- What the transport raised on a link. -/
  | transport (pathid : Nat)
  /-- "data path {pathid} to {endpoint} was closed" -/
  | closed (pathid : Nat)
  deriving DecidableEq

/-- What is filed in a mailbox. -/
inductive Post where
  | event (e : Event)
  /-- `Failed(sid, None, _echo(error))`. -/
  | echo (why : Loss)
  /-- `Failed(None, None, error)`. -/
  | lost (why : Loss)
  deriving DecidableEq

/-- A letter, and the request that an event was produced for. -/
structure Letter where
  post : Post
  about : Option Nat := none
  deriving DecidableEq

/-! ## Threads -/

/-- Buffers in the send queue: `(pathid, transport, buffers)`. -/
structure Queued where
  pathid : Nat
  link : Nat
  bytes : Bytes
  /-- It is a `kXR_endsess`, of `close`. -/
  goodbye : Bool := false
  deriving DecidableEq

/-- What a thread does once it has sent. -/
inductive Next where
  /-- `_start` goes on to wait for the answer. -/
  | wait
  /-- `_resend_after` goes back to the events that came with the `kXR_wait`. -/
  | act (rest : List Letter)
  /-- `_read_unlocked` goes on to read the link. -/
  | read (link : Nat)
  deriving DecidableEq

/-- Where a thread is in `execute`. -/
inductive Phase where
  /-- It has the send lock; `failed` once the control link failed under it. -/
  | sending (batch : List Queued) (failed : Bool) (next : Next)
  /-- It waits for the send lock. -/
  | queued (next : Next)
  /-- `_start`'s `except`: `_forget(sid, box)` is next. -/
  | unsent
  /-- In `_events_for`, without a role. -/
  | waiting
  /-- In `_read_unlocked`, as its link's reader. -/
  | reading (link : Nat)
  /-- Working through events it has taken. -/
  | acting (letters : List Letter)
  /-- In `_resend_after`, sitting out a `kXR_wait`. -/
  | resting (rest : List Letter)
  /-- `_release` is next. -/
  | letting
  /-- `_await`'s `finally`: `_forget(sid, box, abandon=True)` is next. -/
  | leaving (failed : Bool)
  /-- `_await_arrival`'s `except`: `_close_path` is next. -/
  | parting
  deriving DecidableEq

/-- A thread in `execute`. -/
structure Waiter where
  sid : Nat
  box : Nat
  /-- The link its answer comes on. -/
  pathid : Nat
  /-- It is the trial of an arrival path. -/
  arrive : Bool
  phase : Phase
  deriving DecidableEq

/-- A bulk transfer in progress: its thread, and its reader once it has the send lock. -/
structure Borrower where
  thread : Nat
  reader : Option BulkReader := none

/-- What becomes of the control link. -/
inductive LinkEvent where
  /-- A request's bytes are put on it. -/
  | put (bytes : Bytes)
  | goodbye (bytes : Bytes)
  /-- A send failed on it, or a bulk transfer left it inside a frame. -/
  | tore
  /-- Bytes read from it are fed to the machine. -/
  | fed (bytes : Bytes)
  deriving DecidableEq

/-! ## The session -/

/-- `Session`, and the threads in it. -/
structure Shared where
  machine : SessionMachine
  /-- `_inbox`: the mailbox of each stream. -/
  inbox : Assoc Nat Nat := []
  boxes : Assoc Nat (List Letter) := []
  /-- The next new mailbox. -/
  nextBox : Nat := 0
  notices : List AttnInfo := []
  /-- `_paths`: each bound path and its transport. -/
  paths : Assoc Nat Nat := []
  nextLink : Nat := 1
  outq : List Queued := []
  broken : Bool := false
  /-- `_reading`. -/
  reading : List Nat := []
  /-- Who has the send lock. -/
  sender : Option Nat := none
  /-- `_bulk_owner`, and its reader. -/
  bulk : Option Borrower := none
  waiters : Assoc Nat Waiter := []
  owner : Assoc Nat Nat := []
  due : List (Option Nat) := []
  line : List LinkEvent := []

namespace Shared

/-- `state in _DEAD`. -/
def dead (s : Shared) : Bool :=
  decide (s.machine.core.state = .closed) || decide (s.machine.core.state = .failed)

/-- The control link is torn. -/
def torn (s : Shared) : Bool := decide (LinkEvent.tore ∈ s.line)

/-- The letters in a mailbox. -/
def box (s : Shared) (b : Nat) : List Letter := (s.boxes.get b).getD []

/-- The core of the machine, changed. -/
def onCore (s : Shared) (core : MachineState) : Shared :=
  { s with machine := { s.machine with core := core } }

/-- The machine, after a call that may have reported events. -/
def onMachine (s : Shared) (m : SessionMachine) : Shared :=
  { s with
    machine := m
    due := s.due ++ (m.core.events.drop s.machine.core.events.length).map
      fun e => e.stream.bind s.owner.get }

/-- `box.append(…)`. -/
def file (s : Shared) (b : Nat) (letter : Letter) : Shared :=
  { s with boxes := s.boxes.set b (s.box b ++ [letter]) }

/-- `_fail_all`: a copy in every mailbox but `own`. -/
def failAll (s : Shared) (why : Loss) (own : Option Nat) : Shared :=
  (s.inbox.map Prod.snd).foldl
    (fun s b => if some b = own then s else s.file b ⟨.echo why, none⟩) s

/-- `_session_lost`. -/
def sessionLost (s : Shared) (why : Loss) (own : Nat) : Shared :=
  (s.file own ⟨.lost why, none⟩).failAll why (some own)

/-- `_close_path`. -/
def closePath (s : Shared) (pathid : Nat) (why : Loss) (own : Option Nat) : Shared :=
  let told :=
    if s.paths.has pathid then
      (SessionMachine.streamsOn s.machine.core pathid).foldl (fun s sid =>
        match s.inbox.get sid with
        | some b => if some b = own then s else s.file b ⟨.echo why, none⟩
        | none => s) s
    else s
  { told with machine := s.machine.forgetPath pathid, paths := s.paths.del pathid }

/-- `_route_event`. -/
def routeEvent (own : Nat) (s : Shared) (e : Event × Option Nat) : Shared :=
  match e.1.stream with
  | some sid =>
      match s.inbox.get sid with
      | some b => s.file b ⟨.event e.1, e.2⟩
      | none =>
          { s with
            inbox := s.inbox.set sid s.nextBox
            boxes := s.boxes.set s.nextBox [⟨.event e.1, e.2⟩]
            nextBox := s.nextBox + 1 }
  | none =>
      match e.1 with
      | .attention info => { s with notices := s.notices ++ [info] }
      | .pathLost pathid => s.closePath pathid (.session (.pathClosed pathid)) (some own)
      | .disconnected _ => s.sessionLost (.session .closedByPeer) own
      | .failed _ _ error => s.sessionLost (.session error) own
      | _ => s

/-! ## Sending -/

/-- What the machine framed for one data path goes to the queue. -/
def queuePathOut (s : Shared) (p : Nat × Nat) : Shared :=
  match (s.machine.core.outPath.get p.1).getD [] with
  | [] => s
  | parts =>
      { s.onCore { s.machine.core with outPath := s.machine.core.outPath.del p.1 } with
        outq := s.outq ++ [⟨p.1, p.2, parts.flatten, false⟩] }

/-- `_queue_out`. -/
def queueOut (s : Shared) (goodbye : Bool := false) : Shared :=
  let control :=
    if s.machine.core.out = [] then s
    else { s.onCore { s.machine.core with out := [] } with
      outq := s.outq ++ [⟨0, 0, s.machine.core.out.flatten, goodbye⟩] }
  s.paths.foldl queuePathOut control

/-- `_send_failed`. -/
def sendFailed (s : Shared) (item : Queued) : Shared :=
  if item.pathid ≠ 0 then
    if s.paths.get item.pathid = some item.link then
      s.closePath item.pathid (.transport item.pathid) none
    else s
  else
    { s with
      broken := true
      outq := s.outq.filter (·.pathid ≠ 0)
      line := s.line ++ [LinkEvent.tore] }.failAll (.transport 0) none

/-- One buffer is on its link. -/
def sent (s : Shared) (item : Queued) : Shared :=
  if item.pathid ≠ 0 then s
  else { s with line := s.line ++ [if item.goodbye then .goodbye item.bytes else .put item.bytes] }

/-- One turn of `_send_batch`: what is sent, and what is left of the batch. -/
def sendItem (s : Shared) (item : Queued) (batch : List Queued) (ok : Bool) :
    Shared × List Queued :=
  if ok then (s.sent item, batch)
  else (s.sendFailed item, if item.pathid = 0 then batch.filter (·.pathid ≠ 0) else batch)

/-- `_send_batch` of a thread that is not in `execute`, with the outcome of each send.
Once the control link failed, what else was for it is passed over. -/
def sendBatch (s : Shared) (failed : Bool) (oks : List Bool) : List Queued → Shared
  | [] => s
  | item :: batch =>
      if failed = true ∧ item.pathid = 0 then s.sendBatch failed oks batch
      else if oks.headD true then (s.sent item).sendBatch failed oks.tail batch
      else (s.sendFailed item).sendBatch (failed || decide (item.pathid = 0)) oks.tail batch

/-- `_drain_outq` of such a thread. -/
def drainOutq (s : Shared) (oks : List Bool) : Shared :=
  { s with outq := [] }.sendBatch false oks s.outq

/-! ## `execute` -/

/-- A thread's own state. -/
def become (s : Shared) (t : Nat) (w : Waiter) (phase : Phase) : Shared :=
  { s with waiters := s.waiters.set t { w with phase := phase } }

/-- `_start`, to where it lets go of the lock. -/
def start (s : Shared) (t : Nat) (request : Request) (path : Text) (arrive onPath : Bool) :
    Shared :=
  if s.waiters.has t ∨ s.bulk.isSome = true ∨ s.dead = true then s
  else if request.pathid ≠ 0 ∧ s.paths.has request.pathid = false then s
  else
    match s.machine.core.submit request path arrive with
    | (.error _, core) => s.onCore core
    | (.ok sid, core) =>
        let box := s.nextBox
        let w : Waiter := ⟨sid, box, if arrive || onPath then request.pathid else 0, arrive, .unsent⟩
        let s := { s.onCore core with
          inbox := s.inbox.set sid box
          boxes := s.boxes.set box []
          nextBox := s.nextBox + 1
          owner := s.owner.set sid box }.queueOut
        match s.sender with
        | none =>
            { s with sender := some t, outq := [] }.become t w (.sending s.outq false .wait)
        | some _ => s.become t w (.queued .wait)

/-- Where a thread goes once it has sent everything. -/
def after (s : Shared) (t : Nat) (w : Waiter) : Next → Shared
  | .wait => s.become t w .waiting
  | .act rest => s.become t w (.acting rest)
  | .read link => s.become t w (.reading link)

/-- `_let_go`. -/
def letGo (s : Shared) (pathid : Nat) : Shared :=
  { s with reading := s.reading.filter (· ≠ pathid) }

/-- `_link_failed`. -/
def linkFailed (s : Shared) (pathid : Nat) (own : Option Nat) : Shared :=
  if pathid ≠ 0 then
    if s.paths.has pathid then s.closePath pathid (.transport pathid) own else s
  else { s with broken := true }.failAll (.transport 0) own

/-- Whether a link is still this session's: `_current`. -/
def current (s : Shared) (pathid link : Nat) : Bool :=
  !s.dead && (decide (pathid = 0) || decide (s.paths.get pathid = some link))

/-- One send of a thread with the send lock. -/
def send (s : Shared) (t : Nat) (ok : Bool) : Shared :=
  match s.waiters.get t with
  | some w =>
      match w.phase with
      | .sending (item :: batch) failed next =>
          let (s, batch) := s.sendItem item batch ok
          s.become t w (.sending batch (failed || (!ok && decide (item.pathid = 0))) next)
      | _ => s
  | none => s

/-- The batch is sent: what was queued meanwhile is next, or the lock is let go. -/
def sendDone (s : Shared) (t : Nat) : Shared :=
  match s.waiters.get t with
  | some w =>
      match w.phase with
      | .sending [] failed next =>
          if s.outq ≠ [] then { s with outq := [] }.become t w (.sending s.outq failed next)
          else
            let s := { s with sender := none }
            match next with
            | .read link =>
                -- `raise failure` in the reader, if the link is still the session's
                if failed = true ∧ s.current w.pathid link = true then
                  ((s.linkFailed w.pathid (some w.box)).letGo w.pathid).become t w (.leaving true)
                else s.after t w next
            | _ => s.after t w next
      | _ => s
  | none => s

/-- A thread that waited for the send lock has it. -/
def takeSendLock (s : Shared) (t : Nat) : Shared :=
  match s.waiters.get t, s.sender with
  | some w, none =>
      match w.phase with
      | .queued next =>
          { s with sender := some t, outq := [] }.become t w (.sending s.outq false next)
      | _ => s
  | _, _ => s

/-- Where an exception that is no connection error takes a thread that was to send. -/
def thrown : Next → Phase
  | .wait => .unsent
  | _ => .leaving true

/-- Such an exception cuts a send short, or the wait for the send lock. -/
def sendRaises (s : Shared) (t : Nat) : Shared :=
  match s.waiters.get t with
  | some w =>
      let released (s : Shared) (next : Next) : Shared :=
        match next with
        | .read _ => s.letGo w.pathid
        | _ => s
      match w.phase with
      | .sending (item :: _) _ next =>
          (released { s with
            sender := none
            line := if item.pathid = 0 then s.line ++ [.tore] else s.line } next).become t w
              (thrown next)
      | .queued next => (released s next).become t w (thrown next)
      | _ => s
  | none => s

/-- `_events_for`, one look at the mailbox and the link. -/
def look (s : Shared) (t : Nat) : Shared :=
  match s.waiters.get t with
  | some w =>
      match w.phase with
      | .waiting =>
          if s.box w.box ≠ [] then
            { s with boxes := s.boxes.set w.box [] }.become t w (.acting (s.box w.box))
          else if s.dead = true ∨ (w.pathid ≠ 0 ∧ s.paths.has w.pathid = false) then
            s.become t w (.leaving true)
          else if w.pathid ∈ s.reading then s
          else
            let link := if w.pathid = 0 then 0 else (s.paths.get w.pathid).getD 0
            { s with reading := s.reading ++ [w.pathid] }.become t w
              (if s.outq = [] then .reading link else .queued (.read link))
      | _ => s
  | none => s

/-- A waiter's own clocks run out, or it is cancelled. -/
def giveUp (s : Shared) (t : Nat) (stall : Bool) : Shared :=
  match s.waiters.get t with
  | some w =>
      match w.phase with
      | .waiting =>
          if s.box w.box ≠ [] then s
          else { s with broken := s.broken || (stall && decide (w.pathid = 0)) }.become t w
            (.leaving true)
      | _ => s
  | none => s

/-- `_pump`: feed the machine, and drain it unless it raised. -/
def pump (s : Shared) (pathid : Nat) (data : Bytes) :
    Option Raised × List (Event × Option Nat) × Shared :=
  let fed := s.onMachine (s.machine.receiveData data pathid).1
  match (s.machine.receiveData data pathid).2 with
  | some e => (some e, [], fed)
  | none => (none, fed.machine.core.events.zip fed.due,
      { fed.onCore { fed.machine.core with events := [] } with due := [] })

/-- A reader comes back with bytes: the rest of `_lead`. -/
def feed (s : Shared) (t : Nat) (data : Bytes) : Shared :=
  match s.waiters.get t with
  | some w =>
      match w.phase with
      | .reading link =>
          if s.current w.pathid link = false then (s.letGo w.pathid).become t w .waiting
          else
            let noted : Shared :=
              if w.pathid = 0 then { s with line := s.line ++ [.fed data] } else s
            match noted.pump w.pathid data with
            | (some _, _, s) => (s.letGo w.pathid).become t w (.leaving true)
            | (none, events, s) =>
                (events.foldl (routeEvent w.box) (s.letGo w.pathid)).become t w .waiting
      | _ => s
  | none => s

/-- How a read fails. -/
inductive ReadFailure where
  /-- The caller's deadline, or a cancellation. -/
  | expired
  /-- The reader's own stall clock. -/
  | stalled
  /-- The link. -/
  | link
  deriving DecidableEq

/-- A reader comes back with an exception: `_lead`'s handlers. -/
def readFails (s : Shared) (t : Nat) (how : ReadFailure) : Shared :=
  match s.waiters.get t with
  | some w =>
      match w.phase with
      | .reading link =>
          match how with
          | .expired => (s.letGo w.pathid).become t w (.leaving true)
          | .stalled =>
              let s := if w.pathid ≠ 0 then
                  s.closePath w.pathid (.transport w.pathid) (some w.box)
                else { s with broken := true }
              (s.letGo w.pathid).become t w (.leaving true)
          | .link =>
              if s.current w.pathid link = false then (s.letGo w.pathid).become t w .waiting
              else ((s.linkFailed w.pathid (some w.box)).letGo w.pathid).become t w (.leaving true)
      | _ => s
  | none => s

/-- `_answer`, on the next event it has taken.  `stays` says that the waiter goes on:
its callback returned, its budget has room, its deadline allows the wait. -/
def act (s : Shared) (t : Nat) (stays : Bool) : Shared :=
  match s.waiters.get t with
  | some w =>
      match w.phase with
      | .acting [] => s.become t w .waiting
      | .acting (letter :: rest) =>
          match letter.post with
          | .event (.completed _ _ _ _) => s.become t w (.leaving (!stays))
          | .event (.chunk _ _ _) =>
              s.become t w (if stays then .acting rest else .leaving true)
          | .event (.redirected _ _ _) => s.become t w .letting
          | .event (.waiting _ _ _ _ true) =>
              s.become t w (if stays then .resting rest else .letting)
          | .event (.waiting _ _ _ _ false) =>
              s.become t w (if stays then .acting rest else .leaving true)
          | .event (.failed _ _ _) | .echo _ | .lost _ => s.become t w (.leaving true)
          | .event _ => s.become t w (.acting rest)
      | _ => s
  | none => s

/-- `_release`. -/
def release (s : Shared) (sid box : Nat) : Shared :=
  if s.inbox.get sid = some box then s.onCore (s.machine.core.release sid) else s

/-- `_release`, as a redirect or a given-up `kXR_wait` calls it. -/
def letStream (s : Shared) (t : Nat) : Shared :=
  match s.waiters.get t with
  | some w =>
      match w.phase with
      | .letting => (s.release w.sid w.box).become t w (.leaving true)
      | _ => s
  | none => s

/-- `_resend_after`, one look: mail, a dead session, a cancellation, or the time is up. -/
def wakeUp (s : Shared) (t : Nat) (cancelled : Bool) : Shared :=
  match s.waiters.get t with
  | some w =>
      match w.phase with
      | .resting rest =>
          if s.box w.box ≠ [] then s.become t w (.acting rest)
          else if s.dead = true then s.become t w (.leaving true)
          else if cancelled = true then (s.release w.sid w.box).become t w (.leaving true)
          else
            match s.machine.core.resume w.sid with
            | (core, some _) => (s.onCore core).become t w (.leaving true)
            | (core, none) => (s.onCore core).queueOut.become t w (.queued (.act rest))
      | _ => s
  | none => s

/-- `_forget`. -/
def forget (s : Shared) (sid box : Nat) (abandon : Bool) : Shared :=
  if s.inbox.get sid = some box then
    { s with inbox := s.inbox.del sid }.onCore
      (if abandon then s.machine.core.abandon sid else s.machine.core.release sid)
  else s

/-- The thread is out of `execute`. -/
def leave (s : Shared) (t : Nat) : Shared := { s with waiters := s.waiters.del t }

/-- The `_forget` that every way out of `execute` goes through. -/
def goOut (s : Shared) (t : Nat) : Shared :=
  match s.waiters.get t with
  | some w =>
      match w.phase with
      | .unsent => (s.forget w.sid w.box false).leave t
      | .leaving failed =>
          let s := s.forget w.sid w.box true
          if failed = true ∧ w.arrive = true then s.become t w .parting else s.leave t
      | .parting => (s.closePath w.pathid (.closed w.pathid) none).leave t
      | _ => s
  | none => s

/-! ## Everybody else -/

/-- `_adopt_path`. -/
def adoptPath (s : Shared) (pathid : Nat) : Shared :=
  if s.dead = true ∨ pathid = 0 ∨ s.paths.has pathid = true then s
  else { s with paths := s.paths.set pathid s.nextLink, nextLink := s.nextLink + 1 }

/-- `close`, to where the link is shut down.  The goodbye is sent if the send lock is
free, with everything queued. -/
def close (s : Shared) (oks : List Bool) : Shared :=
  let graceful := decide (s.machine.core.state = .ready) && s.bulk.isNone
  let closing : Bool × Shared :=
    if graceful then
      match s.machine.core.close with
      | (core, some _) => (false, s.onMachine { s.machine with core := core })
      | (core, none) => (true, (s.onMachine { s.machine with core := core }).queueOut true)
    else (false, s)
  let s := closing.2.onCore { closing.2.machine.core with state := .closed }
  if closing.1 = true ∧ s.sender = none then s.drainOutq oks else s

/-- The end of `close`. -/
def closeLinks (s : Shared) : Shared :=
  if s.dead = true then { s with paths := [], outq := [] } else s

/-- `bulk`, to where it lets go of the lock. -/
def bulkTake (s : Shared) (t : Nat) : Shared :=
  if s.waiters.has t = true ∨ s.bulk.isSome = true ∨ s.machine.core.idle = false ∨
      s.reading ≠ [] then s
  else { s with bulk := some ⟨t, none⟩, reading := [0] }.queueOut

/-- `bulk` has the send lock, and has sent what was queued. -/
def bulkLend (s : Shared) (settings : BulkSettings) (oks : List Bool) : Shared :=
  match s.bulk, s.sender with
  | some ⟨t, none⟩, none =>
      { s.drainOutq oks with
        sender := some t
        bulk := some ⟨t, some { settings, machine := s.machine.core, incoming := [], ticks := [] }⟩ }
  | _, _ => s

/-- A call of the reader, with what is on the link and what the world does meanwhile.
Of the machine it moves the ids and the signer's sequence number, and no thread can
submit anything meanwhile. -/
def bulkCall (s : Shared) (call : BulkCall) (incoming : Bytes) (ticks : List Tick) : Shared :=
  match s.bulk with
  | some ⟨t, some reader⟩ =>
      let reader := { reader with
        machine := s.machine.core, incoming := incoming, ticks := ticks, notices := [] }.call call
      { s.onCore { s.machine.core with
          free := reader.machine.free, leased := reader.machine.leased
          retired := reader.machine.retired, nextSid := reader.machine.nextSid
          signer := reader.machine.signer } with
        bulk := some ⟨t, some reader⟩
        broken := s.broken || reader.broken
        notices := s.notices ++ reader.notices
        line := if reader.broken && reader.torn then s.line ++ [.tore] else s.line }
  | _ => s

/-- How the block of a bulk transfer ends. -/
inductive BulkEnd where
  | ok
  /-- `XrdConnectionError` or `XrdTimeoutError`. -/
  | connection
  | cancelled
  | other
  deriving DecidableEq

/-- The end of `bulk`. -/
def bulkEnd (s : Shared) (how : BulkEnd) : Shared :=
  match s.bulk with
  | some ⟨_, some _⟩ =>
      let s : Shared :=
        match how with
        | .connection => { s with broken := true }
        | .cancelled =>
            if s.broken then s.onCore { s.machine.core with state := .closed } else s
        | _ => s
      { s.letGo 0 with bulk := none, sender := none }
  | _ => s

end Shared

/-! ## Runs -/

/-- One step of a thread. -/
inductive Move where
  | start (t : Nat) (request : Request) (path : Text) (arrive onPath : Bool)
  | send (t : Nat) (ok : Bool)
  | sendDone (t : Nat)
  | takeSendLock (t : Nat)
  | sendRaises (t : Nat)
  | look (t : Nat)
  | giveUp (t : Nat) (stall : Bool)
  | feed (t : Nat) (data : Bytes)
  | readFails (t : Nat) (how : Shared.ReadFailure)
  | act (t : Nat) (stays : Bool)
  | letStream (t : Nat)
  | wakeUp (t : Nat) (cancelled : Bool)
  | goOut (t : Nat)
  | adoptPath (pathid : Nat)
  | close (oks : List Bool)
  | closeLinks
  | bulkTake (t : Nat)
  | bulkLend (settings : BulkSettings) (oks : List Bool)
  | bulkCall (call : BulkCall) (incoming : Bytes) (ticks : List Tick)
  | bulkEnd (how : Shared.BulkEnd)

namespace Shared

/-- The session after a step. -/
def step (s : Shared) : Move → Shared
  | .start t request path arrive onPath => s.start t request path arrive onPath
  | .send t ok => s.send t ok
  | .sendDone t => s.sendDone t
  | .takeSendLock t => s.takeSendLock t
  | .sendRaises t => s.sendRaises t
  | .look t => s.look t
  | .giveUp t stall => s.giveUp t stall
  | .feed t data => s.feed t data
  | .readFails t how => s.readFails t how
  | .act t stays => s.act t stays
  | .letStream t => s.letStream t
  | .wakeUp t cancelled => s.wakeUp t cancelled
  | .goOut t => s.goOut t
  | .adoptPath pathid => s.adoptPath pathid
  | .close oks => s.close oks
  | .closeLinks => s.closeLinks
  | .bulkTake t => s.bulkTake t
  | .bulkLend settings oks => s.bulkLend settings oks
  | .bulkCall call incoming ticks => s.bulkCall call incoming ticks
  | .bulkEnd how => s.bulkEnd how

/-- The session after some steps. -/
def run (s : Shared) (moves : List Move) : Shared := moves.foldl step s

/-- Every step of a run meets a condition on the state it is made in. -/
def EachMove (P : Shared → Move → Prop) : Shared → List Move → Prop
  | _, [] => True
  | s, x :: xs => P s x ∧ EachMove P (s.step x) xs

/-- What every step that meets the condition preserves, a run preserves. -/
theorem run_invariant {P : Shared → Move → Prop} {I : Shared → Prop}
    (step : ∀ s x, P s x → I s → I (s.step x)) :
    ∀ {xs : List Move} {s : Shared}, EachMove P s xs → I s → I (s.run xs) := by
  intro xs
  induction xs with
  | nil => intro s _ h; exact h
  | cons x xs ih =>
    intro s hp h
    exact ih hp.2 (step s x hp.1 h)

/-- A machine as `connect` leaves it: up, with nothing outstanding, queued or unread. -/
structure Up (m : SessionMachine) : Prop where
  ready : m.core.state = .ready
  pending : m.core.pending = []
  events : m.core.events = []
  out : m.core.out = []

/-- A session as `connect` returns it. -/
def opened (m : SessionMachine) : Shared := { machine := m }

/-- A machine that is logged in, with what it reported and queued till then taken from it. -/
def connected : SessionMachine := (((newMachine.run bringUp).step .drain).1.step .buffersToSend).1

theorem connected_up : Up connected := ⟨by decide, by decide, by decide, by decide⟩

/-- A thread sends a request. -/
def sends (t : Nat) : List Move :=
  [.start t statRequest [] false false, .send t true, .sendDone t]

/-- A reply on a stream. -/
def reply (sid : Nat) : Bytes := headerBytes ⟨sid, kXR_ok, 2⟩ ++ [1, 2]

end Shared

end XrdClient.Session
