/-
  Session/SendOrder.lean --- in what order a session's frames reach its links.

  Source: `session/sync.py`, `_start`, `_resend_after`, `_flush`, `_queue_out`,
  `_transmit`, `_drain_outq`, `_take_outq`, `_send_owned`, `_send_batch`, `bulk`;
  `session/bulk.py`, `_issue` and `_send`; the machine's methods they call.

  Two locks: what a thread does under the session's lock is one step, and the send lock
  is held from one step to another.  Handing bytes to a transport is not done under the
  session's lock, so a step hands over any piece of what is next.  Everything else that a
  session does with its machine is a step too (`aside`), whoever makes it.  A step that
  its thread is not at changes nothing.

  No send fails here, and the session is not closed.  `framed`, `handed` and the thread
  of a parcel are not in the code: what the machine framed for each link, what the
  transports were given, and who queued it.
-/
import XrdClient.Proto.Outgoing
import XrdClient.Session.Bulk

set_option autoImplicit false

namespace XrdClient.Session

open XrdClient.Lib
open XrdClient.Proto

/-! ## The queue -/

/-- A request, which has data for a bound path only if it names one: `path_data` is
empty unless `pathid` is set. -/
structure Asked where
  request : Request
  routed : request.pathid = 0 → request.pathData = []

/-- An entry of `_outq`: `(pathid, transport, buffers)`.  The control link is link 0. -/
structure Parcel where
  pathid : Nat
  link : Nat
  bytes : Bytes
  thread : Nat
  deriving DecidableEq

/-- What the machine framed for a link in one call. -/
structure Framed where
  link : Nat
  bytes : Bytes
  deriving DecidableEq

/-- Where a thread is in its send step. -/
inductive SendTurn where
  /-- It waits for the send lock. -/
  | waiting
  /-- It has the send lock, and `_take_outq` is next. -/
  | fetching
  /-- It has the send lock, and sends what is left of a batch; `owned` in `_send_owned`. -/
  | sending (owned : Bool) (batch : List Parcel)
  /-- It lets go of the send lock next. -/
  | releasing
  /-- It has the wire to itself, in `bulk`. -/
  | lent
  /-- In `bulk`, with what is left of a frame. -/
  | lending (rest : Bytes)
  /-- At the end of `bulk`, without the send lock. -/
  | parting
  deriving DecidableEq

/-- Whether a thread that is here has the send lock. -/
def SendTurn.holds : SendTurn → Bool
  | .waiting | .parting => false
  | _ => true

/-- A thread that is here sends frames of its own. -/
def SendTurn.onLoan : SendTurn → Bool
  | .lent | .lending _ => true
  | _ => false

/-- What a thread that is here has taken to send. -/
def SendTurn.batch (t : Nat) : SendTurn → List Parcel
  | .sending _ batch => batch
  | .lending rest => [⟨0, 0, rest, t⟩]
  | _ => []

/-- `Session`, as far as it sends. -/
structure SendPlane where
  machine : SessionMachine
  /-- `_paths`: each bound path and its transport. -/
  paths : Assoc Nat Nat := []
  nextLink : Nat := 1
  outq : List Parcel := []
  /-- Who has the send lock. -/
  sender : Option Nat := none
  /-- `_bulk_owner`. -/
  owner : Option Nat := none
  /-- The threads in a send step. -/
  turns : Assoc Nat SendTurn := []
  framed : List Framed := []
  /-- What each transport was given, piece by piece. -/
  handed : List (Nat × Bytes) := []

namespace SendPlane

/-- A session over a machine. -/
def opened (m : SessionMachine) : SendPlane := { machine := m }

/-- `state in _DEAD`. -/
def dead (w : SendPlane) : Bool :=
  decide (w.machine.core.state = .closed) || decide (w.machine.core.state = .failed)

/-- The core of the machine, changed. -/
def onCore (w : SendPlane) (core : MachineState) : SendPlane :=
  { w with machine := { w.machine with core := core } }

/-- Where a thread is next. -/
def become (w : SendPlane) (t : Nat) (turn : SendTurn) : SendPlane :=
  { w with turns := w.turns.set t turn }

/-- A frame, unless it is empty. -/
def frameOf (link : Nat) (buffers : List Bytes) : List Framed :=
  if buffers = [] then [] else [⟨link, buffers.flatten⟩]

/-- What a call of the machine added to its queues. -/
def added (before after : MachineState) (paths : Assoc Nat Nat) : List Framed :=
  frameOf 0 (after.out.drop before.out.length) ++
    paths.flatMap fun p =>
      frameOf p.2 ((after.pathQueue p.1).drop (before.pathQueue p.1).length)

/-- The machine, after a call that may have framed something. -/
def framing (w : SendPlane) (m : SessionMachine) : SendPlane :=
  { w with machine := m, framed := w.framed ++ added w.machine.core m.core w.paths }

/-- `_queue_out`, on one bound path. -/
def queuePathOut (t : Nat) (w : SendPlane) (p : Nat × Nat) : SendPlane :=
  match w.machine.core.pathQueue p.1 with
  | [] => w
  | queued =>
      { w.onCore { w.machine.core with outPath := w.machine.core.outPath.del p.1 } with
        outq := w.outq ++ [⟨p.1, p.2, queued.flatten, t⟩] }

/-- `_queue_out`. -/
def queueOut (w : SendPlane) (t : Nat) : SendPlane :=
  let control :=
    if w.machine.core.out = [] then w
    else { w.onCore { w.machine.core with out := [] } with
      outq := w.outq ++ [⟨0, 0, w.machine.core.out.flatten, t⟩] }
  if control.machine.core.outPath = [] then control else w.paths.foldl (queuePathOut t) control

/-! ## What starts a send step -/

/-- `_start`, to where it lets go of the lock. -/
def start (w : SendPlane) (t : Nat) (asked : Asked) (path : Text) (arrive : Bool) : SendPlane :=
  if w.turns.has t = true ∨ w.owner.isSome = true ∨ w.dead = true then w
  else if asked.request.pathid ≠ 0 ∧ w.paths.has asked.request.pathid = false then w
  else
    match w.machine.core.submit asked.request path arrive with
    | (.error _, core) => w.onCore core
    | (.ok _, core) =>
        let w := (w.framing { w.machine with core := core }).queueOut t
        match w.sender with
        | none => { w with sender := some t, outq := [] }.become t (.sending true w.outq)
        | some _ => w.become t .waiting

/-- `_resend_after` once the wait is over. -/
def resend (w : SendPlane) (t sid : Nat) : SendPlane :=
  if w.turns.has t = true ∨ w.dead = true then w
  else
    match w.machine.core.resume sid with
    | (core, some _) => w.onCore core
    | (core, none) => ((w.framing { w.machine with core := core }).queueOut t).become t .waiting

/-- `_flush`; and `_pump` in the bring-up, whose reader sends what it queued. -/
def flush (w : SendPlane) (t : Nat) : SendPlane :=
  if w.turns.has t = true then w else (w.queueOut t).become t .waiting

/-- `bulk`, to where it lets go of the lock. -/
def lend (w : SendPlane) (t : Nat) : SendPlane :=
  if w.turns.has t = true ∨ w.owner.isSome = true ∨ w.machine.core.idle = false then w
  else ({ w with owner := some t }.queueOut t).become t .waiting

/-! ## Under the send lock -/

/-- The send lock is free, and a thread that waits for it has it. -/
def take (w : SendPlane) (t : Nat) : SendPlane :=
  match w.turns.get t, w.sender with
  | some .waiting, none => { w with sender := some t }.become t .fetching
  | _, _ => w

/-- One turn of `_drain_outq`: take what is queued, or be done with it. -/
def fetch (w : SendPlane) (t : Nat) : SendPlane :=
  match w.turns.get t with
  | some .fetching =>
      if w.outq = [] then w.become t (if w.owner = some t then .lent else .releasing)
      else { w with outq := [] }.become t (.sending false w.outq)
  | _ => w

/-- The transport is given the next `n` bytes. -/
def put (w : SendPlane) (t n : Nat) : SendPlane :=
  match w.turns.get t with
  | some (.sending owned (item :: batch)) =>
      { w with handed := w.handed ++ [(item.link, item.bytes.take n)] }.become t
        (.sending owned ({ item with bytes := item.bytes.drop n } :: batch))
  | some (.lending rest) =>
      { w with handed := w.handed ++ [(0, rest.take n)] }.become t (.lending (rest.drop n))
  | _ => w

/-- One send is over: the next of the batch, and what comes after the batch. -/
def next (w : SendPlane) (t : Nat) : SendPlane :=
  match w.turns.get t with
  | some (.sending owned (item :: batch)) =>
      if item.bytes = [] then w.become t (.sending owned batch) else w
  | some (.sending true []) => w.become t (if w.outq = [] then .releasing else .fetching)
  | some (.sending false []) => w.become t .fetching
  | some (.lending []) => w.become t .lent
  | _ => w

/-- The send lock is let go, and the thread returns unless it is in `bulk`. -/
def release (w : SendPlane) (t : Nat) : SendPlane :=
  match w.turns.get t with
  | some .releasing =>
      if w.owner = some t then { w with sender := none }.become t .parting
      else { w with sender := none, turns := w.turns.del t }
  | _ => w

/-! ## The bulk reader -/

/-- `_issue`: frame a request and begin to send it; `cancelled` if `_send` is. -/
def issue (w : SendPlane) (t : Nat) (request : Request) (sid : Nat) (cancelled : Bool) :
    SendPlane :=
  match w.turns.get t with
  | some .lent =>
      match w.machine.core.framePartsFor request sid with
      | (.error _, core) => w.onCore core
      | (.ok parts, core) =>
          if cancelled then w.onCore core
          else ({ w.onCore core with framed := w.framed ++ [⟨0, parts.flatten⟩] } : SendPlane).become t
            (.lending parts.flatten)
  | _ => w

/-- The block of `bulk` is over. -/
def finish (w : SendPlane) (t : Nat) : SendPlane :=
  match w.turns.get t with
  | some .lent => w.become t .releasing
  | _ => w

/-- The end of `bulk`. -/
def part (w : SendPlane) (t : Nat) : SendPlane :=
  match w.turns.get t with
  | some .parting => { w with owner := none, turns := w.turns.del t }
  | _ => w

/-! ## Everything else -/

/-- Any other call of the machine. -/
def aside (w : SendPlane) (op : Op) : SendPlane :=
  if SessionMachine.isAside op = true then w.framing (w.machine.step op).1 else w

/-- `_adopt_path`. -/
def adoptPath (w : SendPlane) (pathid : Nat) : SendPlane :=
  if w.dead = true ∨ pathid = 0 ∨ w.paths.has pathid = true then w
  else { w with paths := w.paths.set pathid w.nextLink, nextLink := w.nextLink + 1 }

/-- `_close_path`. -/
def closePath (w : SendPlane) (pathid : Nat) : SendPlane :=
  { w with machine := w.machine.forgetPath pathid, paths := w.paths.del pathid }

end SendPlane

/-- One step of a thread. -/
inductive SendMove where
  | start (t : Nat) (asked : Asked) (path : Text) (arrive : Bool)
  | resend (t sid : Nat)
  | flush (t : Nat)
  | lend (t : Nat)
  | take (t : Nat)
  | fetch (t : Nat)
  | put (t n : Nat)
  | next (t : Nat)
  | release (t : Nat)
  | issue (t : Nat) (request : Request) (sid : Nat) (cancelled : Bool)
  | finish (t : Nat)
  | part (t : Nat)
  | aside (op : Op)
  | adoptPath (pathid : Nat)
  | closePath (pathid : Nat)

namespace SendPlane

/-- The session after a step. -/
def step (w : SendPlane) : SendMove → SendPlane
  | .start t asked path arrive => w.start t asked path arrive
  | .resend t sid => w.resend t sid
  | .flush t => w.flush t
  | .lend t => w.lend t
  | .take t => w.take t
  | .fetch t => w.fetch t
  | .put t n => w.put t n
  | .next t => w.next t
  | .release t => w.release t
  | .issue t request sid cancelled => w.issue t request sid cancelled
  | .finish t => w.finish t
  | .part t => w.part t
  | .aside op => w.aside op
  | .adoptPath pathid => w.adoptPath pathid
  | .closePath pathid => w.closePath pathid

/-- The session after some steps. -/
def run (w : SendPlane) (moves : List SendMove) : SendPlane := moves.foldl step w

/-! ## What is where -/

/-- The bytes of a list of parcels that are for one link. -/
def bytesOn (link : Nat) (items : List Parcel) : Bytes :=
  (items.filter fun item => item.link = link).flatMap Parcel.bytes

/-- What a link's transport was given. -/
def handedOn (w : SendPlane) (link : Nat) : Bytes :=
  (w.handed.filter fun piece => piece.1 = link).flatMap Prod.snd

/-- What the machine framed for a link, frame by frame. -/
def framedOn (w : SendPlane) (link : Nat) : List Bytes :=
  (w.framed.filter fun frame => frame.link = link).map Framed.bytes

/-- What the holder of the send lock has taken and not yet handed over. -/
def inFlight (w : SendPlane) : List Parcel :=
  match w.sender with
  | none => []
  | some t => ((w.turns.get t).map (SendTurn.batch t)).getD []

/-- What the machine still holds for a link. -/
def heldOn (w : SendPlane) (link : Nat) : Bytes :=
  (if link = 0 then w.machine.core.out.flatten else []) ++
    (w.paths.filter fun p => p.2 = link).flatMap fun p => (w.machine.core.pathQueue p.1).flatten

@[simp] theorem bytesOn_nil (link : Nat) : bytesOn link [] = [] := rfl

theorem bytesOn_append (link : Nat) (items others : List Parcel) :
    bytesOn link (items ++ others) = bytesOn link items ++ bytesOn link others := by
  simp [bytesOn]

theorem bytesOn_cons (link : Nat) (item : Parcel) (items : List Parcel) :
    bytesOn link (item :: items) =
      (if item.link = link then item.bytes else []) ++ bytesOn link items := by
  by_cases h : item.link = link <;> simp [bytesOn, h]

theorem inFlight_of_turn {w : SendPlane} {t : Nat} {turn : SendTurn} (hs : w.sender = some t)
    (h : w.turns.get t = some turn) : w.inFlight = turn.batch t := by
  simp [inFlight, hs, h]

/-! ## Queueing -/

/-- What `_queue_out` leaves alone. -/
structure Queues (w w' : SendPlane) : Prop where
  paths : w'.paths = w.paths
  nextLink : w'.nextLink = w.nextLink
  sender : w'.sender = w.sender
  owner : w'.owner = w.owner
  turns : w'.turns = w.turns
  framed : w'.framed = w.framed
  handed : w'.handed = w.handed
  state : w'.machine.core.state = w.machine.core.state
  pending : w'.machine.core.pending = w.machine.core.pending
  signer : w'.machine.core.signer = w.machine.core.signer

theorem Queues.refl (w : SendPlane) : Queues w w :=
  ⟨rfl, rfl, rfl, rfl, rfl, rfl, rfl, rfl, rfl, rfl⟩

theorem Queues.trans {w w' w'' : SendPlane} (h : Queues w w') (h' : Queues w' w'') :
    Queues w w'' :=
  ⟨h'.paths.trans h.paths, h'.nextLink.trans h.nextLink, h'.sender.trans h.sender,
    h'.owner.trans h.owner,
    h'.turns.trans h.turns, h'.framed.trans h.framed, h'.handed.trans h.handed,
    h'.state.trans h.state, h'.pending.trans h.pending, h'.signer.trans h.signer⟩

theorem queuePathOut_queues (t : Nat) (w : SendPlane) (p : Nat × Nat) :
    Queues w (queuePathOut t w p) := by
  unfold queuePathOut
  split
  · exact .refl w
  · exact ⟨rfl, rfl, rfl, rfl, rfl, rfl, rfl, rfl, rfl, rfl⟩

theorem queuePathOut_out (t : Nat) (w : SendPlane) (p : Nat × Nat) :
    (queuePathOut t w p).machine.core.out = w.machine.core.out := by
  unfold queuePathOut
  split <;> rfl

theorem queuePathOut_pathQueue (t : Nat) (w : SendPlane) (p : Nat × Nat) (pathid : Nat) :
    (queuePathOut t w p).machine.core.pathQueue pathid =
      if pathid = p.1 then [] else w.machine.core.pathQueue pathid := by
  unfold queuePathOut
  split
  · next hempty =>
    split
    · next heq => rw [heq, hempty]
    · rfl
  · simp only [onCore, MachineState.pathQueue, Assoc.get_del]
    split <;> rfl

theorem queuePathOut_bytesOn (t : Nat) (w : SendPlane) (p : Nat × Nat) (link : Nat) :
    bytesOn link (queuePathOut t w p).outq = bytesOn link w.outq ++
      (if p.2 = link then (w.machine.core.pathQueue p.1).flatten else []) := by
  unfold queuePathOut
  split
  · next hempty => simp [hempty]
  · simp [bytesOn_append, bytesOn_cons]

theorem queuePathOut_mem {t : Nat} {w : SendPlane} {p : Nat × Nat} {item : Parcel}
    (h : item ∈ (queuePathOut t w p).outq) : item ∈ w.outq ∨ item.thread = t := by
  unfold queuePathOut at h
  split at h
  · exact .inl h
  · rcases List.mem_append.mp h with h | h
    · exact .inl h
    · rw [List.mem_singleton] at h
      exact .inr (by rw [h])

/-- The paths, one after the other: each queue is taken once. -/
theorem queuePaths_spec (t : Nat) : ∀ (ps : Assoc Nat Nat) (w : SendPlane),
    (ps.map Prod.fst).Nodup →
    Queues w (ps.foldl (queuePathOut t) w) ∧
      (ps.foldl (queuePathOut t) w).machine.core.out = w.machine.core.out ∧
      (∀ pathid, (ps.foldl (queuePathOut t) w).machine.core.pathQueue pathid =
        if pathid ∈ ps.map Prod.fst then [] else w.machine.core.pathQueue pathid) ∧
      (∀ link, bytesOn link (ps.foldl (queuePathOut t) w).outq = bytesOn link w.outq ++
        (ps.filter fun p => p.2 = link).flatMap fun p => (w.machine.core.pathQueue p.1).flatten) ∧
      (∀ item ∈ (ps.foldl (queuePathOut t) w).outq, item ∈ w.outq ∨ item.thread = t) := by
  intro ps
  induction ps with
  | nil => exact fun w _ => ⟨.refl w, rfl, fun _ => rfl, fun _ => by simp, fun _ h => .inl h⟩
  | cons p ps ih =>
    intro w hnodup
    obtain ⟨hnew, hrest⟩ := List.nodup_cons.mp hnodup
    obtain ⟨hqueues, hout, hpath, hbytes, hmem⟩ := ih (queuePathOut t w p) hrest
    rw [List.foldl_cons]
    refine ⟨(queuePathOut_queues t w p).trans hqueues, hout.trans (queuePathOut_out t w p),
      fun pathid => ?_, fun link => ?_, fun item hitem => ?_⟩
    · rw [hpath, queuePathOut_pathQueue, List.map_cons]
      by_cases hfirst : pathid = p.1
      · simp [hfirst]
      · simp only [List.mem_cons, hfirst, false_or, if_false]
    · have hothers : ((ps.filter fun q => q.2 = link).flatMap fun q =>
          ((queuePathOut t w p).machine.core.pathQueue q.1).flatten) =
          (ps.filter fun q => q.2 = link).flatMap fun q =>
            (w.machine.core.pathQueue q.1).flatten := by
        refine List.flatMap_congr fun q hq => ?_
        have hne : q.1 ≠ p.1 := fun heq =>
          hnew (List.mem_map.mpr ⟨q, List.mem_of_mem_filter hq, heq⟩)
        rw [queuePathOut_pathQueue, if_neg hne]
      rw [hbytes, hothers, queuePathOut_bytesOn]
      by_cases hlink : p.2 = link <;> simp [hlink]
    · rcases hmem item hitem with hitem | hthread
      · exact queuePathOut_mem hitem
      · exact .inr hthread

/-- What `_queue_out` does: everything the machine holds for a link of the session goes to
the end of the queue. -/
structure QueuedOut (t : Nat) (w w' : SendPlane) : Prop where
  queues : Queues w w'
  out : w'.machine.core.out = []
  path : ∀ pathid, w'.machine.core.pathQueue pathid =
    if pathid ∈ w.paths.map Prod.fst then [] else w.machine.core.pathQueue pathid
  bytes : ∀ link, bytesOn link w'.outq = bytesOn link w.outq ++ w.heldOn link
  mem : ∀ item ∈ w'.outq, item ∈ w.outq ∨ item.thread = t

theorem queueOut_spec (w : SendPlane) (t : Nat) (hnodup : (w.paths.map Prod.fst).Nodup) :
    QueuedOut t w (w.queueOut t) := by
  have hcontrol : ∀ control : SendPlane, control = (if w.machine.core.out = [] then w
      else { w.onCore { w.machine.core with out := [] } with
        outq := w.outq ++ [⟨0, 0, w.machine.core.out.flatten, t⟩] }) →
      Queues w control ∧ control.machine.core.out = [] ∧
        control.machine.core.outPath = w.machine.core.outPath ∧
        (∀ link, bytesOn link control.outq = bytesOn link w.outq ++
          (if link = 0 then w.machine.core.out.flatten else [])) ∧
        (∀ item ∈ control.outq, item ∈ w.outq ∨ item.thread = t) := by
    rintro control rfl
    split
    · next hout =>
      exact ⟨.refl w, hout, rfl, fun link => by simp [hout], fun _ h => .inl h⟩
    · refine ⟨⟨rfl, rfl, rfl, rfl, rfl, rfl, rfl, rfl, rfl, rfl⟩, rfl, rfl, fun link => ?_,
        fun item hitem => ?_⟩
      · rw [bytesOn_append, bytesOn_cons]
        by_cases hlink : link = 0
        · simp [hlink]
        · simp [hlink, Ne.symm hlink]
      · rcases List.mem_append.mp hitem with hitem | hitem
        · exact .inl hitem
        · rw [List.mem_singleton] at hitem
          exact .inr (by rw [hitem])
  obtain ⟨hqueues, hout, houtPath, hbytes, hmem⟩ := hcontrol _ rfl
  unfold queueOut
  dsimp only
  generalize (if w.machine.core.out = [] then w
    else { w.onCore { w.machine.core with out := [] } with
      outq := w.outq ++ [⟨0, 0, w.machine.core.out.flatten, t⟩] } : SendPlane) = control at *
  have hpathQueue : ∀ pathid,
      control.machine.core.pathQueue pathid = w.machine.core.pathQueue pathid :=
    fun pathid => MachineState.pathQueue_congr houtPath pathid
  split
  · next hnone =>
    have hempty : ∀ pathid, w.machine.core.pathQueue pathid = [] := by
      intro pathid
      rw [MachineState.pathQueue, ← houtPath, hnone]
      rfl
    refine ⟨hqueues, hout, fun pathid => ?_, fun link => ?_, hmem⟩
    · rw [hpathQueue, hempty]
      split <;> rfl
    · simp [hbytes, heldOn, hempty]
  · obtain ⟨hqueues', hout', hpath', hbytes', hmem'⟩ := queuePaths_spec t w.paths control hnodup
    refine ⟨hqueues.trans hqueues', hout'.trans hout, fun pathid => ?_, fun link => ?_,
      fun item hitem => ?_⟩
    · rw [hpath', hpathQueue]
    · simp only [hbytes', hbytes, hpathQueue, heldOn, List.append_assoc]
    · rcases hmem' item hitem with hitem | hthread
      · exact hmem item hitem
      · exact .inr hthread

/-! ## Framing -/

/-- The bytes of some frames that are for one link. -/
def framesOn (link : Nat) (frames : List Framed) : Bytes :=
  (frames.filter fun frame => frame.link = link).flatMap Framed.bytes

theorem framesOn_append (link : Nat) (frames others : List Framed) :
    framesOn link (frames ++ others) = framesOn link frames ++ framesOn link others := by
  simp [framesOn]

theorem framedOn_flatten (w : SendPlane) (link : Nat) :
    (w.framedOn link).flatten = framesOn link w.framed := by
  simp [framedOn, framesOn, List.flatMap_def]

theorem framesOn_frameOf (link k : Nat) (buffers : List Bytes) :
    framesOn link (frameOf k buffers) = if k = link then buffers.flatten else [] := by
  unfold frameOf
  split
  · next h => simp [framesOn, h]
  · by_cases hk : k = link <;> simp [framesOn, hk]

/-- With the paths' queues empty before, what a call adds is what the machine holds more. -/
theorem framesOn_added {before after : MachineState} (hout : before.out <+: after.out)
    (hempty : ∀ pathid, before.pathQueue pathid = []) (paths : Assoc Nat Nat) (link : Nat) :
    (if link = 0 then before.out.flatten else []) ++ framesOn link (added before after paths) =
      (if link = 0 then after.out.flatten else []) ++
        (paths.filter fun p => p.2 = link).flatMap fun p => (after.pathQueue p.1).flatten := by
  obtain ⟨own, hown⟩ := hout
  have hpaths : framesOn link (paths.flatMap fun p =>
      frameOf p.2 ((after.pathQueue p.1).drop (before.pathQueue p.1).length)) =
      (paths.filter fun p => p.2 = link).flatMap fun p => (after.pathQueue p.1).flatten := by
    induction paths with
    | nil => rfl
    | cons p paths ih =>
      rw [List.flatMap_cons, framesOn_append, framesOn_frameOf, ih, hempty, List.length_nil,
        List.drop_zero]
      by_cases hlink : p.2 = link <;> simp [hlink]
  rw [added, framesOn_append, hpaths, framesOn_frameOf, ← hown, List.drop_left]
  by_cases hlink : link = 0
  · simp [hlink]
  · simp [hlink, Ne.symm hlink]

/-! ## The invariant -/

/-- On every link, what was handed over, what is being sent, what is queued and what the
machine holds are together what was framed, in that order. -/
def Conserved (w : SendPlane) : Prop :=
  ∀ link, w.handedOn link ++ bytesOn link w.inFlight ++ bytesOn link w.outq ++ w.heldOn link =
    (w.framedOn link).flatten

/-- Between two steps the machine holds nothing for a data path, and what it keeps for
one is for a path that is bound. -/
structure Swept (w : SendPlane) : Prop where
  empty : ∀ pathid, w.machine.core.pathQueue pathid = []
  once : (w.paths.map Prod.fst).Nodup
  bound : ∀ sid p, w.machine.core.pending.get sid = some p → p.pathBytes ≠ [] →
    w.paths.has p.pathid = true

/-- The send lock has one holder; whoever queued what is not sent yet is still in its
send step, and before the point where it looks at the queue if nobody has taken it. -/
structure Locked (w : SendPlane) : Prop where
  holds : ∀ t turn, w.turns.get t = some turn → (turn.holds = true ↔ w.sender = some t)
  seated : ∀ t, w.sender = some t → w.turns.has t = true
  queued : ∀ item ∈ w.outq, w.turns.get item.thread = some .waiting ∨
    w.turns.get item.thread = some .fetching
  taken : ∀ item ∈ w.inFlight, w.sender = some item.thread ∨
    w.turns.get item.thread = some .waiting

/-- While the wire is lent, nothing else can frame or queue anything. -/
structure Lent (w : SendPlane) : Prop where
  alone : ∀ t, w.owner = some t → MachineState.isPast w.machine.core.state = true ∧
    w.machine.core.out = [] ∧ ∀ sid, w.machine.core.pending.get sid = none
  wire : ∀ t turn, w.turns.get t = some turn → turn.onLoan = true → w.owner = some t ∧ w.outq = []
  parting : ∀ t, w.turns.get t = some .parting → w.owner = some t

/-- All of it. -/
structure InOrder (w : SendPlane) : Prop where
  conserved : Conserved w
  swept : Swept w
  locked : Locked w
  lent : Lent w

theorem opened_inOrder {m : SessionMachine} (hout : m.core.out = [])
    (hpath : m.core.outPath = []) (hpending : m.core.pending = []) : InOrder (opened m) where
  conserved := by
    intro link
    simp [handedOn, inFlight, heldOn, framedOn, opened, hout]
  swept := {
    empty := by
      intro pathid
      show (m.core.outPath.get pathid).getD [] = []
      rw [hpath]
      rfl
    once := List.nodup_nil
    bound := by
      intro sid p hp
      rw [show (opened m).machine.core.pending = [] from hpending] at hp
      cases hp }
  locked := ⟨nofun, nofun, nofun, nofun⟩
  lent := ⟨nofun, nofun, nofun⟩

/-! ### Conservation -/

theorem framing_conserved {w : SendPlane} (h : Conserved w)
    (hempty : ∀ pathid, w.machine.core.pathQueue pathid = []) {m : SessionMachine}
    (hout : w.machine.core.out <+: m.core.out) : Conserved (w.framing m) := by
  intro link
  have hold := h link
  have hadded := framesOn_added hout hempty w.paths link
  have hnone : (w.paths.filter fun p => p.2 = link).flatMap
      (fun p => (w.machine.core.pathQueue p.1).flatten) = [] := by
    simp [hempty]
  rw [framedOn_flatten, heldOn, hnone, List.append_nil] at hold
  show w.handedOn link ++ bytesOn link w.inFlight ++ bytesOn link w.outq ++ _ = _
  rw [framedOn_flatten]
  simp only [framing, framesOn_append, ← hold, List.append_assoc]
  rw [hadded]
  rfl

theorem queueOut_held (w : SendPlane) (hnodup : (w.paths.map Prod.fst).Nodup) (t link : Nat) :
    (w.queueOut t).heldOn link = [] := by
  have hspec := w.queueOut_spec t hnodup
  have hpaths : ∀ p ∈ (w.paths.filter fun p => p.2 = link),
      ((w.queueOut t).machine.core.pathQueue p.1).flatten = [] := by
    intro p hp
    rw [hspec.path, if_pos (List.mem_map_of_mem (List.mem_of_mem_filter hp)), List.flatten_nil]
  simp only [heldOn, hspec.out, hspec.queues.paths, List.flatten_nil, ite_self, List.nil_append]
  exact List.flatMap_eq_nil_iff.mpr hpaths

theorem queueOut_conserved {w : SendPlane} (h : Conserved w)
    (hnodup : (w.paths.map Prod.fst).Nodup) (t : Nat) : Conserved (w.queueOut t) := by
  intro link
  have hspec := w.queueOut_spec t hnodup
  have hheld := w.queueOut_held hnodup t link
  have hflight : (w.queueOut t).inFlight = w.inFlight := by
    simp only [inFlight, hspec.queues.sender, hspec.queues.turns]
  rw [hheld, List.append_nil, hspec.bytes, hflight, handedOn, hspec.queues.handed, framedOn,
    hspec.queues.framed, ← List.append_assoc]
  exact h link

/-- Only what is handed over, sent, queued, held or framed matters. -/
theorem Conserved.congr {w w' : SendPlane} (h : Conserved w) (hhanded : w'.handed = w.handed)
    (hframed : w'.framed = w.framed) (hout : w'.machine.core.out = w.machine.core.out)
    (hheld : ∀ link, (w'.paths.filter fun p => p.2 = link).flatMap
        (fun p => (w'.machine.core.pathQueue p.1).flatten) =
      (w.paths.filter fun p => p.2 = link).flatMap
        fun p => (w.machine.core.pathQueue p.1).flatten)
    (hsent : ∀ link, bytesOn link w'.inFlight ++ bytesOn link w'.outq =
      bytesOn link w.inFlight ++ bytesOn link w.outq) : Conserved w' := by
  intro link
  have hold := h link
  simp only [handedOn, framedOn, heldOn, List.append_assoc] at hold ⊢
  rw [hhanded, hframed, hout, hheld, ← List.append_assoc (bytesOn link w'.inFlight), hsent,
    List.append_assoc]
  exact hold

theorem Swept.congr {w w' : SendPlane} (h : Swept w) (hm : w'.machine = w.machine)
    (hp : w'.paths = w.paths) : Swept w' := by
  refine ⟨?_, ?_, ?_⟩
  · rw [hm]
    exact h.empty
  · rw [hp]
    exact h.once
  · rw [hm, hp]
    exact h.bound

/-! ### The send lock -/

theorem Locked.congr {w w' : SendPlane} (h : Locked w) (hs : w'.sender = w.sender)
    (ht : w'.turns = w.turns) (hq : w'.outq = w.outq) : Locked w' := by
  refine ⟨?_, ?_, ?_, ?_⟩
  · rw [hs, ht]
    exact h.holds
  · rw [hs, ht]
    exact h.seated
  · rw [hq, ht]
    exact h.queued
  · rw [inFlight, hs, ht]
    exact h.taken

theorem Locked.not_sender {w : SendPlane} (h : Locked w) {t : Nat} (hno : w.turns.has t = false) :
    w.sender ≠ some t := by
  intro hs
  rw [h.seated t hs] at hno
  cases hno

theorem Locked.sender_eq {w : SendPlane} (h : Locked w) {t : Nat} {turn : SendTurn}
    (hturn : w.turns.get t = some turn) (hh : turn.holds = true) : w.sender = some t :=
  (h.holds t turn hturn).mp hh

/-- A thread that has queued something waits for the send lock. -/
theorem Locked.wait {w w' : SendPlane} (h : Locked w) {t : Nat} (hno : w.turns.has t = false)
    (hsender : w'.sender = w.sender) (hturns : w'.turns = w.turns.set t .waiting)
    (hmem : ∀ item ∈ w'.outq, item ∈ w.outq ∨ item.thread = t) :
    Locked w' ∧ w'.inFlight = w.inFlight := by
  have hnot := h.not_sender hno
  have hflight : w'.inFlight = w.inFlight := by
    unfold inFlight
    rw [hsender, hturns]
    cases hs : w.sender with
    | none => rfl
    | some s =>
      have hne : s ≠ t := fun heq => hnot (heq ▸ hs)
      simp only [Assoc.get_set_of_ne _ _ hne]
  have hwaits : ∀ s, w.turns.get s = some .waiting → w'.turns.get s = some .waiting := by
    intro s hs
    rw [hturns, Assoc.get_set]
    split
    · rfl
    · exact hs
  refine ⟨⟨fun s turn hs => ?_, fun s hs => ?_, fun item hitem => ?_, fun item hitem => ?_⟩, hflight⟩
  · rw [hturns, Assoc.get_set] at hs
    rw [hsender]
    split at hs
    · next heq =>
      cases hs
      exact ⟨(fun hh => by cases hh), fun hs => absurd (heq ▸ hs) hnot⟩
    · exact h.holds s turn hs
  · rw [hsender] at hs
    obtain ⟨turn, hturn⟩ := Assoc.has_eq_true.mp (h.seated s hs)
    have hne : s ≠ t := fun heq => hnot (heq ▸ hs)
    exact Assoc.has_eq_true.mpr ⟨turn, by rw [hturns, Assoc.get_set_of_ne _ _ hne, hturn]⟩
  · rcases hmem item hitem with hitem | hthread
    · rcases h.queued item hitem with hq | hq
      · exact .inl (hwaits _ hq)
      · refine .inr ?_
        rw [hturns, Assoc.get_set_of_ne _ _ ?_, hq]
        rintro rfl
        rw [Assoc.has_eq_false.mp hno] at hq
        cases hq
    · exact .inl (by rw [hthread, hturns, Assoc.get_set_self])
  · rw [hflight] at hitem
    rw [hsender]
    exact (h.taken item hitem).imp id (hwaits _)

/-- The holder of the send lock moves on. -/
theorem Locked.move {w w' : SendPlane} (h : Locked w) {t : Nat} {turn turn' : SendTurn}
    (hturn : w.turns.get t = some turn) (hh : turn.holds = true) (hh' : turn'.holds = true)
    (hturns : w'.turns = w.turns.set t turn') (hsender : w'.sender = w.sender)
    (hq : ∀ item ∈ w'.outq, item ∈ w.outq ∧ turn ≠ .fetching)
    (hb : ∀ item ∈ turn'.batch t, item.thread = t ∨
      (∃ item' ∈ turn.batch t, item'.thread = item.thread) ∨ item ∈ w.outq) :
    Locked w' ∧ w'.inFlight = turn'.batch t := by
  have hs : w.sender = some t := h.sender_eq hturn hh
  have hs' : w'.sender = some t := hsender.trans hs
  have hget : w'.turns.get t = some turn' := by rw [hturns, Assoc.get_set_self]
  have hflight : w'.inFlight = turn'.batch t := inFlight_of_turn hs' hget
  have hwaits : ∀ s, w.turns.get s = some .waiting → w'.turns.get s = some .waiting := by
    intro s hw
    have hne : s ≠ t := by
      rintro rfl
      rw [hturn] at hw
      cases hw
      cases hh
    rw [hturns, Assoc.get_set_of_ne _ _ hne, hw]
  refine ⟨⟨fun s turn₁ hs₁ => ?_, fun s hs₁ => ?_, fun item hitem => ?_, fun item hitem => ?_⟩,
    hflight⟩
  · rw [hturns, Assoc.get_set] at hs₁
    rw [hsender]
    split at hs₁
    · next heq =>
      cases hs₁
      exact ⟨fun _ => heq ▸ hs, fun _ => hh'⟩
    · exact h.holds s turn₁ hs₁
  · rw [hs'] at hs₁
    cases hs₁
    exact Assoc.has_eq_true.mpr ⟨turn', hget⟩
  · obtain ⟨hold, hne⟩ := hq item hitem
    rcases h.queued item hold with hw | hf
    · exact .inl (hwaits _ hw)
    · have hthread : item.thread ≠ t := by
        intro heq
        rw [heq, hturn] at hf
        exact hne (Option.some.inj hf)
      exact .inr (by rw [hturns, Assoc.get_set_of_ne _ _ hthread, hf])
  · rw [hflight] at hitem
    rw [hs']
    rcases hb item hitem with hthread | ⟨item', hitem', heq⟩ | hold
    · exact .inl (by rw [hthread])
    · rw [← heq]
      rw [← inFlight_of_turn hs hturn] at hitem'
      rcases h.taken item' hitem' with hthread | hw
      · exact .inl (hs.symm.trans hthread)
      · exact .inr (hwaits _ hw)
    · rcases h.queued item hold with hw | hf
      · exact .inr (hwaits _ hw)
      · exact .inl (hs.symm.trans (h.sender_eq hf rfl))

/-! ### What starts a send step -/

/-- What a call may frame for the links of the session. -/
structure Framing (w : SendPlane) (core : MachineState) : Prop where
  out : w.machine.core.out <+: core.out
  path : ∀ pathid, core.pathQueue pathid ≠ [] → w.paths.has pathid = true
  bound : ∀ sid p, core.pending.get sid = some p → p.pathBytes ≠ [] →
    w.paths.has p.pathid = true

/-- Framing and queueing, in one section. -/
theorem framing_queued {w : SendPlane} (h : InOrder w) {core : MachineState}
    (hf : Framing w core) (t : Nat) :
    Conserved ((w.framing { w.machine with core := core }).queueOut t) ∧
      Swept ((w.framing { w.machine with core := core }).queueOut t) ∧
      QueuedOut t (w.framing { w.machine with core := core })
        ((w.framing { w.machine with core := core }).queueOut t) := by
  have hspec := (w.framing { w.machine with core := core }).queueOut_spec t h.swept.once
  refine ⟨queueOut_conserved (framing_conserved h.conserved h.swept.empty hf.out) h.swept.once t,
    ⟨fun pathid => ?_, ?_, fun sid p hp hdata => ?_⟩, hspec⟩
  · rw [hspec.path]
    split
    · rfl
    · next hunbound =>
      by_contra hne
      exact hunbound (Assoc.mem_keys_iff.mpr (hf.path pathid hne))
  · rw [hspec.queues.paths]
    exact h.swept.once
  · rw [hspec.queues.pending] at hp
    rw [hspec.queues.paths]
    exact hf.bound sid p hp hdata

/-- Nobody has the wire on loan when nobody owns it. -/
theorem Lent.none_onLoan {w : SendPlane} (h : Lent w) (howner : w.owner = none) {t : Nat}
    {turn : SendTurn} (hturn : w.turns.get t = some turn) : turn.onLoan = false := by
  cases hloan : turn.onLoan with
  | false => rfl
  | true =>
    rw [(h.wire t turn hturn hloan).1] at howner
    cases howner

/-- A turn off the loan, in a session nobody owns. -/
theorem Lent.vacant {w w' : SendPlane} (h : Lent w) (howner : w.owner = none)
    (howner' : w'.owner = none) {t : Nat} {turn : SendTurn}
    (hturns : w'.turns = w.turns.set t turn) (hloan : turn.onLoan = false)
    (hpart : turn ≠ .parting) : Lent w' := by
  refine ⟨fun s hs => ?_, fun s turn' hs hl => ?_, fun s hs => ?_⟩
  · rw [howner'] at hs
    cases hs
  · rw [hturns, Assoc.get_set] at hs
    split at hs
    · cases hs
      rw [hloan] at hl
      cases hl
    · rw [h.none_onLoan howner hs] at hl
      cases hl
  · rw [hturns, Assoc.get_set] at hs
    split at hs
    · exact absurd (Option.some.inj hs) hpart
    · rw [h.parting s hs] at howner
      cases howner

/-- A call that only the machine notices. -/
theorem aside_inOrder {w : SendPlane} (h : InOrder w) {m : SessionMachine}
    (hc : MachineState.Carries w.machine.core m.core) : InOrder (w.framing m) where
  conserved := framing_conserved h.conserved h.swept.empty hc.out
  swept := by
    refine ⟨fun pathid => hc.path pathid (h.swept.empty pathid), h.swept.once,
      fun sid p hp hdata => ?_⟩
    obtain ⟨q, hq, hsame⟩ := hc.records sid p hp
    have hbound := h.swept.bound sid q hq (by rw [← hsame.pathBytes]; exact hdata)
    rw [hsame.pathid]
    exact hbound
  locked := h.locked.congr rfl rfl rfl
  lent := by
    refine ⟨fun t ht => ?_, h.lent.wire, h.lent.parting⟩
    obtain ⟨hpast, hout, hnone⟩ := h.lent.alone t ht
    obtain ⟨hpast', hout', -⟩ := hc.past hpast
    refine ⟨hpast', hout'.trans hout, fun sid => ?_⟩
    cases hget : m.core.pending.get sid with
    | none => exact hget
    | some p =>
      obtain ⟨q, hq, -⟩ := hc.records sid p hget
      rw [hnone sid] at hq
      cases hq

/-- Neither a queue nor a record changes. -/
theorem onCore_inOrder {w : SendPlane} (h : InOrder w) {core : MachineState}
    (hmoved : MachineState.Unmoved w.machine.core core)
    (hpending : core.pending = w.machine.core.pending) : InOrder (w.onCore core) := by
  have hqueue : ∀ pathid, core.pathQueue pathid = w.machine.core.pathQueue pathid :=
    fun pathid => MachineState.pathQueue_congr hmoved.outPath pathid
  refine ⟨h.conserved.congr rfl rfl hmoved.out (fun link => ?_) (fun _ => rfl),
    ⟨fun pathid => (hqueue pathid).trans (h.swept.empty pathid), h.swept.once,
      fun sid p hp => h.swept.bound sid p (by rw [← hpending]; exact hp)⟩,
    h.locked.congr rfl rfl rfl, ⟨fun t ht => ?_, h.lent.wire, h.lent.parting⟩⟩
  · exact List.flatMap_congr fun p _ => congrArg List.flatten (hqueue p.1)
  · obtain ⟨hpast, hout, hnone⟩ := h.lent.alone t ht
    refine ⟨?_, hmoved.out.trans hout, fun sid => ?_⟩
    · show MachineState.isPast core.state = true
      rw [hmoved.state]
      exact hpast
    · show core.pending.get sid = none
      rw [hpending]
      exact hnone sid

/-- A request may frame for the control link and for its own path. -/
theorem submits_framing {w : SendPlane} (h : InOrder w) {asked : Asked} {arrive : Bool}
    {sid : Nat} {parts : List Bytes} {core : MachineState}
    (hbound : asked.request.pathid ≠ 0 → w.paths.has asked.request.pathid = true)
    (hs : MachineState.Submits w.machine.core asked.request arrive sid parts core) :
    Framing w core where
  out := by
    rw [hs.out]
    exact List.prefix_append _ _
  path := by
    intro pathid hne
    rw [hs.path, h.swept.empty, List.nil_append] at hne
    by_cases hpathid : pathid = asked.request.pathid
    · by_cases hzero : asked.request.pathid = 0
      · simp [hpathid, hzero, asked.routed hzero] at hne
      · rw [hpathid]
        exact hbound hzero
    · simp [hpathid] at hne
  bound := by
    obtain ⟨q, -, hpathid, hdata, hset⟩ := hs.pending
    intro s p hp hne
    rw [hset, Assoc.get_set] at hp
    split at hp
    · cases hp
      rw [hpathid]
      refine hbound fun hzero => hne ?_
      rw [hdata, asked.routed hzero]
    · exact h.swept.bound s p hp hne

/-- A request sent again frames for the control link and for the path it left on. -/
theorem resumes_framing {w : SendPlane} (h : InOrder w) {sid : Nat} {p : Pending}
    {core : MachineState} (hp : w.machine.core.pending.get sid = some p)
    (hs : MachineState.Resumes w.machine.core p core) : Framing w core where
  out := by
    rw [hs.out]
    exact List.prefix_append _ _
  path := by
    intro pathid hne
    rw [hs.path, h.swept.empty, List.nil_append] at hne
    by_cases hpathid : pathid = p.pathid
    · by_cases hdata : p.pathBytes = []
      · simp [hpathid, hdata] at hne
      · rw [hpathid]
        exact h.swept.bound sid p hp hdata
    · simp [hpathid] at hne
  bound := by
    intro s q hq
    rw [hs.pending] at hq
    exact h.swept.bound s q hq

/-- A thread that has framed something and waits for the send lock. -/
theorem queued_wait {w v : SendPlane} (h : InOrder w) {t : Nat} (hno : w.turns.has t = false)
    (hconserved : Conserved v) (hswept : Swept v) (hsender : v.sender = w.sender)
    (hturns : v.turns = w.turns) (hmem : ∀ item ∈ v.outq, item ∈ w.outq ∨ item.thread = t) :
    Conserved (v.become t .waiting) ∧ Swept (v.become t .waiting) ∧
      Locked (v.become t .waiting) := by
  have hturns' : (v.become t .waiting).turns = w.turns.set t .waiting := by
    rw [become, hturns]
  have hsender' : (v.become t .waiting).sender = w.sender := hsender
  obtain ⟨hlocked, hflight⟩ := h.locked.wait hno hsender' hturns' hmem
  have hflight' : (v.become t .waiting).inFlight = v.inFlight := by
    rw [hflight]
    simp only [inFlight, hsender, hturns]
  refine ⟨hconserved.congr rfl rfl rfl (fun _ => rfl) (fun link => ?_),
    hswept.congr rfl rfl, hlocked⟩
  rw [hflight']
  rfl

theorem start_inOrder {w : SendPlane} (h : InOrder w) (t : Nat) (asked : Asked) (path : Text)
    (arrive : Bool) : InOrder (w.start t asked path arrive) := by
  unfold start
  split
  · exact h
  next hguard =>
  simp only [not_or, Bool.not_eq_true] at hguard
  obtain ⟨hno, howner, -⟩ := hguard
  split
  · exact h
  next hpath =>
  have howner' : w.owner = none := by simpa using howner
  have hbound : asked.request.pathid ≠ 0 → w.paths.has asked.request.pathid = true := by
    intro hne
    by_contra hunbound
    exact hpath ⟨hne, by simpa using hunbound⟩
  split
  · next core hsubmit =>
    obtain ⟨hmoved, hpending, -⟩ := MachineState.submit_error hsubmit
    exact onCore_inOrder h hmoved hpending
  · next sid core hsubmit =>
    obtain ⟨parts, hs⟩ := MachineState.submit_ok hsubmit
    obtain ⟨hconserved, hswept, hqueued⟩ := framing_queued h (submits_framing h hbound hs) t
    dsimp only
    generalize hv : (w.framing { w.machine with core := core }).queueOut t = v at *
    have hsender : v.sender = w.sender := hqueued.queues.sender
    have hturns : v.turns = w.turns := hqueued.queues.turns
    have hvowner : v.owner = none := hqueued.queues.owner.trans howner'
    split
    · next hfree =>
      have hfree' : w.sender = none := hsender.symm.trans hfree
      -- nobody holds the lock, so nobody is sending, and who has queued waits
      have hvflight : v.inFlight = [] := by rw [inFlight, hfree]
      have hwaiting : ∀ item ∈ v.outq, item.thread = t ∨
          w.turns.get item.thread = some .waiting := by
        intro item hitem
        rcases hqueued.mem item hitem with hold | hthread
        · rcases h.locked.queued item hold with hw | hf
          · exact .inr hw
          · rw [h.locked.sender_eq hf rfl] at hfree'
            cases hfree'
        · exact .inl hthread
      have hflight : ({ v with sender := some t, outq := [] }.become t
          (.sending true v.outq)).inFlight = v.outq := by
        rw [inFlight_of_turn rfl (Assoc.get_set_self _ _ _)]
        rfl
      have hturns' : ({ v with sender := some t, outq := [] }.become t
          (.sending true v.outq)).turns = w.turns.set t (.sending true v.outq) := by
        rw [become, hturns]
      refine ⟨hconserved.congr rfl rfl rfl (fun _ => rfl) (fun link => ?_), hswept.congr rfl rfl,
        ⟨fun s turn hs => ?_, fun s hs => ?_, (fun _ h => by cases h), fun item hitem => ?_⟩,
        h.lent.vacant howner' hvowner hturns' rfl (fun h => by cases h)⟩
      · rw [hflight, hvflight]
        simp [become]
      · simp only [become, hturns, Assoc.get_set] at hs
        split at hs
        · next heq =>
          cases hs
          exact ⟨fun _ => by rw [heq]; rfl, fun _ => rfl⟩
        · next hne =>
          refine ⟨fun hh => ?_, fun hs' => absurd (Option.some.inj hs').symm hne⟩
          rw [h.locked.sender_eq hs hh] at hfree'
          cases hfree'
      · cases hs
        exact Assoc.has_eq_true.mpr ⟨_, Assoc.get_set_self _ _ _⟩
      · rw [hflight] at hitem
        rcases hwaiting item hitem with hthread | hw
        · exact .inl (by rw [hthread]; rfl)
        · refine .inr ?_
          simp only [become, hturns, Assoc.get_set]
          rw [if_neg ?_]
          · exact hw
          · intro heq
            rw [heq, Assoc.has_eq_false.mp hno] at hw
            cases hw
    · obtain ⟨hc, hsw, hl⟩ := queued_wait h hno hconserved hswept hsender hturns hqueued.mem
      have hturns' : (v.become t .waiting).turns = w.turns.set t .waiting := by
        rw [become, hturns]
      exact ⟨hc, hsw, hl, h.lent.vacant howner' hvowner hturns' rfl (fun h => by cases h)⟩

/-- Queueing what the machine has framed before. -/
theorem queueOut_swept {w : SendPlane} (h : Swept w) (t : Nat) : Swept (w.queueOut t) := by
  have hspec := w.queueOut_spec t h.once
  refine ⟨fun pathid => ?_, ?_, ?_⟩
  · rw [hspec.path, h.empty]
    exact ite_self _
  · rw [hspec.queues.paths]
    exact h.once
  · rw [hspec.queues.paths, hspec.queues.pending]
    exact h.bound

/-- Nothing is framed, and nothing is queued. -/
theorem queueOut_idle {w : SendPlane} (hout : w.machine.core.out = [])
    (hempty : ∀ pathid, w.machine.core.pathQueue pathid = []) (t : Nat) : w.queueOut t = w := by
  have hpaths : ∀ ps : Assoc Nat Nat, ps.foldl (queuePathOut t) w = w := by
    intro ps
    induction ps with
    | nil => rfl
    | cons p ps ih =>
      have hp : queuePathOut t w p = w := by
        unfold queuePathOut
        rw [hempty]
      rw [List.foldl_cons, hp, ih]
  unfold queueOut
  simp only [hout, if_true, hpaths, ite_self]

/-- One thread's turn changes. -/
theorem Lent.turn {w w' : SendPlane} (h : Lent w) {t : Nat} {turn : SendTurn}
    (hm : w'.machine = w.machine) (ho : w'.owner = w.owner)
    (hq : w'.outq = w.outq ∨ w'.outq = []) (hturns : w'.turns = w.turns.set t turn)
    (hloan : turn.onLoan = true → w.owner = some t ∧ w'.outq = [])
    (hpart : turn = .parting → w.owner = some t) : Lent w' := by
  refine ⟨?_, fun s turn' hs hl => ?_, fun s hs => ?_⟩
  · rw [hm, ho]
    exact h.alone
  · rw [ho]
    rw [hturns, Assoc.get_set] at hs
    split at hs
    · next heq =>
      cases hs
      rw [heq]
      exact hloan hl
    · obtain ⟨howner, hempty⟩ := h.wire s turn' hs hl
      exact ⟨howner, hq.elim (fun hq => hq.trans hempty) id⟩
  · rw [ho]
    rw [hturns, Assoc.get_set] at hs
    split at hs
    · next heq =>
      rw [heq]
      exact hpart (Option.some.inj hs)
    · exact h.parting s hs

theorem resend_inOrder {w : SendPlane} (h : InOrder w) (t sid : Nat) :
    InOrder (w.resend t sid) := by
  unfold resend
  split
  · exact h
  next hguard =>
  simp only [not_or, Bool.not_eq_true] at hguard
  split
  · next core _ hresume =>
    obtain ⟨-, rfl, -⟩ | ⟨hnone, -⟩ := MachineState.resume_cases hresume
    · exact onCore_inOrder h (.refl _) rfl
    · cases hnone
  · next core hresume =>
    obtain ⟨hne, -⟩ | ⟨-, p, hp, hs⟩ := MachineState.resume_cases hresume
    · exact absurd rfl hne
    obtain ⟨hconserved, hswept, hqueued⟩ := framing_queued h (resumes_framing h hp hs) t
    -- a request in flight: the wire is not lent
    have howner : w.owner = none := by
      cases ho : w.owner with
      | none => rfl
      | some o =>
        rw [(h.lent.alone o ho).2.2 sid] at hp
        cases hp
    obtain ⟨hc, hsw, hl⟩ := queued_wait h hguard.1 hconserved hswept hqueued.queues.sender
      hqueued.queues.turns hqueued.mem
    have hturns : (((w.framing { w.machine with core := core }).queueOut t).become t
        .waiting).turns = w.turns.set t .waiting := by
      rw [become, hqueued.queues.turns]
      rfl
    exact ⟨hc, hsw, hl, h.lent.vacant howner (hqueued.queues.owner.trans howner) hturns rfl (fun h => by cases h)⟩

theorem flush_inOrder {w : SendPlane} (h : InOrder w) (t : Nat) : InOrder (w.flush t) := by
  unfold flush
  split
  · exact h
  next hno =>
  rw [Bool.not_eq_true] at hno
  have hspec := w.queueOut_spec t h.swept.once
  obtain ⟨hc, hsw, hl⟩ := queued_wait h hno (queueOut_conserved h.conserved h.swept.once t)
    (queueOut_swept h.swept t) hspec.queues.sender hspec.queues.turns hspec.mem
  refine ⟨hc, hsw, hl, ?_⟩
  have hturns : ((w.queueOut t).become t .waiting).turns = w.turns.set t .waiting := by
    rw [become, hspec.queues.turns]
  cases ho : w.owner with
  | none => exact h.lent.vacant ho (hspec.queues.owner.trans ho) hturns rfl fun h => by cases h
  | some o =>
    rw [queueOut_idle (h.lent.alone o ho).2.1 h.swept.empty t]
    exact h.lent.turn rfl rfl (.inl rfl) rfl (fun h => by cases h) fun h => by cases h

theorem lend_inOrder {w : SendPlane} (h : InOrder w) (t : Nat) : InOrder (w.lend t) := by
  unfold lend
  split
  · exact h
  next hguard =>
  simp only [not_or, Bool.not_eq_true, Bool.not_eq_false] at hguard
  obtain ⟨hno, howner, hidle⟩ := hguard
  have howner' : w.owner = none := by simpa using howner
  simp only [MachineState.idle, Bool.and_eq_true, decide_eq_true_eq] at hidle
  obtain ⟨⟨hready, hpending⟩, -⟩ := hidle
  generalize hv : { w with owner := some t } = v
  have hvturns : v.turns = w.turns := by rw [← hv]
  have hvqueue : v.outq = w.outq := by rw [← hv]
  have hvcore : v.machine = w.machine := by rw [← hv]
  have hvpaths : v.paths = w.paths := by rw [← hv]
  have hconserved : Conserved v := by
    subst hv
    exact h.conserved
  have hswept : Swept v := h.swept.congr hvcore hvpaths
  have hspec := v.queueOut_spec t hswept.once
  have hturns : (v.queueOut t).turns = w.turns := hspec.queues.turns.trans hvturns
  obtain ⟨hc, hsw, hl⟩ := queued_wait h hno (queueOut_conserved hconserved hswept.once t)
    (queueOut_swept hswept t) (hspec.queues.sender.trans (by rw [← hv])) hturns
    (by rw [← hvqueue]; exact hspec.mem)
  refine ⟨hc, hsw, hl,
    ⟨fun s _ => ⟨?_, hspec.out, fun sid => ?_⟩, fun s turn hs hloan => ?_, fun s hs => ?_⟩⟩
  · show MachineState.isPast (v.queueOut t).machine.core.state = true
    rw [hspec.queues.state, hvcore, hready]
    rfl
  · show (v.queueOut t).machine.core.pending.get sid = none
    rw [hspec.queues.pending, hvcore, hpending]
    rfl
  · simp only [become, hturns, Assoc.get_set] at hs
    split at hs
    · cases hs
      cases hloan
    · rw [h.lent.none_onLoan howner' hs] at hloan
      cases hloan
  · simp only [become, hturns, Assoc.get_set] at hs
    split at hs
    · cases hs
    · rw [h.lent.parting s hs] at howner'
      cases howner'

/-! ### Under the send lock -/

theorem take_inOrder {w : SendPlane} (h : InOrder w) (t : Nat) : InOrder (w.take t) := by
  unfold take
  split
  · next hturn hfree =>
    have hbefore : w.inFlight = [] := by rw [inFlight, hfree]
    have hafter : ({ w with sender := some t }.become t .fetching).inFlight = [] := by
      rw [inFlight_of_turn rfl (Assoc.get_set_self _ _ _)]
      rfl
    refine ⟨h.conserved.congr rfl rfl rfl (fun _ => rfl) (fun link => ?_), h.swept.congr rfl rfl,
      ⟨fun s turn hs => ?_, fun s hs => ?_, fun item hitem => ?_, fun item hitem => ?_⟩,
      h.lent.turn rfl rfl (.inl rfl) rfl nofun nofun⟩
    · rw [hafter, hbefore]
      rfl
    · simp only [become, Assoc.get_set] at hs
      split at hs
      · next heq =>
        cases hs
        exact ⟨fun _ => by rw [heq]; rfl, fun _ => rfl⟩
      · next hne =>
        refine ⟨fun hh => ?_, fun hs' => absurd (Option.some.inj hs').symm hne⟩
        rw [h.locked.sender_eq hs hh] at hfree
        cases hfree
    · cases hs
      exact Assoc.has_eq_true.mpr ⟨_, Assoc.get_set_self _ _ _⟩
    · simp only [become, Assoc.get_set]
      split
      · exact .inr rfl
      · exact h.locked.queued item hitem
    · rw [hafter] at hitem
      cases hitem
  · exact h

/-- The holder of the send lock moves on, and what it has taken and what is queued are
together as before. -/
theorem InOrder.move {w w' : SendPlane} (h : InOrder w) {t : Nat} {turn turn' : SendTurn}
    (hturn : w.turns.get t = some turn) (hh : turn.holds = true) (hh' : turn'.holds = true)
    (hw : w' = { w with turns := w.turns.set t turn', outq := w'.outq })
    (hq : w'.outq = w.outq ∧ turn ≠ .fetching ∨ w'.outq = [])
    (hb : ∀ item ∈ turn'.batch t, item.thread = t ∨
      (∃ item' ∈ turn.batch t, item'.thread = item.thread) ∨ item ∈ w.outq)
    (hbytes : ∀ link, bytesOn link (turn'.batch t) ++ bytesOn link w'.outq =
      bytesOn link (turn.batch t) ++ bytesOn link w.outq)
    (hloan : turn'.onLoan = true → w.owner = some t ∧ w'.outq = []) : InOrder w' := by
  have hpart : turn' = .parting → w.owner = some t := by
    rintro rfl
    cases hh'
  have hturns : w'.turns = w.turns.set t turn' := by rw [hw]
  have hsender : w'.sender = w.sender := by rw [hw]
  have hmachine : w'.machine = w.machine := by rw [hw]
  have hpaths : w'.paths = w.paths := by rw [hw]
  obtain ⟨hlocked, hflight⟩ := h.locked.move hturn hh hh' hturns hsender (fun item hitem => by
    rcases hq with ⟨hq, hne⟩ | hq
    · exact ⟨hq ▸ hitem, hne⟩
    · rw [hq] at hitem
      cases hitem) hb
  refine ⟨h.conserved.congr (by rw [hw]) (by rw [hw]) (by rw [hmachine]) (fun link => ?_)
    (fun link => ?_), h.swept.congr hmachine hpaths, hlocked,
    h.lent.turn hmachine (by rw [hw]) (hq.imp And.left id) hturns hloan hpart⟩
  · rw [hmachine, hpaths]
  · rw [hflight, inFlight_of_turn (h.locked.sender_eq hturn hh) hturn]
    exact hbytes link

theorem fetch_inOrder {w : SendPlane} (h : InOrder w) (t : Nat) : InOrder (w.fetch t) := by
  unfold fetch
  split
  · next hturn =>
    split
    · next hempty =>
      have hother : ∀ turn : SendTurn, turn.batch t = [] → turn.holds = true →
          (turn.onLoan = true → w.owner = some t) → InOrder (w.become t turn) := by
        intro turn hbatch hholds hloan
        refine h.move hturn rfl hholds rfl (.inr hempty) ?_ (fun link => ?_)
          (fun hl => ⟨hloan hl, hempty⟩)
        · rw [hbatch]
          nofun
        · rw [hbatch]
          rfl
      split
      · next howner => exact hother .lent rfl rfl fun _ => howner
      · exact hother .releasing rfl rfl nofun
    · exact h.move hturn rfl rfl rfl (.inr rfl) (fun item hitem => .inr (.inr hitem))
        (fun link => by simp [SendTurn.batch, become]) nofun
  · exact h

theorem next_inOrder {w : SendPlane} (h : InOrder w) (t : Nat) : InOrder (w.next t) := by
  unfold next
  split
  · next owned item batch hturn =>
    split
    · next hempty =>
      refine h.move hturn rfl rfl rfl (.inl ⟨rfl, nofun⟩)
        (fun other hother => .inr (.inl ⟨other, List.mem_cons_of_mem _ hother, rfl⟩))
        (fun link => ?_) nofun
      simp [SendTurn.batch, bytesOn_cons, hempty, become]
    · exact h
  · next hturn =>
    split
    · exact h.move hturn rfl rfl rfl (.inl ⟨rfl, nofun⟩) nofun (fun _ => rfl) nofun
    · exact h.move hturn rfl rfl rfl (.inl ⟨rfl, nofun⟩) nofun (fun _ => rfl) nofun
  · next hturn => exact h.move hturn rfl rfl rfl (.inl ⟨rfl, nofun⟩) nofun (fun _ => rfl) nofun
  · next hturn =>
    obtain ⟨howner, hempty⟩ := h.lent.wire t _ hturn rfl
    exact h.move hturn rfl rfl rfl (.inl ⟨rfl, nofun⟩) nofun (fun link => by
      simp [SendTurn.batch, bytesOn_cons]; rfl) (fun _ => ⟨howner, hempty⟩)
  · exact h

theorem finish_inOrder {w : SendPlane} (h : InOrder w) (t : Nat) : InOrder (w.finish t) := by
  unfold finish
  split
  · next hturn => exact h.move hturn rfl rfl rfl (.inl ⟨rfl, nofun⟩) nofun (fun _ => rfl) nofun
  · exact h

theorem put_inOrder {w : SendPlane} (h : InOrder w) (t n : Nat) : InOrder (w.put t n) := by
  -- what is handed over leaves the front of the batch
  have hput : ∀ (turn turn' : SendTurn) (link : Nat) (bytes : Bytes),
      w.turns.get t = some turn → turn.holds = true → turn'.holds = true → turn ≠ .fetching →
      (∀ item ∈ turn'.batch t, ∃ item' ∈ turn.batch t, item'.thread = item.thread) →
      (∀ l, bytesOn l (turn.batch t) =
        (if link = l then bytes.take n else []) ++ bytesOn l (turn'.batch t)) →
      (turn'.onLoan = true → turn.onLoan = true) →
      InOrder ({ w with handed := w.handed ++ [(link, bytes.take n)] }.become t turn') := by
    intro turn turn' link bytes hturn hh hh' hne hb hbytes hloan
    have hturns : ({ w with handed := w.handed ++ [(link, bytes.take n)] }.become t turn').turns =
        w.turns.set t turn' := rfl
    have hsender : ({ w with handed := w.handed ++ [(link, bytes.take n)] }.become t
        turn').sender = w.sender := rfl
    obtain ⟨hlocked, hflight⟩ := h.locked.move hturn hh hh' hturns hsender
      (fun item hitem => ⟨hitem, hne⟩) (fun item hitem => .inr (.inl (hb item hitem)))
    refine ⟨fun l => ?_, h.swept.congr rfl rfl, hlocked, h.lent.turn rfl rfl (.inl rfl) rfl
      (fun hl => h.lent.wire t turn hturn (hloan hl)) (by rintro rfl; cases hh')⟩
    have hold := h.conserved l
    rw [inFlight_of_turn (h.locked.sender_eq hturn hh) hturn, hbytes] at hold
    rw [hflight]
    have hhanded : ({ w with handed := w.handed ++ [(link, bytes.take n)] }.become t
        turn').handedOn l = w.handedOn l ++ (if link = l then bytes.take n else []) := by
      by_cases hl : link = l <;> simp [handedOn, become, hl]
    rw [hhanded]
    simp only [List.append_assoc] at hold ⊢
    exact hold
  unfold put
  split
  · next owned item batch hturn =>
    refine hput _ _ item.link item.bytes hturn rfl rfl nofun (fun other hother => ?_)
      (fun l => ?_) nofun
    · rcases List.mem_cons.mp hother with rfl | hother
      · exact ⟨item, List.mem_cons_self, rfl⟩
      · exact ⟨other, List.mem_cons_of_mem _ hother, rfl⟩
    · simp only [SendTurn.batch, bytesOn_cons]
      by_cases hl : item.link = l
      · simp only [hl, if_true]
        rw [← List.append_assoc, List.take_append_drop]
      · simp [hl]
  · next rest hturn =>
    refine hput _ _ 0 rest hturn rfl rfl nofun (fun other hother => ?_) (fun l => ?_) (fun _ => rfl)
    · rw [SendTurn.batch, List.mem_singleton] at hother
      exact ⟨⟨0, 0, rest, t⟩, List.mem_singleton.mpr rfl, by rw [hother]⟩
    · simp only [SendTurn.batch, bytesOn_cons]
      by_cases hl : 0 = l
      · simp only [hl, if_true]
        rw [← List.append_assoc, List.take_append_drop]
      · simp [hl]
  · exact h

/-- The send lock is free again. -/
theorem release_inOrder {w : SendPlane} (h : InOrder w) (t : Nat) : InOrder (w.release t) := by
  unfold release
  split
  · next hturn =>
    have hs : w.sender = some t := h.locked.sender_eq hturn rfl
    have hbefore : w.inFlight = [] := by
      rw [inFlight_of_turn hs hturn]
      rfl
    have hothers : ∀ s turn, s ≠ t → w.turns.get s = some turn → turn.holds = false := by
      intro s turn hne hturn'
      cases hh : turn.holds with
      | false => rfl
      | true =>
        rw [h.locked.sender_eq hturn' hh] at hs
        exact absurd (Option.some.inj hs) hne
    have hthread : ∀ item ∈ w.outq, item.thread ≠ t := by
      intro item hitem heq
      rcases h.locked.queued item hitem with hq | hq <;> rw [heq, hturn] at hq <;> cases hq
    split
    · next howner =>
      refine ⟨h.conserved.congr rfl rfl rfl (fun _ => rfl) (fun link => ?_), h.swept.congr rfl rfl,
        ⟨fun s turn hs' => ?_, (fun _ h => by cases h), fun item hitem => ?_, (fun _ h => by cases h)⟩,
        h.lent.turn rfl rfl (.inl rfl) rfl (fun h => by cases h) (fun _ => howner)⟩
      · rw [hbefore]
        rfl
      · simp only [become, Assoc.get_set] at hs'
        split at hs'
        · cases hs'
          exact ⟨(fun hh => by cases hh), fun hh => by cases hh⟩
        · next hne =>
          refine ⟨fun hh => ?_, fun hh => by cases hh⟩
          rw [hothers s turn hne hs'] at hh
          cases hh
      · simp only [become, Assoc.get_set_of_ne _ _ (hthread item hitem)]
        exact h.locked.queued item hitem
    · refine ⟨h.conserved.congr rfl rfl rfl (fun _ => rfl) (fun link => ?_), h.swept.congr rfl rfl,
        ⟨fun s turn hs' => ?_, (fun _ h => by cases h), fun item hitem => ?_, (fun _ h => by cases h)⟩,
        ⟨h.lent.alone, fun s turn hs' hl => ?_, fun s hs' => ?_⟩⟩
      · rw [hbefore]
        rfl
      · rw [Assoc.get_del] at hs'
        split at hs'
        · cases hs'
        · next hne =>
          refine ⟨fun hh => ?_, fun hh => by cases hh⟩
          rw [hothers s turn hne hs'] at hh
          cases hh
      · simp only [Assoc.get_del_of_ne _ (hthread item hitem)]
        exact h.locked.queued item hitem
      · rw [Assoc.get_del] at hs'
        split at hs'
        · cases hs'
        · exact h.lent.wire s turn hs' hl
      · rw [Assoc.get_del] at hs'
        split at hs'
        · cases hs'
        · exact h.lent.parting s hs'
  · exact h

/-! ### The bulk reader -/

theorem issue_inOrder {w : SendPlane} (h : InOrder w) (t : Nat) (request : Request) (sid : Nat)
    (cancelled : Bool) : InOrder (w.issue t request sid cancelled) := by
  have hmoved := MachineState.framePartsFor_unmoved w.machine.core request sid
  have hstreams := MachineState.framePartsFor_streams w.machine.core request sid
  unfold issue
  split
  · next hturn =>
    split
    · next core hframe =>
      rw [hframe] at hmoved hstreams
      exact onCore_inOrder h hmoved hstreams.pending
    · next parts core hframe =>
      rw [hframe] at hmoved hstreams
      have hcore := onCore_inOrder h hmoved hstreams.pending
      split
      · exact hcore
      · obtain ⟨howner, hempty⟩ := h.lent.wire t _ hturn rfl
        have hout : core.out = [] := hmoved.out.trans (h.lent.alone t howner).2.1
        generalize hv : w.onCore core = v at *
        have hvturn : v.turns.get t = some .lent := by rw [← hv]; exact hturn
        have hvqueue : v.outq = [] := by rw [← hv]; exact hempty
        generalize hv' : SendPlane.become { v with framed := w.framed ++ [⟨0, parts.flatten⟩] } t
          (.lending parts.flatten) = v'
        have hturns : v'.turns = v.turns.set t (.lending parts.flatten) := by rw [← hv']; rfl
        have hsender : v'.sender = v.sender := by rw [← hv']; rfl
        have hqueue : v'.outq = v.outq := by rw [← hv']; rfl
        obtain ⟨hlocked, hflight⟩ := hcore.locked.move hvturn rfl rfl hturns hsender
          (fun item hitem => ⟨hqueue ▸ hitem, nofun⟩) (fun item hitem => by
            rw [SendTurn.batch, List.mem_singleton] at hitem
            exact .inl (by rw [hitem]))
        subst hv'
        refine ⟨fun link => ?_, hcore.swept.congr rfl rfl, hlocked,
          hcore.lent.turn rfl rfl (.inl rfl) rfl (fun _ => ⟨by rw [← hv]; exact howner, hvqueue⟩)
            nofun⟩
        -- nothing is queued or held, so what is framed now is what is sent next
        have hold := hcore.conserved link
        have hheld : v.heldOn link = [] := by
          have hvout : v.machine.core.out = [] := by rw [← hv]; exact hout
          simp [heldOn, hvout, hcore.swept.empty]
        rw [inFlight_of_turn (hcore.locked.sender_eq hvturn rfl) hvturn, hvqueue, hheld,
          framedOn_flatten] at hold
        simp only [SendTurn.batch, bytesOn_nil, List.append_nil] at hold
        have hvframed : v.framed = w.framed := by rw [← hv]; rfl
        rw [hflight, framedOn_flatten]
        show v.handedOn link ++ _ ++ bytesOn link v.outq ++ v.heldOn link = _
        rw [hheld, hvqueue, hold, hvframed]
        simp only [become, framesOn_append, SendTurn.batch, bytesOn_cons, bytesOn_nil,
          List.append_nil]
        by_cases hlink : 0 = link <;> simp [framesOn, hlink]
  · exact h

theorem part_inOrder {w : SendPlane} (h : InOrder w) (t : Nat) : InOrder (w.part t) := by
  unfold part
  split
  · next hturn =>
    have hnot : w.sender ≠ some t := fun hs => by
      cases (h.locked.holds t _ hturn).mpr hs
    have hkept : ∀ s, s ≠ t → (w.turns.del t).get s = w.turns.get s :=
      fun s hne => Assoc.get_del_of_ne _ hne
    have hflight : ({ w with owner := none, turns := w.turns.del t } : SendPlane).inFlight =
        w.inFlight := by
      cases hs : w.sender with
      | none => simp [inFlight, hs]
      | some s =>
        have hne : s ≠ t := fun heq => hnot (heq ▸ hs)
        simp [inFlight, hs, hkept s hne]
    have hne_of_waiting : ∀ s, w.turns.get s = some .waiting → s ≠ t := by
      rintro s hs rfl
      rw [hturn] at hs
      cases hs
    have hne_of_fetching : ∀ s, w.turns.get s = some .fetching → s ≠ t := by
      rintro s hs rfl
      rw [hturn] at hs
      cases hs
    refine ⟨h.conserved.congr rfl rfl rfl (fun _ => rfl) (fun link => by rw [hflight]),
      h.swept.congr rfl rfl,
      ⟨fun s turn hs => ?_, fun s hs => ?_, fun item hitem => ?_, fun item hitem => ?_⟩,
      ⟨(fun _ h => by cases h), fun s turn hs hl => ?_, fun s hs => ?_⟩⟩
    · rw [Assoc.get_del] at hs
      split at hs
      · cases hs
      · exact h.locked.holds s turn hs
    · obtain ⟨turn, hget⟩ := Assoc.has_eq_true.mp (h.locked.seated s hs)
      have hne : s ≠ t := fun heq => hnot (heq ▸ hs)
      exact Assoc.has_eq_true.mpr ⟨turn, (hkept s hne).trans hget⟩
    · exact (h.locked.queued item hitem).imp (fun hq => (hkept _ (hne_of_waiting _ hq)).trans hq)
        (fun hq => (hkept _ (hne_of_fetching _ hq)).trans hq)
    · rw [hflight] at hitem
      exact (h.locked.taken item hitem).imp id
        (fun hq => (hkept _ (hne_of_waiting _ hq)).trans hq)
    -- the wire is lent to its owner only, and that is who parts with it
    · rw [Assoc.get_del] at hs
      split at hs
      · cases hs
      · next hne =>
        have howner := (h.lent.wire s turn hs hl).1
        rw [h.lent.parting t hturn] at howner
        exact absurd (Option.some.inj howner).symm hne
    · rw [Assoc.get_del] at hs
      split at hs
      · cases hs
      · next hne =>
        have howner := h.lent.parting s hs
        rw [h.lent.parting t hturn] at howner
        exact absurd (Option.some.inj howner).symm hne
  · exact h

/-! ### The paths -/

/-- Empty queues, whichever paths they are of. -/
theorem pathQueues_nil {core : MachineState} (h : ∀ pathid, core.pathQueue pathid = [])
    (ps : Assoc Nat Nat) : (ps.flatMap fun p => (core.pathQueue p.1).flatten) = [] :=
  List.flatMap_eq_nil_iff.mpr fun p _ => by rw [h, List.flatten_nil]

theorem adoptPath_inOrder {w : SendPlane} (h : InOrder w) (pathid : Nat) :
    InOrder (w.adoptPath pathid) := by
  unfold adoptPath
  split
  · exact h
  · refine ⟨h.conserved.congr rfl rfl rfl (fun link => ?_) (fun _ => rfl),
      ⟨h.swept.empty, Assoc.nodup_set h.swept.once _ _, fun sid p hp hdata => ?_⟩,
      h.locked.congr rfl rfl rfl, ⟨h.lent.alone, h.lent.wire, h.lent.parting⟩⟩
    · rw [pathQueues_nil h.swept.empty, pathQueues_nil h.swept.empty]
    · obtain ⟨link, hlink⟩ := Assoc.has_eq_true.mp (h.swept.bound sid p hp hdata)
      refine Assoc.has_eq_true.mpr ?_
      rw [Assoc.get_set]
      split
      · exact ⟨_, rfl⟩
      · exact ⟨link, hlink⟩

theorem closePath_inOrder {w : SendPlane} (h : InOrder w) (pathid : Nat) :
    InOrder (w.closePath pathid) := by
  have hc := w.machine.forgetPath_carries pathid
  have hout : (w.machine.forgetPath pathid).core.out = w.machine.core.out :=
    (MachineState.foldl_unmoved MachineState.release_unmoved _ _).out
  refine ⟨h.conserved.congr rfl rfl hout (fun link => ?_) (fun _ => rfl),
    ⟨fun p => hc.path p (h.swept.empty p), Assoc.nodup_del h.swept.once _,
      fun sid p hp hdata => ?_⟩,
    h.locked.congr rfl rfl rfl, ⟨fun t ht => ?_, h.lent.wire, h.lent.parting⟩⟩
  · have hempty : ∀ p, (w.closePath pathid).machine.core.pathQueue p = [] :=
      fun p => hc.path p (h.swept.empty p)
    rw [pathQueues_nil hempty, pathQueues_nil h.swept.empty]
  · -- the streams of the path are forgotten with it
    have hne := w.machine.forgetPath_gone pathid hp
    obtain ⟨q, hq, hsame⟩ := hc.records sid p hp
    have hbound := h.swept.bound sid q hq (by rw [← hsame.pathBytes]; exact hdata)
    rw [← hsame.pathid] at hbound
    obtain ⟨link, hlink⟩ := Assoc.has_eq_true.mp hbound
    exact Assoc.has_eq_true.mpr ⟨link, (Assoc.get_del_of_ne _ hne).trans hlink⟩
  · obtain ⟨hpast, hout', hnone⟩ := h.lent.alone t ht
    refine ⟨(hc.past hpast).1, hout.trans hout', fun sid => ?_⟩
    cases hget : (w.closePath pathid).machine.core.pending.get sid with
    | none => rfl
    | some p =>
      obtain ⟨q, hq, -⟩ := hc.records sid p hget
      rw [hnone sid] at hq
      cases hq

/-! ## Runs -/

theorem step_inOrder {w : SendPlane} (h : InOrder w) (move : SendMove) :
    InOrder (w.step move) := by
  cases move with
  | start t asked path arrive => exact start_inOrder h t asked path arrive
  | resend t sid => exact resend_inOrder h t sid
  | flush t => exact flush_inOrder h t
  | lend t => exact lend_inOrder h t
  | take t => exact take_inOrder h t
  | fetch t => exact fetch_inOrder h t
  | put t n => exact put_inOrder h t n
  | next t => exact next_inOrder h t
  | release t => exact release_inOrder h t
  | issue t request sid cancelled => exact issue_inOrder h t request sid cancelled
  | finish t => exact finish_inOrder h t
  | part t => exact part_inOrder h t
  | aside op =>
    show InOrder (w.aside op)
    unfold aside
    split
    · next haside => exact aside_inOrder h (SessionMachine.step_carries w.machine haside)
    · exact h
  | adoptPath pathid => exact adoptPath_inOrder h pathid
  | closePath pathid => exact closePath_inOrder h pathid

theorem run_inOrder {w : SendPlane} (h : InOrder w) (moves : List SendMove) :
    InOrder (w.run moves) := by
  induction moves generalizing w with
  | nil => exact h
  | cons move moves ih => exact ih (step_inOrder h move)

/-! ### What the machine is left with -/

/-- The thread that begins a send step. -/
def beginner : SendMove → Option Nat
  | .start t _ _ _ | .resend t _ | .flush t | .lend t => some t
  | _ => none

/-- A call of the machine by none of them. -/
def besides : SendMove → Bool
  | .aside _ => true
  | _ => false

/-- A thread that has begun its send step has left nothing in the machine. -/
theorem begun_held {w : SendPlane} (h : InOrder w) {move : SendMove} {t : Nat} (hmove : beginner move = some t)
    (hno : w.turns.has t = false) (hin : (w.step move).turns.has t = true) (link : Nat) :
    (w.step move).heldOn link = [] := by
  cases move with
  | start s asked path arrive =>
    cases hmove
    revert hin
    show (w.start t asked path arrive).turns.has t = true → (w.start t asked path arrive).heldOn link = []
    unfold start
    split
    · exact fun hin => absurd hin (by rw [hno]; exact Bool.false_ne_true)
    split
    · exact fun hin => absurd hin (by rw [hno]; exact Bool.false_ne_true)
    split
    · exact fun hin => absurd hin (by rw [onCore, hno]; exact Bool.false_ne_true)
    · next core _ =>
      intro _
      have hheld := (w.framing { w.machine with core := core }).queueOut_held h.swept.once t link
      dsimp only
      split <;> exact hheld
  | resend s sid =>
    cases hmove
    revert hin
    show (w.resend t sid).turns.has t = true → (w.resend t sid).heldOn link = []
    unfold resend
    split
    · exact fun hin => absurd hin (by rw [hno]; exact Bool.false_ne_true)
    split
    · exact fun hin => absurd hin (by rw [onCore, hno]; exact Bool.false_ne_true)
    · next core _ => exact fun _ => (w.framing { w.machine with core := core }).queueOut_held h.swept.once t link
  | flush s =>
    cases hmove
    show (w.flush t).heldOn link = []
    rw [flush, if_neg (by rw [hno]; exact Bool.false_ne_true)]
    exact w.queueOut_held h.swept.once t link
  | lend s =>
    cases hmove
    revert hin
    show (w.lend t).turns.has t = true → (w.lend t).heldOn link = []
    unfold lend
    split
    · exact fun hin => absurd hin (by rw [hno]; exact Bool.false_ne_true)
    · exact fun _ => queueOut_held { w with owner := some t } h.swept.once t link
  | take | fetch | put | next | release | issue | finish | part | aside | adoptPath | closePath => cases hmove

/-- Between two steps, all that the machine can hold is for the control link. -/
theorem InOrder.held {w : SendPlane} (h : InOrder w) (link : Nat) :
    w.heldOn link = if link = 0 then w.machine.core.out.flatten else [] := by
  rw [heldOn, pathQueues_nil h.swept.empty, List.append_nil]

/-- What leaves the machine's own queue alone leaves what the machine holds alone. -/
theorem InOrder.held_of_out {w w' : SendPlane} (h : InOrder w) (h' : InOrder w')
    (hout : w'.machine.core.out = w.machine.core.out) {link : Nat} (hheld : w.heldOn link = []) :
    w'.heldOn link = [] := by
  rw [h'.held, hout, ← h.held]
  exact hheld

/-- None of the threads leaves in the machine what it frames. -/
theorem step_held {w : SendPlane} (h : InOrder w) {move : SendMove} (hmove : besides move = false)
    {link : Nat} (hheld : w.heldOn link = []) : (w.step move).heldOn link = [] := by
  have h' := step_inOrder h move
  have hsame (hout : (w.step move).machine.core.out = w.machine.core.out) (hheld : w.heldOn link = []) :
      (w.step move).heldOn link = [] := h.held_of_out h' hout hheld
  have hbegun (t : Nat) (ht : beginner move = some t) (hno : w.turns.has t = false) :=
    begun_held h ht hno
  cases move with
  | start t asked path arrive =>
    by_cases hno : w.turns.has t = true
    · exact hsame (by rw [step, start, if_pos (.inl hno)]) hheld
    by_cases hin : (w.step (.start t asked path arrive)).turns.has t = true
    · exact hbegun t rfl (by simpa using hno) hin link
    refine hsame ?_ hheld
    revert hin
    show ¬ (w.start t asked path arrive).turns.has t = true →
      (w.start t asked path arrive).machine.core.out = w.machine.core.out
    unfold start
    split
    · exact fun _ => rfl
    split
    · exact fun _ => rfl
    split
    · next core hsubmit => exact fun _ => (MachineState.submit_error hsubmit).1.out
    · dsimp only
      split <;> exact fun hin => absurd (Assoc.has_eq_true.mpr ⟨_, Assoc.get_set_self _ _ _⟩) hin
  | resend t sid =>
    by_cases hno : w.turns.has t = true
    · exact hsame (by rw [step, resend, if_pos (.inl hno)]) hheld
    by_cases hin : (w.step (.resend t sid)).turns.has t = true
    · exact hbegun t rfl (by simpa using hno) hin link
    refine hsame ?_ hheld
    revert hin
    show ¬ (w.resend t sid).turns.has t = true → (w.resend t sid).machine.core.out = w.machine.core.out
    unfold resend
    split
    · exact fun _ => rfl
    split
    · next core _ hresume =>
      obtain ⟨-, rfl, -⟩ | ⟨hnone, -⟩ := MachineState.resume_cases hresume
      · exact fun _ => rfl
      · cases hnone
    · exact fun hin => absurd (Assoc.has_eq_true.mpr ⟨_, Assoc.get_set_self _ _ _⟩) hin
  | flush t =>
    by_cases hno : w.turns.has t = true
    · exact hsame (by rw [step, flush, if_pos hno]) hheld
    · refine hbegun t rfl (by simpa using hno) ?_ link
      rw [step, flush, if_neg hno]
      exact Assoc.has_eq_true.mpr ⟨_, Assoc.get_set_self _ _ _⟩
  | lend t =>
    by_cases hguard : w.turns.has t = true ∨ w.owner.isSome = true ∨ w.machine.core.idle = false
    · exact hsame (by rw [step, lend, if_pos hguard]) hheld
    · refine hbegun t rfl ?_ ?_ link
      · simp only [not_or, Bool.not_eq_true] at hguard
        exact hguard.1
      · rw [step, lend, if_neg hguard]
        exact Assoc.has_eq_true.mpr ⟨_, Assoc.get_set_self _ _ _⟩
  | take t =>
    refine hsame ?_ hheld
    show (w.take t).machine.core.out = _
    unfold take
    split <;> rfl
  | fetch t =>
    refine hsame ?_ hheld
    show (w.fetch t).machine.core.out = _
    unfold fetch
    split
    · split <;> rfl
    · rfl
  | put t n =>
    refine hsame ?_ hheld
    show (w.put t n).machine.core.out = _
    unfold put
    split <;> rfl
  | next t =>
    refine hsame ?_ hheld
    show (w.next t).machine.core.out = _
    unfold next
    split
    · split <;> rfl
    all_goals rfl
  | release t =>
    refine hsame ?_ hheld
    show (w.release t).machine.core.out = _
    unfold release
    split
    · split <;> rfl
    · rfl
  | issue t request sid cancelled =>
    refine hsame ?_ hheld
    have hmoved := MachineState.framePartsFor_unmoved w.machine.core request sid
    show (w.issue t request sid cancelled).machine.core.out = _
    unfold issue
    split
    · split
      · next core hframe =>
        rw [hframe] at hmoved
        exact hmoved.out
      · next parts core hframe =>
        rw [hframe] at hmoved
        split <;> exact hmoved.out
    · rfl
  | finish t =>
    refine hsame ?_ hheld
    show (w.finish t).machine.core.out = _
    unfold finish
    split <;> rfl
  | part t =>
    refine hsame ?_ hheld
    show (w.part t).machine.core.out = _
    unfold part
    split <;> rfl
  | aside op => cases hmove
  | adoptPath pathid =>
    refine hsame ?_ hheld
    show (w.adoptPath pathid).machine.core.out = _
    unfold adoptPath
    split <;> rfl
  | closePath pathid =>
    exact hsame (MachineState.foldl_unmoved MachineState.release_unmoved _ _).out hheld

theorem run_held {w : SendPlane} (h : InOrder w) {moves : List SendMove}
    (hmoves : ∀ move ∈ moves, besides move = false) {link : Nat} (hheld : w.heldOn link = []) :
    (w.run moves).heldOn link = [] := by
  induction moves generalizing w with
  | nil => exact hheld
  | cons move moves ih =>
    exact ih (step_inOrder h move) (fun other hin => hmoves other (List.mem_cons_of_mem _ hin))
      (step_held h (hmoves move List.mem_cons_self) hheld)

/-- The last thing framed was framed by a thread in its send step, or was queued by one since. -/
inductive Fetched (w : SendPlane) : List SendMove → Prop where
  | none {moves : List SendMove} (h : ∀ move ∈ moves, besides move = false) : Fetched w moves
  | begun {earlier later : List SendMove} {move : SendMove} {t : Nat} (hmove : beginner move = some t)
      (hno : (w.run earlier).turns.has t = false) (hin : ((w.run earlier).step move).turns.has t = true)
      (h : ∀ move ∈ later, besides move = false) : Fetched w (earlier ++ move :: later)

theorem Fetched.held {w : SendPlane} {moves : List SendMove} (hf : Fetched w moves) (h : InOrder w)
    (hheld : ∀ link, w.heldOn link = []) (link : Nat) : (w.run moves).heldOn link = [] := by
  cases hf with
  | none hmoves => exact run_held h hmoves (hheld link)
  | @begun earlier later move t hmove hno hin hmoves =>
    have hbefore := run_inOrder h earlier
    have hrun : w.run (earlier ++ move :: later) = ((w.run earlier).step move).run later := by
      rw [run, List.foldl_append]
      rfl
    rw [hrun]
    exact run_held (step_inOrder hbefore move) hmoves (begun_held hbefore hmove hno hin link)

/-- On every link the frames are handed over one after the other, in the order they were
framed: some of them whole, and of the next one at most a beginning. -/
def InFrameOrder (w : SendPlane) : Prop :=
  ∀ link, ∃ sent rest part, w.framedOn link = sent ++ rest ∧
    w.handedOn link = sent.flatten ++ part ∧ part <+: rest.headD []

/-- What a link was given, and then what is to be sent, is everything that was queued for
it; what the machine has not let go of yet is not. -/
def EachOnce (w : SendPlane) : Prop :=
  ∀ link, w.handedOn link ++ bytesOn link (w.inFlight ++ w.outq) ++ w.heldOn link =
    (w.framedOn link).flatten

theorem InOrder.eachOnce {w : SendPlane} (h : InOrder w) : EachOnce w := by
  intro link
  rw [bytesOn_append, ← List.append_assoc]
  exact h.conserved link

theorem InOrder.inFrameOrder {w : SendPlane} (h : InOrder w) : InFrameOrder w := by
  intro link
  refine prefix_flatten ⟨bytesOn link (w.inFlight ++ w.outq) ++ w.heldOn link, ?_⟩
  rw [← List.append_assoc]
  exact h.eachOnce link

/-- A session as it is before anything is sent. -/
structure Unsent (m : SessionMachine) : Prop where
  out : m.core.out = []
  outPath : m.core.outPath = []
  pending : m.core.pending = []

end SendPlane

end XrdClient.Session
