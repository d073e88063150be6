/-
  Client/Checkpoint.lean --- a block of writes that is kept or undone as a whole.

  Source: `checkpoint` of `client/file.py`; `_submit`, `_writes_on_plane`, `write`, `write_pieces`,
  `_event_write`, `writev`, `clone`, `pgwrite` and `truncate` of `client/_writing.py`.

  A server undoes what it was handed as a part of the checkpoint, and nothing else.  So what it
  goes back to is the file with every other change in it (`kept`), and a write that took one of
  its other ways to the wire would stay.  What goes out on these ways is of no account here: the
  bulk plane, a data path, and what a `writev` and a `clone` send, are any program at all.

  What a server makes of a request is whatever it likes, and so is its answer; but one that is
longer than the `reply_cap` of its request is refused, and a part of a checkpoint has none.
-/
import XrdClient.Client.OpenFile
import XrdClient.Crypto.Pages
import XrdClient.Proto.Checkpointed

set_option autoImplicit false

namespace XrdClient.Client.Checkpoint

open XrdClient.Lib
open XrdClient.Proto
open XrdClient.Proto.Encoders
open XrdClient.Crypto

/-! ## The world -/

/-- A request that went out, on its own or as a part of the checkpoint. -/
structure Sent where
  wrapped : Bool
  request : Instance

/-- What becomes of a request: what the server makes of the file, and what it answers; of a
paged write, the pages that it found corrupt. -/
structure Turn where
  change : Bytes → Bytes
  answer : Except FileError (List Int)
  /-- How many bytes it answers a request with. -/
  size : Instance → Nat := fun _ => 0

/-- An open file, and the server. -/
structure World where
  handle : Bytes
  /-- `config.bulk` -/
  bulk : Bool
  /-- `_flags & OpenFlags.APPEND` -/
  append : Bool
  chunkSize : Int
  checkpoint : Bool
  /-- The file on the server. -/
  server : Bytes
  /-- The file as a rollback leaves it. -/
  kept : Bytes
  sent : List Sent

abbrev Op (α : Type) : Type := Act World FileError α

/-! ## The code -/

section

variable (crc32c : Bytes → UInt32) (turn : Nat → Turn)

/-- The frame of a request, or of the `kXR_ckpXeq` it is wrapped in. -/
def framed (handle : Bytes) (wrapped : Bool) (request : Instance) : Option Bytes :=
  if wrapped then (execute (.bytes handle) request).bind fun outer => encode outer.hooks 0
  else encode request.hooks 0

theorem framed_wrapped (handle : Bytes) (request : Instance) :
    framed handle true request = (execute (.bytes handle) request).bind fun outer => encode outer.hooks 0 := by
  rw [framed, if_pos rfl]

theorem framed_plain (handle : Bytes) (request : Instance) : framed handle false request = encode request.hooks 0 := by
  rw [framed, if_neg Bool.false_ne_true]

/-- `reply_cap`, of a request that changes the file: none but for a paged write. -/
def replyCap (request : Instance) : Nat :=
  match request.fields with
  | .pgWrite _ _ data _ _ => PgWrite.replyCap data
  | _ => 0

/-- `_within_cap`, of an answer to a request of this cap. -/
def Turn.within (t : Turn) (cap : Nat) (request : Instance) : Except FileError (List Int) :=
  match t.answer with
  | .error e => .error e
  | .ok corrupt => if cap ≠ 0 ∧ cap < t.size request then .error .protocol else .ok corrupt

/-- `_router.execute`, of a request that changes the file.  `ChkPoint` has no cap of its own. -/
def send (wrapped : Bool) (request : Instance) : Op (List Int) := fun w =>
  match framed w.handle wrapped request with
  | none => (.error .value, w)
  | some _ =>
    let t := turn w.sent.length
    (t.within (if wrapped then 0 else replyCap request) request,
      { w with
        server := t.change w.server
        kept := if wrapped then w.kept else t.change w.kept
        sent := w.sent ++ [⟨wrapped, request⟩] })

/-- `_router.execute`, of a request that changes nothing. -/
def ask (request : Instance) : Op Unit := fun w =>
  match framed w.handle false request with
  | none => (.error .value, w)
  | some _ => ((turn w.sent.length).answer.map fun _ => (), { w with sent := w.sent ++ [⟨false, request⟩] })

/-- `_submit` -/
def submit (request : Instance) : Op (List Int) := do
  let w ← Act.get
  send turn w.checkpoint request

def writeRequest (handle : Bytes) (offset : Int) (piece : Bytes) : Instance :=
  ⟨.write, .write (.bytes handle) offset (.view true [piece.length] true piece) 0⟩

def pgwriteRequest (handle : Bytes) (offset : Int) (pages : Bytes) (retry : Bool) : Instance :=
  ⟨.pgWrite, .pgWrite (.bytes handle) offset pages (if retry then 1 else 0) 0⟩

def truncateRequest (handle : Bytes) (size : Int) : Instance := ⟨.truncate, .truncate [] size (.bytes handle)⟩

/-- What a call meets on the ways that are not looked into here. -/
structure Weather where
  /-- `_paths_idle()` -/
  idle : Bool := true
  /-- `_plane_write` -/
  plane : Op (Option Nat) := pure none
  /-- `write_pieces`, where it may use the plane. -/
  streamed : Op Nat := pure 0
  /-- `_bulk`, of a chunk that a data path takes. -/
  path : Nat → Option (Op Unit) := fun _ => none
  /-- What the caller's callbacks raise behind a piece. -/
  hooks : Nat → Option FileError := fun _ => none
  /-- What a `clone` is refused for before anything else. -/
  refusal : Option FileError := none
  /-- What a `writev` or a `clone` sends. -/
  plain : Op Nat := pure 0

/-- A chunk of `_event_write`. -/
def writeChunk (weather : Weather) (i : Nat) (request : Instance) : Op Unit := do
  let w ← Act.get
  if w.checkpoint then do
    let _ ← submit turn request
    pure ()
  else
    match weather.path i with
    | none => do
      let _ ← send turn false request
      pure ()
    | some taken => taken

/-- The loop of `_event_write`. -/
def writeLoop (weather : Weather) (limit : Int) (view : Bytes) (offset : Nat) : Nat → Nat → Nat → Op Nat
  | 0, _, _ => Act.throw .never
  | fuel + 1, i, written =>
    if view.length ≤ written then pure written
    else do
      let piece := (sliceTo view (written + limit)).drop written
      let w ← Act.get
      writeChunk turn weather i (writeRequest w.handle (offset + written) piece)
      writeLoop weather limit view offset fuel (i + 1) (written + piece.length)

/-- `_event_write` -/
def eventWrite (weather : Weather) (view : Bytes) (offset : Nat) : Op Nat := do
  let w ← Act.get
  writeLoop turn weather w.chunkSize view offset (view.length + 1) 0 0

/-- `_writes_on_plane` -/
def writesOnPlane (w : World) (idle : Bool) : Bool := w.bulk && !w.checkpoint && !w.append && idle

/-- `write` -/
def write (weather : Weather) (view : Bytes) (offset : Nat) : Op Nat := do
  let w ← Act.get
  if view ≠ [] ∧ writesOnPlane w weather.idle = true then do
    match ← weather.plane with
    | some written => pure written
    | none => eventWrite turn weather view offset
  else eventWrite turn weather view offset

/-- `_stream_serially` -/
def streamSerially (weather : Weather) (offset : Nat) : List Bytes → Nat → Nat → Op Nat
  | [], _, done => pure done
  | piece :: rest, i, done => do
    let count ← write turn weather piece (offset + done)
    match weather.hooks i with
    | some e => Act.throw e
    | none => streamSerially weather offset rest (i + 1) (done + count)

/-- `write_pieces` -/
def writePieces (weather : Weather) (pieces : List Bytes) (offset : Nat) : Op Nat := do
  let w ← Act.get
  if writesOnPlane w weather.idle = true then weather.streamed
  else streamSerially turn weather offset pieces 0 0

/-- `_pgwrite_once` -/
def pgwriteOnce (data : Bytes) (offset : Nat) (retry : Bool) : Op (List Int) := do
  let w ← Act.get
  submit turn (pgwriteRequest w.handle offset (packPages crc32c data offset) retry)

/-- The loop of `_pgwrite_retry`. -/
def resend (page : Bytes) (pageOffset : Nat) : Nat → Op Unit
  | 0 => Act.throw (.pageIntegrity pageOffset)
  | left + 1 => do
    let corrupt ← pgwriteOnce crc32c turn page pageOffset true
    if corrupt = [] then pure () else resend page pageOffset left

/-- `_pgwrite_retry`, of one page after another. -/
def retryPages (data : Bytes) (base : Nat) : List Int → Op Unit
  | [] => pure ()
  | pageOffset :: rest => do
    let start := pageOffset - base
    if 0 ≤ start ∧ start < data.length then do
      resend crc32c turn (slice data start.toNat (pageSpan pageOffset.toNat (data.length - start.toNat)))
        pageOffset.toNat 3
      retryPages data base rest
    else Act.throw .protocol

/-- `pgwrite` -/
def pgwrite (data : Bytes) (offset : Nat) : Op Nat :=
  if data = [] then pure 0
  else do
    let corrupt ← pgwriteOnce crc32c turn data offset false
    retryPages crc32c turn data offset corrupt
    pure data.length

/-- `truncate` -/
def truncate (size : Int) : Op Unit := do
  let w ← Act.get
  let _ ← submit turn (truncateRequest w.handle size)
  pure ()

/-- `writev` -/
def writev (weather : Weather) (items : List (Int × Bytes)) : Op Nat := do
  let w ← Act.get
  if items = [] then pure 0 else if w.checkpoint then Act.throw .unsupported else weather.plain

/-- `clone`, up to `_validate_clone`. -/
def clone (weather : Weather) : Op Nat := do
  let w ← Act.get
  match weather.refusal with
  | some e => Act.throw e
  | none => if w.checkpoint then Act.throw .unsupported else weather.plain

/-- What asks a server without changing the file. -/
inductive Asking where
  | stat
  | sync
  | read (offset length : Int)
  /-- `Checkpoint.query` -/
  | query
  deriving DecidableEq

def Asking.request (handle : Bytes) : Asking → Instance
  | .stat => ⟨.stat, .stat [] 0 (.bytes handle)⟩
  | .sync => ⟨.sync, .fhandle (.bytes handle)⟩
  | .read offset length => ⟨.read, .read (.bytes handle) offset length 0⟩
  | .query => ⟨.chkPoint, .chkPoint (.bytes handle) 2 [] []⟩

/-- A call in a block. -/
inductive Call where
  | write (view : Bytes) (offset : Nat)
  | writePieces (pieces : List Bytes) (offset : Nat)
  | pgwrite (data : Bytes) (offset : Nat)
  | truncate (size : Int)
  | writev (items : List (Int × Bytes))
  | clone
  | asking (asking : Asking)
  deriving DecidableEq

def call (weather : Weather) : Call → Op Unit
  | .write view offset => do
    let _ ← write turn weather view offset
    pure ()
  | .writePieces pieces offset => do
    let _ ← writePieces turn weather pieces offset
    pure ()
  | .pgwrite data offset => do
    let _ ← pgwrite crc32c turn data offset
    pure ()
  | .truncate size => truncate turn size
  | .writev items => do
    let _ ← writev weather items
    pure ()
  | .clone => do
    let _ ← clone weather
    pure ()
  | .asking asking => do
    let w ← Act.get
    ask turn (asking.request w.handle)

/-- A call, what it meets, and whether the block catches what it raises. -/
structure Line where
  call : Call
  weather : Weather
  caught : Bool

/-- The body of a block: its calls, and what it raises itself behind them. -/
def body : List Line → Option FileError → Op Unit
  | [], none => pure ()
  | [], some e => Act.throw e
  | line :: lines, last => do
    if line.caught then Act.tryExcept (call crc32c turn line.weather line.call) fun _ => pure ()
    else call crc32c turn line.weather line.call
    body lines last

/-- A `kXR_chkpoint` that stands on its own. -/
def chkPoint (handle : Bytes) (subcode : Int) : Instance := ⟨.chkPoint, .chkPoint (.bytes handle) subcode [] []⟩

/-- `kXR_ckpBegin`, answered by a server that remembers the file. -/
def begin : Op Unit := fun w =>
  ((turn w.sent.length).answer.map fun _ => (),
    { w with
      kept := if (turn w.sent.length).answer.isOk then w.server else w.kept
      sent := w.sent ++ [⟨false, chkPoint w.handle 0⟩] })

/-- `kXR_ckpRollback`, answered by a server that goes back. -/
def rollback : Op Unit := fun w =>
  let t := turn w.sent.length
  (t.answer.map fun _ => (),
    { w with
      server := if t.answer.isOk then w.kept else t.change w.server
      sent := w.sent ++ [⟨false, chkPoint w.handle 3⟩] })

/-- `kXR_ckpCommit`, answered by a server that goes on. -/
def commit : Op Unit := fun w =>
  let t := turn w.sent.length
  (t.answer.map fun _ => (),
    { w with
      server := if t.answer.isOk then w.server else t.change w.server
      sent := w.sent ++ [⟨false, chkPoint w.handle 1⟩] })

/-- How a block ends whose body did. -/
def ended : Except FileError Unit × World → Except FileError Unit × World
  | (.error e, w) => (do
      rollback turn
      Act.throw e : Op Unit) { w with checkpoint := false }
  | (.ok (), w) => commit turn { w with checkpoint := false }

/-- `with file.checkpoint(): ...` -/
def block (x : Op Unit) : Op Unit := do
  let w ← Act.get
  if w.checkpoint then Act.throw .unsupported
  else do
    begin turn
    fun w => ended turn (x { w with checkpoint := true })

end

/-! ## Every change is a part of the checkpoint -/

section

variable {crc32c : Bytes → UInt32} {turn : Nat → Turn}

theorem writeRequest_journaled (handle : Bytes) (offset : Int) (piece : Bytes) :
    (writeRequest handle offset piece).Journaled where
  plain := ⟨trivial, fun _ _ _ _ h => by cases h; rfl⟩
  executable := show kXR_write ∈ EXECUTABLE by decide
  pathData := ⟨.bytes [], rfl, rfl⟩
  trailer _ h := (Option.some.inj h).symm

theorem pgwriteRequest_journaled (handle : Bytes) (offset : Int) (pages : Bytes) (retry : Bool) :
    (pgwriteRequest handle offset pages retry).Journaled where
  plain := ⟨trivial, fun _ _ _ _ h => by cases h⟩
  executable := show kXR_pgwrite ∈ EXECUTABLE by decide
  pathData := ⟨.bytes [], rfl, rfl⟩
  trailer _ h := (Option.some.inj h).symm

theorem truncateRequest_journaled (handle : Bytes) (size : Int) : (truncateRequest handle size).Journaled where
  plain := ⟨trivial, fun _ _ _ _ h => by cases h⟩
  executable := show kXR_truncate ∈ EXECUTABLE by decide
  pathData := ⟨.bytes [], rfl, rfl⟩
  trailer _ h := (Option.some.inj h).symm

/-- A request that goes out inside a block: a part of the checkpoint, or one that changes nothing. -/
def Part (handle : Bytes) (s : Sent) : Prop :=
  (framed handle s.wrapped s.request).isSome = true ∧
    (s.wrapped = true ∧ s.request.Journaled ∨ s.wrapped = false ∧ ∃ asking, s.request = Asking.request handle asking)

/-- A world inside a block that began in another. -/
structure Guarded (w₀ w : World) : Prop where
  checkpoint : w.checkpoint = true
  kept : w.kept = w₀.kept
  handle : w.handle = w₀.handle
  sent : ∃ more, w.sent = w₀.sent ++ more ∧ ∀ s ∈ more, Part w₀.handle s

theorem Guarded.refl {w : World} (h : w.checkpoint = true) : Guarded w w :=
  ⟨h, rfl, rfl, [], (List.append_nil _).symm, fun _ hs => by cases hs⟩

/-- Inside a block the program stays inside it, and loses nothing that is kept. -/
def Guards {α : Type} (x : Op α) : Prop := ∀ w₀ w, Guarded w₀ w → Guarded w₀ (x w).2

section

variable {α β : Type} {x : Op α} {f : α → Op β}

theorem Guards.pure (a : α) : Guards (pure a : Op α) := fun _ _ h => h

theorem Guards.throw (e : FileError) : Guards (Act.throw e : Op α) := fun _ _ h => h

theorem Guards.bind (hx : Guards x) (hf : ∀ a, Guards (f a)) : Guards (x >>= f) := by
  intro w₀ w h
  have hfirst := hx w₀ w h
  rw [Act.bind_apply]
  rcases hrun : x w with ⟨e | a, w'⟩ <;> rw [hrun] at hfirst
  · exact hfirst
  · exact hf a w₀ w' hfirst

/-- Inside a block the program that looks finds the checkpoint open. -/
theorem Guards.get_bind {g : World → Op β} (hg : ∀ w, w.checkpoint = true → Guards (g w)) : Guards (Act.get >>= g) :=
  fun w₀ w h => hg w h.checkpoint w₀ w h

theorem Guards.ite {c : Prop} [Decidable c] {y : Op α} (hx : c → Guards x) (hy : ¬ c → Guards y) :
    Guards (if c then x else y) := by
  split
  · next h => exact hx h
  · next h => exact hy h

theorem Guards.tryExcept {handler : FileError → Op α} (hx : Guards x) (hhandler : ∀ e, Guards (handler e)) :
    Guards (Act.tryExcept x handler) := by
  intro w₀ w h
  have hfirst := hx w₀ w h
  unfold Act.tryExcept
  rcases hrun : x w with ⟨e | a, w'⟩ <;> rw [hrun] at hfirst
  · exact hhandler e w₀ w' hfirst
  · exact hfirst

end

theorem guards_submit {request : Instance} (hrequest : request.Journaled) : Guards (submit turn request) := by
  intro w₀ w h
  rw [submit, Act.bind_of_ok (show Act.get w = (.ok w, w) from rfl), h.checkpoint]
  unfold send
  rcases hframed : framed w.handle true request with _ | frame
  · exact h
  · obtain ⟨more, hsent, hparts⟩ := h.sent
    refine ⟨h.checkpoint, h.kept, h.handle, more ++ [⟨true, request⟩], ?_, fun s hs => ?_⟩
    · rw [← List.append_assoc, ← hsent]
    · obtain hs | hs := List.mem_append.mp hs
      · exact hparts s hs
      · rw [List.mem_singleton.mp hs]
        refine ⟨?_, .inl ⟨rfl, hrequest⟩⟩
        rw [← h.handle]
        exact Option.isSome_of_eq_some hframed

theorem guards_ask (asking : Asking) :
    Guards (do
      let w ← Act.get
      ask turn (asking.request w.handle)) := by
  intro w₀ w h
  rw [Act.bind_of_ok (show Act.get w = (.ok w, w) from rfl)]
  unfold ask
  rcases hframed : framed w.handle false (asking.request w.handle) with _ | frame
  · exact h
  · obtain ⟨more, hsent, hparts⟩ := h.sent
    refine ⟨h.checkpoint, h.kept, h.handle, more ++ [⟨false, asking.request w.handle⟩], ?_, fun s hs => ?_⟩
    · rw [← List.append_assoc, ← hsent]
    · obtain hs | hs := List.mem_append.mp hs
      · exact hparts s hs
      · rw [List.mem_singleton.mp hs]
        refine ⟨?_, .inr ⟨rfl, asking, by rw [h.handle]⟩⟩
        rw [← h.handle]
        exact Option.isSome_of_eq_some hframed

theorem guards_writeChunk (weather : Weather) (i : Nat) {request : Instance} (hrequest : request.Journaled) :
    Guards (writeChunk turn weather i request) := by
  refine .get_bind fun w hopen => ?_
  rw [if_pos hopen]
  exact .bind (guards_submit hrequest) fun _ => .pure _

theorem guards_writeLoop (weather : Weather) (limit : Int) (view : Bytes) (offset fuel : Nat) :
    ∀ i written, Guards (writeLoop turn weather limit view offset fuel i written) := by
  induction fuel with
  | zero => exact fun _ _ => .throw _
  | succ fuel ih =>
    intro i written
    rw [writeLoop]
    refine .ite (fun _ => .pure _) fun _ => .get_bind fun w _ => ?_
    exact .bind (guards_writeChunk _ _ (writeRequest_journaled _ _ _)) fun _ => ih _ _

theorem guards_eventWrite (weather : Weather) (view : Bytes) (offset : Nat) :
    Guards (eventWrite turn weather view offset) :=
  .get_bind fun _ _ => guards_writeLoop _ _ _ _ _ _ _

/-- Inside a block no write goes over the plane. -/
theorem writesOnPlane_inside {w : World} (h : w.checkpoint = true) (idle : Bool) : writesOnPlane w idle = false := by
  rw [writesOnPlane, h]
  cases w.bulk <;> rfl

theorem guards_write (weather : Weather) (view : Bytes) (offset : Nat) : Guards (write turn weather view offset) := by
  refine .get_bind fun w hopen => .ite (fun hplane => ?_) fun _ => guards_eventWrite _ _ _
  rw [writesOnPlane_inside hopen] at hplane
  cases hplane.2

theorem guards_streamSerially (weather : Weather) (offset : Nat) (pieces : List Bytes) :
    ∀ i done, Guards (streamSerially turn weather offset pieces i done) := by
  induction pieces with
  | nil => exact fun _ _ => .pure _
  | cons piece rest ih =>
    intro i done
    refine .bind (guards_write _ _ _) fun count => ?_
    cases weather.hooks i with
    | some e => exact .throw e
    | none => exact ih _ _

theorem guards_pgwriteOnce (data : Bytes) (offset : Nat) (retry : Bool) :
    Guards (pgwriteOnce crc32c turn data offset retry) :=
  .get_bind fun _ _ => guards_submit (pgwriteRequest_journaled _ _ _ _)

theorem guards_resend (page : Bytes) (pageOffset left : Nat) : Guards (resend crc32c turn page pageOffset left) := by
  induction left with
  | zero => exact .throw _
  | succ left ih => exact .bind (guards_pgwriteOnce _ _ _) fun _ => .ite (fun _ => .pure _) fun _ => ih

theorem guards_retryPages (data : Bytes) (base : Nat) (corrupt : List Int) :
    Guards (retryPages crc32c turn data base corrupt) := by
  induction corrupt with
  | nil => exact .pure _
  | cons pageOffset rest ih =>
    exact .ite (fun _ => .bind (guards_resend _ _ _) fun _ => ih) fun _ => .throw _

theorem guards_call (weather : Weather) (c : Call) : Guards (call crc32c turn weather c) := by
  cases c with
  | write view offset => exact .bind (guards_write _ _ _) fun _ => .pure _
  | writePieces pieces offset =>
    refine .bind (.get_bind fun w hopen => ?_) fun _ => .pure _
    rw [writesOnPlane_inside hopen]
    exact guards_streamSerially _ _ _ _ _
  | pgwrite data offset =>
    exact .bind (.ite (fun _ => .pure _) fun _ =>
      .bind (guards_pgwriteOnce _ _ _) fun _ => .bind (guards_retryPages _ _ _) fun _ => .pure _) fun _ => .pure _
  | truncate size => exact .get_bind fun _ _ => .bind (guards_submit (truncateRequest_journaled _ _)) fun _ => .pure _
  | writev items =>
    refine .bind (.get_bind fun w hopen => .ite (fun _ => .pure _) fun _ => ?_) fun _ => .pure _
    rw [if_pos hopen]
    exact .throw _
  | clone =>
    refine .bind (.get_bind fun w hopen => ?_) fun _ => .pure _
    cases weather.refusal with
    | some e => exact .throw e
    | none =>
      simp only
      rw [if_pos hopen]
      exact .throw _
  | asking asking => exact guards_ask asking

theorem guards_body (lines : List Line) (last : Option FileError) : Guards (body crc32c turn lines last) := by
  induction lines with
  | nil =>
    cases last with
    | none => exact .pure _
    | some e => exact .throw e
  | cons line lines ih =>
    rw [body]
    refine .ite (fun _ => ?_) fun _ => ?_
    · exact .bind (.tryExcept (guards_call _ _) fun _ => .pure _) fun _ => ih
    · exact .bind (guards_call _ _) fun _ => ih

/-- The world where a block begins. -/
def begun (w : World) : World :=
  { w with checkpoint := true, kept := w.server, sent := w.sent ++ [⟨false, chkPoint w.handle 0⟩] }

theorem block_refused (x : Op Unit) {w : World} (hw : w.checkpoint = false) {e : FileError}
    (h : (turn w.sent.length).answer = .error e) :
    block turn x w = (.error e, { w with sent := w.sent ++ [⟨false, chkPoint w.handle 0⟩] }) := by
  have hbegin : begin turn w = (.error e, { w with sent := w.sent ++ [⟨false, chkPoint w.handle 0⟩] }) := by
    unfold begin
    rw [h]
    rfl
  rw [block, Act.bind_of_ok (show Act.get w = (.ok w, w) from rfl), if_neg (ne_true_of_eq_false hw)]
  exact Act.bind_of_error hbegin _

theorem block_begun (x : Op Unit) {w : World} (hw : w.checkpoint = false) {answer : List Int}
    (h : (turn w.sent.length).answer = .ok answer) : block turn x w = ended turn (x (begun w)) := by
  have hbegin : begin turn w
      = (.ok (), { w with kept := w.server, sent := w.sent ++ [⟨false, chkPoint w.handle 0⟩] }) := by
    unfold begin
    rw [h]
    rfl
  rw [block, Act.bind_of_ok (show Act.get w = (.ok w, w) from rfl), if_neg (ne_true_of_eq_false hw)]
  exact Act.bind_of_ok hbegin _

/-- Where the body raised, the server is asked to go back. -/
theorem ended_error (e : FileError) (w : World) :
    (ended turn (.error e, w)).2.checkpoint = false ∧
      (ended turn (.error e, w)).2.sent = w.sent ++ [⟨false, chkPoint w.handle 3⟩] ∧
      ∀ answer, (turn w.sent.length).answer = .ok answer →
        (ended turn (.error e, w)).1 = .error e ∧ (ended turn (.error e, w)).2.server = w.kept := by
  rcases h : (turn w.sent.length).answer with e' | answer'
  · have hrun : rollback turn { w with checkpoint := false } = (.error e',
        { w with
          checkpoint := false
          server := (turn w.sent.length).change w.server
          sent := w.sent ++ [⟨false, chkPoint w.handle 3⟩] }) := by
      simp only [rollback, h]
      rfl
    have hended : ended turn (.error e, w) = (.error e', _) := Act.bind_of_error hrun _
    rw [hended]
    exact ⟨rfl, rfl, fun _ hok => by cases hok⟩
  · have hrun : rollback turn { w with checkpoint := false } = (.ok (),
        { w with checkpoint := false, server := w.kept, sent := w.sent ++ [⟨false, chkPoint w.handle 3⟩] }) := by
      simp only [rollback, h]
      rfl
    have hended : ended turn (.error e, w) = (.error e, _) := Act.bind_of_ok hrun _
    rw [hended]
    exact ⟨rfl, rfl, fun _ _ => ⟨rfl, rfl⟩⟩

/-- Where the body returned, the server is asked to go on. -/
theorem ended_ok (w : World) :
    (ended turn (.ok (), w)).2.checkpoint = false ∧
      (ended turn (.ok (), w)).2.sent = w.sent ++ [⟨false, chkPoint w.handle 1⟩] ∧
      ∀ answer, (turn w.sent.length).answer = .ok answer →
        (ended turn (.ok (), w)).1 = .ok () ∧ (ended turn (.ok (), w)).2.server = w.server := by
  show (commit turn { w with checkpoint := false }).2.checkpoint = false ∧
      (commit turn { w with checkpoint := false }).2.sent = w.sent ++ [⟨false, chkPoint w.handle 1⟩] ∧
      ∀ answer, (turn w.sent.length).answer = .ok answer →
        (commit turn { w with checkpoint := false }).1 = .ok () ∧
          (commit turn { w with checkpoint := false }).2.server = w.server
  refine ⟨rfl, rfl, fun answer h => ?_⟩
  simp only [commit, h]
  exact ⟨rfl, rfl⟩

/-- A block of any calls is kept or undone as a whole.  Where the server does not begin one,
nothing has changed.  Where it does, every request of the body that changes the file is a part
of the checkpoint, whichever ways to the wire are open to it, and one request ends the block: a
rollback if the body raised, which leaves the file as it was at the beginning and raises what
the body raised, or a commit, which leaves it as the body did. -/
theorem block_atomic (crc32c : Bytes → UInt32) (turn : Nat → Turn) {w : World} (hw : w.checkpoint = false)
    (lines : List Line) (last : Option FileError) :
    let inside := body crc32c turn lines last (begun w)
    let out := block turn (body crc32c turn lines last) w
    match (turn w.sent.length).answer with
    | .error e => out.1 = .error e ∧ out.2.server = w.server ∧ out.2.checkpoint = false
    | .ok _ =>
      (∃ more, inside.2.sent = w.sent ++ [⟨false, chkPoint w.handle 0⟩] ++ more ∧ ∀ s ∈ more, Part w.handle s) ∧
      out.2.checkpoint = false ∧
      match inside.1 with
      | .error e => out.2.sent = inside.2.sent ++ [⟨false, chkPoint w.handle 3⟩] ∧
          ∀ answer, (turn inside.2.sent.length).answer = .ok answer → out.1 = .error e ∧ out.2.server = w.server
      | .ok _ => out.2.sent = inside.2.sent ++ [⟨false, chkPoint w.handle 1⟩] ∧
          ∀ answer, (turn inside.2.sent.length).answer = .ok answer → out.1 = .ok () ∧ out.2.server = inside.2.server := by
  intro inside out
  have hguarded : Guarded (begun w) inside.2 := guards_body lines last _ _ (.refl rfl)
  rcases hbegin : (turn w.sent.length).answer with e | answer
  · have hout : out = _ := block_refused _ hw hbegin
    rw [hout]
    exact ⟨rfl, rfl, hw⟩
  · have hout : out = ended turn inside := block_begun _ hw hbegin
    rw [hout]
    clear_value inside
    clear hout out
    have hkept : inside.2.kept = w.server := hguarded.kept
    have hhandle : inside.2.handle = w.handle := hguarded.handle
    have hsent := hguarded.sent
    rcases inside with ⟨e | u, after⟩
    · obtain ⟨hclosed, hlast, hback⟩ := @ended_error turn e after
      rw [hhandle] at hlast
      rw [hkept] at hback
      exact ⟨hsent, hclosed, hlast, hback⟩
    · obtain ⟨hclosed, hlast, hkeep⟩ := @ended_ok turn after
      rw [hhandle] at hlast
      exact ⟨hsent, hclosed, hlast, hkeep⟩

/-- A file whose server does as it is asked, and grows by a byte with each change. -/
def someFile : World :=
  { handle := [0, 0, 0, 1], bulk := true, append := false, chunkSize := 2, checkpoint := false, server := [9, 9]
    kept := [], sent := [] }

def obliging : Nat → Turn := fun _ => { change := fun file => file ++ [1], answer := .ok [] }

/-- A block whose `writev` is refused leaves the file as it was. -/
theorem block_atomic_writev :
    someFile.checkpoint = false ∧
      (block obliging (body (fun _ => 0) obliging [⟨.writev [(0, [5])], {}, false⟩] none) someFile).1
        = .error .unsupported ∧
      (block obliging (body (fun _ => 0) obliging [⟨.writev [(0, [5])], {}, false⟩] none) someFile).2.server
        = [9, 9] := by
  obtain ⟨-, -, -, h⟩ := block_atomic (fun _ => 0) obliging (w := someFile) rfl [⟨.writev [(0, [5])], {}, false⟩] none
  exact ⟨rfl, h [] rfl⟩

/-! ## The same changes as outside -/

/-- The world of someone who makes the same calls in no block, and with no plane. -/
def outside (w : World) : World :=
  { w with
    bulk := false
    checkpoint := false
    kept := w.server
    sent := w.sent.map fun s => ⟨false, s.request⟩ }

/-- The same, of a program's end. -/
def outsideOf {α : Type} (run : Except FileError α × World) : Except FileError α × World := (run.1, outside run.2)

/-- Weather in which no data path takes a chunk. -/
def Weather.calm (weather : Weather) : Weather := { weather with path := fun _ => none }

def Line.calm (line : Line) : Line := { line with weather := line.weather.calm }

/-- What a server can undo. -/
def Call.undoable : Call → Bool
  | .writev _ => false
  | .clone => false
  | _ => true

/-- A server that never answers with more than the cap of the request it is asked. -/
def Modest (turn : Nat → Turn) : Prop :=
  ∀ n request, replyCap request ≠ 0 → (turn n).size request ≤ replyCap request

/-- Two programs that a block does not tell apart. -/
def Alike {α : Type} (x y : Op α) : Prop :=
  ∀ w, w.checkpoint = true → w.handle.length = 4 →
    (x w).2.checkpoint = true ∧ (x w).2.handle.length = 4 ∧ y (outside w) = outsideOf (x w)

section

variable {α β : Type} {x y : Op α} {f g : α → Op β}

theorem Alike.pure (a : α) : Alike (pure a : Op α) (pure a) := fun _ hopen hhandle => ⟨hopen, hhandle, rfl⟩

theorem Alike.throw (e : FileError) : Alike (Act.throw e : Op α) (Act.throw e) :=
  fun _ hopen hhandle => ⟨hopen, hhandle, rfl⟩

theorem Alike.bind (hx : Alike x y) (hf : ∀ a, Alike (f a) (g a)) : Alike (x >>= f) (y >>= g) := by
  intro w hopen hhandle
  obtain ⟨hopen', hhandle', hrun⟩ := hx w hopen hhandle
  rw [Act.bind_apply, Act.bind_apply, hrun]
  rcases hinside : x w with ⟨e | a, w'⟩ <;> rw [hinside] at hopen' hhandle'
  · exact ⟨hopen', hhandle', rfl⟩
  · exact hf a w' hopen' hhandle'

/-- Programs that look at the file see the same of it, apart from the block and the plane. -/
theorem Alike.get_bind {k l : World → Op β} (h : ∀ w, w.checkpoint = true → Alike (k w) (l (outside w))) :
    Alike (Act.get >>= k) (Act.get >>= l) :=
  fun w hopen hhandle => h w hopen w hopen hhandle

theorem Alike.ite {c : Prop} [Decidable c] {x' y' : Op α} (hx : Alike x y) (hy : Alike x' y') :
    Alike (if c then x else x') (if c then y else y') := by
  split
  · exact hx
  · exact hy

theorem Alike.tryExcept {h h' : FileError → Op α} (hx : Alike x y) (hhandler : ∀ e, Alike (h e) (h' e)) :
    Alike (Act.tryExcept x h) (Act.tryExcept y h') := by
  intro w hopen hhandle
  obtain ⟨hopen', hhandle', hrun⟩ := hx w hopen hhandle
  unfold Act.tryExcept
  rw [hrun]
  rcases hinside : x w with ⟨e | a, w'⟩ <;> rw [hinside] at hopen' hhandle'
  · exact hhandler e w' hopen' hhandle'
  · exact ⟨hopen', hhandle', rfl⟩

end

/-- A request is framed inside a block where it is outside. -/
theorem framed_isSome {handle : Bytes} (hhandle : handle.length = 4) {request : Instance} (h : request.Journaled) :
    (framed handle true request).isSome = (framed handle false request).isSome := by
  rw [framed_wrapped, framed_plain]
  exact (execute_reads_same h hhandle 0).1

/-- The cap of a request on its own leaves every answer of a modest server as it is. -/
theorem within_modest (hmodest : Modest turn) (n : Nat) (request : Instance) :
    (turn n).within (replyCap request) request = (turn n).within 0 request := by
  unfold Turn.within
  cases (turn n).answer with
  | error e => rfl
  | ok corrupt =>
    dsimp only
    rw [if_neg fun h => absurd h.2 (Nat.not_lt.mpr (hmodest n request h.1)), if_neg fun h => h.1 rfl]

theorem alike_send (hmodest : Modest turn) {request : Instance} (hrequest : request.Journaled) :
    Alike (send turn true request) (send turn false request) := by
  intro w hopen hhandle
  have hsome := framed_isSome hhandle hrequest
  have hlen : (outside w).sent.length = w.sent.length := List.length_map _
  unfold send
  rw [show (outside w).handle = w.handle from rfl, hlen]
  rcases hwire : framed w.handle true request with _ | wire <;>
    rcases hframe : framed w.handle false request with _ | frame <;> rw [hwire, hframe] at hsome
  · exact ⟨hopen, hhandle, rfl⟩
  · cases hsome
  · cases hsome
  · refine ⟨hopen, hhandle, ?_⟩
    simp only [outsideOf, outside, List.map_append, List.map_cons, List.map_nil, Bool.false_eq_true, if_false,
      if_true, within_modest hmodest]

theorem alike_submit (hmodest : Modest turn) {request : Instance} (hrequest : request.Journaled) :
    Alike (submit turn request) (submit turn request) := by
  refine .get_bind fun w hopen => ?_
  rw [hopen]
  exact alike_send hmodest hrequest

theorem alike_ask (asking : Asking) :
    Alike (do
      let w ← Act.get
      ask turn (asking.request w.handle)) (do
      let w ← Act.get
      ask turn (asking.request w.handle)) := by
  refine .get_bind fun w _ => ?_
  rw [show (outside w).handle = w.handle from rfl]
  generalize asking.request w.handle = request
  intro w hopen hhandle
  have hlen : (outside w).sent.length = w.sent.length := List.length_map _
  unfold ask
  rw [show (outside w).handle = w.handle from rfl, hlen]
  rcases framed w.handle false request with _ | frame
  · exact ⟨hopen, hhandle, rfl⟩
  · refine ⟨hopen, hhandle, ?_⟩
    simp only [outsideOf, outside, List.map_append, List.map_cons, List.map_nil]

theorem alike_writeChunk (hmodest : Modest turn) (weather : Weather) (i : Nat) {request : Instance} (hrequest : request.Journaled) :
    Alike (writeChunk turn weather i request) (writeChunk turn weather.calm i request) := by
  refine .get_bind fun w hopen => ?_
  rw [if_pos hopen, show (outside w).checkpoint = false from rfl, if_neg Bool.false_ne_true]
  refine .bind (fun w hopen hhandle => ?_) fun _ => .pure _
  rw [submit, Act.bind_of_ok (show Act.get w = (.ok w, w) from rfl), hopen]
  exact alike_send hmodest hrequest w hopen hhandle

theorem alike_writeLoop (hmodest : Modest turn) (weather : Weather) (limit : Int) (view : Bytes) (offset fuel : Nat) :
    ∀ i written, Alike (writeLoop turn weather limit view offset fuel i written)
      (writeLoop turn weather.calm limit view offset fuel i written) := by
  induction fuel with
  | zero => exact fun _ _ => .throw _
  | succ fuel ih =>
    intro i written
    rw [writeLoop, writeLoop]
    refine .ite (.pure _) (.get_bind fun w _ => ?_)
    exact .bind (alike_writeChunk hmodest _ _ (writeRequest_journaled _ _ _)) fun _ => ih _ _

theorem alike_eventWrite (hmodest : Modest turn) (weather : Weather) (view : Bytes) (offset : Nat) :
    Alike (eventWrite turn weather view offset) (eventWrite turn weather.calm view offset) :=
  .get_bind fun _ _ => alike_writeLoop hmodest _ _ _ _ _ _ _

/-- Without a plane no write goes over one. -/
theorem writesOnPlane_outside (w : World) (idle : Bool) : writesOnPlane (outside w) idle = false := rfl

theorem alike_write (hmodest : Modest turn) (weather : Weather) (view : Bytes) (offset : Nat) :
    Alike (write turn weather view offset) (write turn weather.calm view offset) := by
  refine .get_bind fun w hopen => ?_
  rw [writesOnPlane_inside hopen, writesOnPlane_outside, if_neg fun h => Bool.false_ne_true h.2,
    if_neg fun h => Bool.false_ne_true h.2]
  exact alike_eventWrite hmodest _ _ _

theorem alike_streamSerially (hmodest : Modest turn) (weather : Weather) (offset : Nat) (pieces : List Bytes) :
    ∀ i done, Alike (streamSerially turn weather offset pieces i done)
      (streamSerially turn weather.calm offset pieces i done) := by
  induction pieces with
  | nil => exact fun _ _ => .pure _
  | cons piece rest ih =>
    intro i done
    refine .bind (alike_write hmodest _ _ _) fun count => ?_
    rw [show weather.calm.hooks i = weather.hooks i from rfl]
    cases weather.hooks i with
    | some e => exact .throw e
    | none => exact ih _ _

theorem alike_pgwriteOnce (hmodest : Modest turn) (data : Bytes) (offset : Nat) (retry : Bool) :
    Alike (pgwriteOnce crc32c turn data offset retry) (pgwriteOnce crc32c turn data offset retry) :=
  .get_bind fun _ _ => alike_submit hmodest (pgwriteRequest_journaled _ _ _ _)

theorem alike_resend (hmodest : Modest turn) (page : Bytes) (pageOffset left : Nat) :
    Alike (resend crc32c turn page pageOffset left) (resend crc32c turn page pageOffset left) := by
  induction left with
  | zero => exact .throw _
  | succ left ih => exact .bind (alike_pgwriteOnce hmodest _ _ _) fun _ => .ite (.pure _) ih

theorem alike_retryPages (hmodest : Modest turn) (data : Bytes) (base : Nat) (corrupt : List Int) :
    Alike (retryPages crc32c turn data base corrupt) (retryPages crc32c turn data base corrupt) := by
  induction corrupt with
  | nil => exact .pure _
  | cons pageOffset rest ih => exact .ite (.bind (alike_resend hmodest _ _ _) fun _ => ih) (.throw _)

theorem alike_call (hmodest : Modest turn) (weather : Weather) {c : Call} (hc : c.undoable = true) :
    Alike (call crc32c turn weather c) (call crc32c turn weather.calm c) := by
  cases c with
  | write view offset => exact .bind (alike_write hmodest _ _ _) fun _ => .pure _
  | writePieces pieces offset =>
    refine .bind (.get_bind fun w hopen => ?_) fun _ => .pure _
    rw [writesOnPlane_inside hopen, writesOnPlane_outside]
    exact alike_streamSerially hmodest _ _ _ _ _
  | pgwrite data offset =>
    exact .bind (.ite (.pure _)
      (.bind (alike_pgwriteOnce hmodest _ _ _) fun _ => .bind (alike_retryPages hmodest _ _ _) fun _ => .pure _)) fun _ => .pure _
  | truncate size => exact .get_bind fun _ _ => .bind (alike_submit hmodest (truncateRequest_journaled _ _)) fun _ => .pure _
  | writev items => cases hc
  | clone => cases hc
  | asking asking => exact alike_ask asking

theorem alike_body (hmodest : Modest turn) {lines : List Line} (hlines : ∀ line ∈ lines, line.call.undoable = true) (last : Option FileError) :
    Alike (body crc32c turn lines last) (body crc32c turn (lines.map Line.calm) last) := by
  induction lines with
  | nil =>
    cases last with
    | none => exact .pure _
    | some e => exact .throw e
  | cons line lines ih =>
    have hline := hlines line (List.mem_cons_self ..)
    have hrest := ih fun l hl => hlines l (List.mem_cons_of_mem _ hl)
    rw [List.map_cons, body, body]
    show Alike (if line.caught then _ else _) (if line.caught then _ else _)
    exact .ite (.bind (.tryExcept (alike_call hmodest _ hline) fun _ => .pure _) fun _ => hrest)
      (.bind (alike_call hmodest _ hline) fun _ => hrest)

/-- A part of a checkpoint is read as the request on its own. -/
theorem part_reads_same {handle : Bytes} (hhandle : handle.length = 4) {s : Sent} (h : Part handle s)
    (hwrapped : s.wrapped = true) (streamid : Nat) :
    ∃ frame outer wire request, encode s.request.hooks streamid = some frame ∧
      execute (.bytes handle) s.request = some outer ∧ encode outer.hooks streamid = some wire ∧
      ∀ rest, Encoders.readRequest (frame ++ rest) = some (request, rest) ∧
        readExecuted (wire ++ rest) = some (handle, request, rest) := by
  obtain ⟨hframed, ⟨-, hrequest⟩ | ⟨hplain, -⟩⟩ := h
  · rw [hwrapped, framed_isSome hhandle hrequest, framed_plain, encode_isSome _ 0 streamid] at hframed
    obtain ⟨frame, hframe⟩ := Option.isSome_iff_exists.mp hframed
    obtain ⟨outer, wire, request, houter, hwire, hread⟩ := (execute_reads_same hrequest hhandle streamid).2 frame hframe
    exact ⟨frame, outer, wire, request, hframe, houter, hwire, hread⟩
  · rw [hplain] at hwrapped
    cases hwrapped

/-- What a block does to the file is what its calls do outside one, of a server that keeps to the
caps of the requests.  The same calls, made in no block and with no other way to the wire, come
to the same end with the same requests, and of each that a block wraps the server reads what it
would have read of the request on its own. -/
theorem block_same_as_outside (crc32c : Bytes → UInt32) (turn : Nat → Turn) {w : World}
    (hmodest : Modest turn) (hopen : w.checkpoint = true) (hhandle : w.handle.length = 4)
    {lines : List Line} (hlines : ∀ line ∈ lines, line.call.undoable = true) (last : Option FileError) :
    let inside := body crc32c turn lines last w
    body crc32c turn (lines.map Line.calm) last (outside w) = (inside.1, outside inside.2) ∧
      ∃ more, inside.2.sent = w.sent ++ more ∧ ∀ s ∈ more, s.wrapped = true → ∀ streamid,
        ∃ frame outer wire request, encode s.request.hooks streamid = some frame ∧
          execute (.bytes w.handle) s.request = some outer ∧ encode outer.hooks streamid = some wire ∧
          ∀ rest, Encoders.readRequest (frame ++ rest) = some (request, rest) ∧
            readExecuted (wire ++ rest) = some (w.handle, request, rest) := by
  refine ⟨(alike_body hmodest hlines last w hopen hhandle).2.2, ?_⟩
  obtain ⟨more, hsent, hparts⟩ := (@guards_body crc32c turn lines last w w (.refl hopen)).sent
  exact ⟨more, hsent, fun s hs hwrapped streamid => part_reads_same hhandle (hparts s hs) hwrapped streamid⟩

/-- A write in a block sends the requests that it sends outside. -/
theorem block_same_as_outside_write :
    (begun someFile).checkpoint = true ∧
      body (fun _ => 0) obliging [Line.calm ⟨.write [1, 2, 3] 7, {}, false⟩] none (outside (begun someFile))
        = outsideOf (body (fun _ => 0) obliging [⟨.write [1, 2, 3] 7, {}, false⟩] none (begun someFile)) := by
  have hlines : ∀ line ∈ ([⟨.write [1, 2, 3] 7, {}, false⟩] : List Line), line.call.undoable = true := by
    intro line hline
    rw [List.mem_singleton.mp hline]
    rfl
  have hmodest : Modest obliging := fun _ _ _ => Nat.zero_le _
  exact ⟨rfl, (block_same_as_outside (fun _ => 0) obliging (w := begun someFile) hmodest rfl rfl hlines none).1⟩

end

end XrdClient.Client.Checkpoint
