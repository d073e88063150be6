/-
  Proto/Receive.lean --- the inbound half: the decode loop and its fast path.

  Source: `proto/machine.py`, `receive_data`, `_whole_frame`, `_parse`, and the
  end of a link.

  One iteration of `_parse` is one or two turns of `decodeLoop`: reading a
  header and reading the body it announced are separate turns, since the loop
  may leave between them.  The loop also says what it took off the wire.  That
  log is not state of the program; it is what theorems about framing speak of.
-/
import XrdClient.Proto.Machine

set_option autoImplicit false

namespace XrdClient.Proto

open XrdClient.Lib

/-- What the decode loop takes off the wire. -/
inductive Decoded where
  | frame (header : Header) (body : Bytes)
  | trailer (sid : Nat) (data : Bytes)
  deriving DecidableEq

/-- The decode loop's state: the machine, one link's framer, and the exception
that ended the loop. -/
structure Cursor where
  machine : MachineState
  framer : Framer
  raised : Option Raised := none

namespace Cursor

/-- More bytes in the buffer. -/
def feed (c : Cursor) (data : Bytes) : Cursor :=
  { c with framer := { c.framer with buffer := c.framer.buffer ++ data } }

/-- The trailer is all there: hand it to the stream it belongs to. -/
def takeTrailer (c : Cursor) : List Decoded × Cursor :=
  let data := sliceTo c.framer.buffer c.framer.needTrailer
  let framer : Framer :=
    { c.framer with
      buffer := sliceDel c.framer.buffer c.framer.needTrailer, needTrailer := 0,
      trailerFor := none }
  match c.framer.trailerFor with
  | none => ([], { c with framer := framer, raised := some .assertion })
  | some sid => ([.trailer sid data], ⟨c.machine.onStatusData sid data, framer, none⟩)

/-- Eight bytes are there: read the header. -/
def readHeader (c : Cursor) : Cursor :=
  match headerFields c.framer.buffer with
  | .error e => { c with raised := some (.protocol e) }
  | .ok h =>
      { c with framer := { c.framer with
          buffer := c.framer.buffer.drop RESPONSE_HDRLEN, header := some h } }

/-- The body is all there: dispatch the frame. -/
def takeBody (c : Cursor) (h : Header) : List Decoded × Cursor :=
  let body := c.framer.buffer.take h.dlen
  let framer : Framer := { c.framer with buffer := c.framer.buffer.drop h.dlen, header := none }
  let (machine, framer, raised) := c.machine.dispatch h.sid h.status body framer
  ([.frame h body], ⟨machine, framer, raised⟩)

/-- One turn of `_parse`: a trailer, a header or a body, whichever is owed. -/
def turn (c : Cursor) : Option (List Decoded × Cursor) :=
  if c.raised.isSome then none
  else if c.framer.needTrailer ≠ 0 then
    if (c.framer.buffer.length : Int) < c.framer.needTrailer then none else some c.takeTrailer
  else
    match c.framer.header with
    | none =>
        if c.framer.buffer.length < RESPONSE_HDRLEN then none else some ([], c.readHeader)
    | some h => if c.framer.buffer.length < h.dlen then none else some (c.takeBody h)

/-- A bound on the turns left: four for a byte, two for a header, one for a
trailer that is owed. -/
def measure (c : Cursor) : Nat :=
  match c.raised with
  | some _ => 0
  | none => 1 + 4 * c.framer.buffer.length + (match c.framer.header with | none => 0 | some _ => 2) +
      (if c.framer.needTrailer = 0 then 0 else 1)

/-- Everything a turn can do. -/
theorem turn_cases {c c' : Cursor} {out : List Decoded} (h : c.turn = some (out, c')) :
    c.raised = none ∧
      ((c.framer.needTrailer ≠ 0 ∧ c.framer.needTrailer ≤ c.framer.buffer.length ∧
          (out, c') = c.takeTrailer) ∨
        (c.framer.needTrailer = 0 ∧ c.framer.header = none ∧
          RESPONSE_HDRLEN ≤ c.framer.buffer.length ∧ out = [] ∧ c' = c.readHeader) ∨
        (∃ hd, c.framer.needTrailer = 0 ∧ c.framer.header = some hd ∧
          hd.dlen ≤ c.framer.buffer.length ∧ (out, c') = c.takeBody hd)) := by
  unfold turn at h
  split at h
  · simp at h
  · rename_i hraised
    refine ⟨by simpa using hraised, ?_⟩
    split at h
    · rename_i htrailer
      split at h
      · simp at h
      · rename_i hlen
        exact .inl ⟨htrailer, by omega, (Option.some.inj h).symm⟩
    · rename_i htrailer
      have hzero : c.framer.needTrailer = 0 := by simpa using htrailer
      split at h
      · rename_i hheader
        split at h
        · simp at h
        · rename_i hlen
          simp only [Option.some.injEq, Prod.mk.injEq] at h
          exact .inr (.inl ⟨hzero, hheader, Nat.le_of_not_lt hlen, h.1.symm, h.2.symm⟩)
      · rename_i hd hheader
        split at h
        · simp at h
        · rename_i hlen
          exact .inr (.inr ⟨hd, hzero, hheader, Nat.le_of_not_lt hlen, (Option.some.inj h).symm⟩)

theorem turn_of_header {c : Cursor} (hr : c.raised = none) (hz : c.framer.needTrailer = 0)
    (hh : c.framer.header = none) (hlen : RESPONSE_HDRLEN ≤ c.framer.buffer.length) :
    c.turn = some ([], c.readHeader) := by
  simp [turn, hr, hz, hh, Nat.not_lt.mpr hlen]

theorem turn_of_body {c : Cursor} {hd : Header} (hr : c.raised = none)
    (hz : c.framer.needTrailer = 0) (hh : c.framer.header = some hd)
    (hlen : hd.dlen ≤ c.framer.buffer.length) : c.turn = some (c.takeBody hd) := by
  simp [turn, hr, hz, hh, Nat.not_lt.mpr hlen]

end Cursor

/-! ## What a reply can do to the framer -/

namespace MachineState

/-- The trailer a reply announces once it is routed to its stream: the length to
expect and the stream to hand it to.  Only a status block announces one, and
only on a stream that is pending or retired. -/
def announces (m : MachineState) (sid status : Nat) (body : Bytes) :
    Option (Int × Option Nat) :=
  if inBringup m.state = true ∨ status ≠ kXR_status then none
  else
    match parseStatus body with
    | .error _ => none
    | .ok info =>
        if m.pending.has sid then if info.dlen ≠ 0 then some (info.dlen, some sid) else none
        else if sid ∈ m.retired then
          some (info.dlen, if info.dlen ≠ 0 then some sid else none)
        else none

/-- Told to expect a trailer, or left alone. -/
def expecting (f : Framer) : Option (Int × Option Nat) → Framer
  | none => f
  | some (dlen, sid) => f.expect dlen sid

@[simp] theorem expecting_buffer (f : Framer) (t : Option (Int × Option Nat)) :
    (expecting f t).buffer = f.buffer := by
  cases t <;> rfl

@[simp] theorem expecting_header (f : Framer) (t : Option (Int × Option Nat)) :
    (expecting f t).header = f.header := by
  cases t <;> rfl

/-- Routing a reply changes the framer as announced, and nothing it does to the
machine depends on the framer. -/
theorem route_eq (m : MachineState) (sid status : Nat) (body : Bytes) (f : Framer) :
    m.route sid status body f =
      ((m.route sid status body {}).1, expecting f (m.announces sid status body),
        (m.route sid status body {}).2.2) := by
  unfold route announces
  by_cases hb : inBringup m.state = true
  · simp [hb, expecting]
  · simp only [hb, Bool.false_eq_true, if_false, false_or]
    cases hp : m.pending.get sid with
    | some p =>
      have hhas : m.pending.has sid = true := Assoc.has_eq_true.mpr ⟨p, hp⟩
      by_cases hs : status = kXR_status
      · subst hs
        simp only [respond, responseStatus, kXR_ok, kXR_oksofar, kXR_error, kXR_redirect,
          kXR_wait, kXR_waitresp, kXR_status]
        cases hparse : parseStatus body with
        | error e => simp [expecting]
        | ok info => by_cases hd : info.dlen = 0 <;> simp [hd, hhas, expecting]
      · simp only [hs, not_false_eq_true, if_true, ne_eq, respond, if_false, expecting]
        split_ifs <;> rfl
    | none =>
      have hhas : m.pending.has sid = false := Assoc.has_eq_false.mpr hp
      by_cases hr : sid ∈ m.retired
      · by_cases hs : status = kXR_status
        · subst hs
          cases hparse : parseStatus body with
          | error e => simp [retiredReply, hparse, hr, expecting]
          | ok info => simp [retiredReply, hparse, hr, hhas, expecting]
        · simp only [hr, if_true, retiredReply, hs, if_false, ne_eq, not_false_eq_true,
            expecting]
          split_ifs <;> rfl
      · by_cases hs : status = kXR_status
        · cases hparse : parseStatus body <;> simp [hs, hr, hhas, expecting]
        · simp [hr, hs, expecting]

/-- The stream, status and body a frame comes down to once a deferred answer is
unwrapped; nothing when it is a notice or malformed. -/
def effective (sid status : Nat) (body : Bytes) : Option (Nat × Nat × Bytes) :=
  if status = kXR_attn then
    match unwrapAttn body with
    | .inner sid status body => some (sid, status, body)
    | _ => none
  else some (sid, status, body)

/-- `announces` of a frame as it stands on the wire. -/
def owes (m : MachineState) (sid status : Nat) (body : Bytes) : Option (Int × Option Nat) :=
  match effective sid status body with
  | none => none
  | some (sid, status, body) => m.announces sid status body

theorem dispatch_eq (m : MachineState) (sid status : Nat) (body : Bytes) (f : Framer) :
    m.dispatch sid status body f =
      ((m.dispatch sid status body {}).1, expecting f (m.owes sid status body),
        (m.dispatch sid status body {}).2.2) := by
  unfold dispatch owes effective
  by_cases ha : status = kXR_attn
  · simp only [ha, if_true]
    cases unwrapAttn body with
    | bad e => rfl
    | notice info => rfl
    | inner sid' status' body' => exact route_eq m sid' status' body' f
  · simp only [ha, if_false]
    exact route_eq m sid status body f

@[simp] theorem dispatch_buffer (m : MachineState) (sid status : Nat) (body : Bytes)
    (f : Framer) : (m.dispatch sid status body f).2.1.buffer = f.buffer := by
  rw [dispatch_eq]
  simp

@[simp] theorem dispatch_header (m : MachineState) (sid status : Nat) (body : Bytes)
    (f : Framer) : (m.dispatch sid status body f).2.1.header = f.header := by
  rw [dispatch_eq]
  simp

end MachineState

/-! ## The loop -/

/-- Every turn uses something up. -/
theorem Cursor.turn_lt {c c' : Cursor} {out : List Decoded} (h : c.turn = some (out, c')) :
    c'.measure < c.measure := by
  obtain ⟨hraised, ⟨htrailer, hlen, hc⟩ | ⟨hzero, hheader, hlen, _, hc⟩ |
    ⟨hd, hzero, hheader, hlen, hc⟩⟩ := Cursor.turn_cases h
  · have hle := length_sliceDel_le c.framer.buffer c.framer.needTrailer
    unfold Cursor.takeTrailer at hc
    cases hfor : c.framer.trailerFor with
    | none =>
      simp only [hfor, Prod.mk.injEq] at hc
      simp only [hc.2, Cursor.measure, hraised]
      omega
    | some sid =>
      simp only [hfor, Prod.mk.injEq] at hc
      simp only [hc.2, Cursor.measure, hraised, htrailer, if_true, if_false]
      omega
  · rw [hc]
    simp only [RESPONSE_HDRLEN] at hlen
    unfold Cursor.readHeader
    split
    · simp only [Cursor.measure, hraised]
      omega
    · simp only [Cursor.measure, hraised, hheader, hzero, if_true, RESPONSE_HDRLEN,
        List.length_drop]
      omega
  · simp only [Cursor.takeBody, Prod.mk.injEq] at hc
    rw [hc.2]
    simp only [Cursor.measure, hraised, hheader, hzero, if_true,
      MachineState.dispatch_buffer, MachineState.dispatch_header, List.length_drop]
    split
    · omega
    · split_ifs <;> omega

/-- The `while True` of `_parse`. -/
def decodeLoop : Loop Cursor Decoded where
  turn := Cursor.turn
  measure := Cursor.measure
  turn_lt := Cursor.turn_lt

/-- `_parse`. -/
def parse (c : Cursor) : List Decoded × Cursor := decodeLoop.run c

theorem parse_of_none {c : Cursor} (h : c.turn = none) : parse c = ([], c) :=
  decodeLoop.run_of_none h

theorem parse_of_some {c c' : Cursor} {out : List Decoded} (h : c.turn = some (out, c')) :
    parse c = (out ++ (parse c').1, (parse c').2) :=
  decodeLoop.run_of_some h

/-- `_whole_frame`: `none` when it declines. -/
def wholeFrame (m : MachineState) (f : Framer) (data : Bytes) :
    Option (List Decoded × Cursor) :=
  if f.buffer ≠ [] ∨ f.header.isSome ∨ f.needTrailer ≠ 0 ∨ data.length < 8 then none
  else
    match headerFields data with
    | .error e => some ([], ⟨m, f, some (.protocol e)⟩)
    | .ok h =>
        if data.length ≠ RESPONSE_HDRLEN + h.dlen then none
        else
          let body := data.drop RESPONSE_HDRLEN
          let (m, f, raised) := m.dispatch h.sid h.status body f
          some ([.frame h body], ⟨m, f, raised⟩)

/-- The fast path refuses a header, or does what two turns of the loop do. -/
theorem wholeFrame_cases {m : MachineState} {f : Framer} {data : Bytes}
    {result : List Decoded × Cursor} (hw : wholeFrame m f data = some result) :
    f.buffer = [] ∧ f.header = none ∧ f.needTrailer = 0 ∧ RESPONSE_HDRLEN ≤ data.length ∧
      ((∃ e, headerFields data = .error e ∧ result = ([], ⟨m, f, some (.protocol e)⟩)) ∨
        ∃ hd c, headerFields data = .ok hd ∧ data.length = RESPONSE_HDRLEN + hd.dlen ∧
          Cursor.turn (Cursor.feed ⟨m, f, none⟩ data) = some ([], c) ∧ c.turn = some result ∧
          result.2.framer = MachineState.expecting f
            (m.owes hd.sid hd.status (data.drop RESPONSE_HDRLEN))) := by
  unfold wholeFrame at hw
  split at hw
  · cases hw
  · rename_i hclean
    simp only [not_or, ne_eq, not_not, Nat.not_lt, Option.not_isSome_iff_eq_none] at hclean
    obtain ⟨hbuffer, hheader, hzero, hlen⟩ := hclean
    refine ⟨hbuffer, hheader, hzero, hlen, ?_⟩
    obtain ⟨buffer, header, needTrailer, trailerFor⟩ := f
    simp only at hbuffer hheader hzero
    subst hbuffer hheader hzero
    split at hw
    · rename_i e hread
      exact .inl ⟨e, hread, (Option.some.inj hw).symm⟩
    · rename_i hd hread
      split at hw
      · cases hw
      · rename_i hexact
        simp only [Option.some.injEq] at hw
        have hdlen : (data.drop RESPONSE_HDRLEN).length = hd.dlen := by
          rw [List.length_drop]
          omega
        have hlong : ¬ data.length < RESPONSE_HDRLEN := Nat.not_lt.mpr hlen
        have hall : ¬ (data.drop RESPONSE_HDRLEN).length < hd.dlen := by omega
        have htake : (data.drop RESPONSE_HDRLEN).take hd.dlen = data.drop RESPONSE_HDRLEN := by
          rw [← hdlen, List.take_length]
        have hdrop : (data.drop RESPONSE_HDRLEN).drop hd.dlen = [] := by
          rw [← hdlen, List.drop_length]
        refine .inr ⟨hd, ⟨m, ⟨data.drop RESPONSE_HDRLEN, some hd, 0, trailerFor⟩, none⟩, hread,
          by simpa using hexact, ?_, ?_, ?_⟩
        · simp [Cursor.turn, Cursor.feed, hlong, Cursor.readHeader, hread]
        · rw [← hw]
          simp only [Cursor.turn, Cursor.takeBody, hall, htake, hdrop]
          rfl
        · simp only [← hw]
          rw [MachineState.dispatch_eq]

/-- Bytes off one link, through the fast path if it takes them. -/
def decode (m : MachineState) (f : Framer) (data : Bytes) : List Decoded × Cursor :=
  match wholeFrame m f data with
  | some result => result
  | none => parse (Cursor.feed ⟨m, f, none⟩ data)

/-- Unless it refuses the header, or is told to expect a negative trailer, the fast
path does what the loop would. -/
theorem decode_eq_parse_of {m : MachineState} {f : Framer} {data : Bytes}
    (h : f.buffer = [] → f.header = none → f.needTrailer = 0 →
      RESPONSE_HDRLEN ≤ data.length → ∃ hd, headerFields data = .ok hd ∧
        (data.length = RESPONSE_HDRLEN + hd.dlen →
          0 ≤ (MachineState.expecting f
            (m.owes hd.sid hd.status (data.drop RESPONSE_HDRLEN))).needTrailer)) :
    decode m f data = parse (Cursor.feed ⟨m, f, none⟩ data) := by
  unfold decode
  cases hw : wholeFrame m f data with
  | none => rfl
  | some result =>
    obtain ⟨hbuffer, hheader, hzero, hlen, hcases⟩ := wholeFrame_cases hw
    obtain ⟨hd', hread, hneed⟩ := h hbuffer hheader hzero hlen
    obtain ⟨e, herror, _⟩ | ⟨hd, c, hok, hexact, hturn, hturn', hframer⟩ := hcases
    · rw [hread] at herror
      cases herror
    · obtain rfl : hd' = hd := Except.ok.inj (hread.symm.trans hok)
      have hnonneg : 0 ≤ result.2.framer.needTrailer := hframer ▸ hneed hexact
      -- Nothing is buffered, so there is nothing more to do.
      have hstop : result.2.turn = none := by
        have hempty : result.2.framer.buffer = [] := by rw [hframer]; simpa using hbuffer
        have hnone : result.2.framer.header = none := by rw [hframer]; simpa using hheader
        unfold Cursor.turn
        simp only [hempty, hnone, List.length_nil, RESPONSE_HDRLEN]
        split_ifs <;> first | rfl | omega
      rw [parse_of_some hturn, parse_of_some hturn', parse_of_none hstop]
      simp

/-- The session machine: its state and one framer for each link. -/
structure SessionMachine where
  core : MachineState
  framers : Assoc Nat Framer := [(0, {})]

namespace SessionMachine

/-- The machine as it is made: one framer, for the control link. -/
def of (core : MachineState) : SessionMachine := { core := core }

/-- `_framers[pathid]`, created when it is not there. -/
def framer (m : SessionMachine) (pathid : Nat) : Framer := (m.framers.get pathid).getD {}

/-- `_on_eof`: fail every pending stream, then the session. -/
def onEof (m : SessionMachine) : SessionMachine :=
  if m.core.state = .closed ∨ m.core.state = .failed then m
  else
    { m with core := { m.core with
        state := .closed
        pending := []
        events := m.core.events ++
          m.core.pending.map (fun p => .failed (some p.1) (some p.2.request) .closedByPeer) ++
          [.disconnected .byPeer] } }

/-- `streams_on`: the streams still owed an answer that were routed over `pathid`. -/
def streamsOn (m : MachineState) (pathid : Nat) : List Nat :=
  (m.pending.filter fun p => p.2.pathid = pathid).map Prod.fst

/-- `forget_path`: drop a data path and every stream that was waiting on it. -/
def forgetPath (m : SessionMachine) (pathid : Nat) : SessionMachine :=
  let core := (streamsOn m.core pathid).foldl MachineState.release m.core
  ⟨{ core with outPath := core.outPath.del pathid }, m.framers.del pathid⟩

/-- `_on_path_eof`: fail the streams of a path, then report it lost. -/
def onPathEof (m : SessionMachine) (pathid : Nat) : SessionMachine :=
  let failures := (m.core.pending.filter fun p => p.2.pathid = pathid).map
    fun p => .failed (some p.1) (some p.2.request) (.pathClosed pathid)
  let m := { m with core := { m.core with events := m.core.events ++ failures } }
  let m := m.forgetPath pathid
  { m with core := m.core.emit (.pathLost pathid) }

/-- `receive_data`, with the log of what was decoded. -/
def receiveLog (m : SessionMachine) (pathid : Nat) (data : Bytes) :
    List Decoded × SessionMachine × Option Raised :=
  if data = [] then
    let m := { m with framers := m.framers.set pathid (m.framer pathid) }
    ([], if pathid = 0 then m.onEof else m.onPathEof pathid, none)
  else
    let (log, c) := decode m.core (m.framer pathid) data
    (log, ⟨c.machine, m.framers.set pathid c.framer⟩, c.raised)

/-- `receive_data`. -/
def receiveData (m : SessionMachine) (data : Bytes) (pathid : Nat := 0) :
    SessionMachine × Option Raised :=
  (m.receiveLog pathid data).2

end SessionMachine

end XrdClient.Proto
