/-
  Proto/World.lean --- a session machine and the world it runs in.

  A `World` is a session machine with everything a run of it happens in: what
  the server has sent on each link and the machine has not decoded yet, the
  requests the server has still to finish answering, and the books of the run
  (which request an id was last given to, what was handed to whom).  The server
  labels each frame with the stream id of the request it answers and may send it
  on any link it likes; the machine does to its state exactly what
  `Proto/Machine.lean` says.

  `Rule` is what a driver and a server keep to.  `Sound` says that a step takes
  none of the branches that free an id too early.
-/
import XrdClient.Proto.Streams

set_option autoImplicit false

namespace XrdClient.Proto

open XrdClient.Lib
open MachineState (effective finalReply SameStreams)

/-! ## The units of an answer -/

namespace Decoded

/-- The stream a unit is for. -/
def stream : Decoded → Nat
  | .frame h body => streamOf h body
  | .trailer sid _ => sid

/-- The status of the reply a frame comes down to. -/
def replyStatus : Decoded → Option Nat
  | .frame h body => (effective h.sid h.status body).map fun e => e.2.1
  | .trailer _ _ => none

/-- A frame that ends the answer to its request. -/
def isFinal : Decoded → Bool
  | .frame h body =>
      match effective h.sid h.status body with
      | some (_, status, block) => finalReply status block
      | none => false
  | .trailer _ _ => false

/-- How many units of data belong to the unit: one, behind a status block that
declares some. -/
def carries : Decoded → Nat
  | .frame h body => if declares h body = 0 then 0 else 1
  | .trailer _ _ => 0

end Decoded

/-- A partial reply brings more than the request it finds asked for. -/
def overran (m : MachineState) : Decoded → Bool
  | .frame h body =>
      match effective h.sid h.status body with
      | some (sid, status, block) => m.overruns sid status block
      | none => false
  | .trailer sid data => m.dataOverruns sid data

/-- A final frame is the last of its stream on its link, but for its own data. -/
def Ordered : List Decoded → Prop
  | [] => True
  | u :: us =>
      (u.isFinal = true → (∀ v ∈ us, v.stream = u.stream → v.isFinal = false) ∧
        us.countP (fun v => v.stream = u.stream) ≤ u.carries) ∧ Ordered us

theorem Ordered.of_suffix {us vs : List Decoded} (h : Ordered us) (hs : vs <:+ us) :
    Ordered vs := by
  induction us with
  | nil =>
    obtain rfl := List.suffix_nil.mp hs
    trivial
  | cons u us ih =>
    obtain rfl | hs' := List.suffix_cons_iff.mp hs
    · exact h
    · exact ih h.2 hs'

theorem Ordered.append {us vs : List Decoded} (hu : Ordered us) (hv : Ordered vs)
    (hnew : ∀ u ∈ us, u.isFinal = true → ∀ v ∈ vs, v.stream ≠ u.stream) : Ordered (us ++ vs) := by
  induction us with
  | nil => exact hv
  | cons u us ih =>
    rw [List.cons_append]
    refine ⟨fun hf => ?_, ih hu.2 fun w hw => hnew w (List.mem_cons_of_mem _ hw)⟩
    obtain ⟨hnone, hcount⟩ := hu.1 hf
    have hapart := hnew u (by simp) hf
    constructor
    · intro v hv' hs
      obtain hold | hnew' := List.mem_append.mp hv'
      · exact hnone v hold hs
      · exact absurd hs (hapart v hnew')
    · have hzero : vs.countP (fun v => v.stream = u.stream) = 0 :=
        List.countP_eq_zero.mpr fun v hv' => by simpa using hapart v hv'
      rw [List.countP_append, hzero]
      exact hcount

/-- The units of one frame: all for its stream, the frame first. -/
theorem ordered_units (fr : Frame) : Ordered fr.units := by
  unfold Frame.units Frame.data
  split
  · exact ⟨fun _ => ⟨by simp, by simp⟩, trivial⟩
  · rename_i hne
    have hdec : declares fr.header fr.body ≠ 0 := by
      rw [fr.trailer_length]
      simpa using hne
    have hlast : Ordered [.trailer fr.sid fr.trailer] := ⟨nofun, trivial⟩
    refine ⟨fun _ => ⟨?_, ?_⟩, hlast⟩
    · intro v hv _
      obtain rfl := List.mem_singleton.mp hv
      rfl
    · have hone : (Decoded.frame fr.header fr.body).carries = 1 := by simp [Decoded.carries, hdec]
      rw [hone]
      exact List.countP_le_length

theorem stream_units {fr : Frame} {u : Decoded} (h : u ∈ fr.units) : u.stream = fr.sid := by
  unfold Frame.units Frame.data at h
  split at h
  · obtain rfl := List.mem_singleton.mp h
    rfl
  · obtain rfl | h' := List.mem_cons.mp h
    · rfl
    · obtain rfl := List.mem_singleton.mp h'
      rfl

/-- The only unit of a frame that can end an answer is the frame. -/
theorem isFinal_units {fr : Frame} {u : Decoded} (h : u ∈ fr.units) (hf : u.isFinal = true) :
    u = .frame fr.header fr.body := by
  unfold Frame.units Frame.data at h
  split at h
  · exact List.mem_singleton.mp h
  · obtain rfl | h' := List.mem_cons.mp h
    · rfl
    · obtain rfl := List.mem_singleton.mp h'
      cases hf

/-! ## What decoding a unit does to the table of ids -/

theorem carries_of_status {h : Header} {body block : Bytes} {sid : Nat} {info : StatusInfo}
    (he : effective h.sid h.status body = some (sid, kXR_status, block))
    (hparse : parseStatus block = .ok info) (hd : info.dlen = 0) :
    (Decoded.frame h body).carries = 0 := by
  have hlen : 16 ≤ block.length := (parseStatus_ok_iff block).mp ⟨info, hparse⟩
  have hdec : declares h body = 0 := by
    simp only [declares, he, true_and, hlen, if_true]
    rw [← parseStatus_dlen hparse, hd]
  simp [Decoded.carries, hdec]

theorem carries_of_ne {h : Header} {body block : Bytes} {sid status : Nat}
    (he : effective h.sid h.status body = some (sid, status, block)) (hs : status ≠ kXR_status) :
    (Decoded.frame h body).carries = 0 := by
  simp [Decoded.carries, declares, he, hs]

theorem isFinal_of_wait {u : Decoded} (h : u.replyStatus = some kXR_wait) :
    u.isFinal = true := by
  cases u with
  | trailer sid data => cases h
  | frame hd body =>
    simp only [Decoded.replyStatus, Option.map_eq_some_iff] at h
    obtain ⟨⟨sid, status, block⟩, he, rfl⟩ := h
    simp only [Decoded.isFinal, he]
    exact MachineState.finalReply_of_ne block (by decide) (by decide) (by decide)

theorem final_of_redirect {u : Decoded} (h : u.replyStatus = some kXR_redirect) :
    u.isFinal = true ∧ u.carries = 0 := by
  cases u with
  | trailer sid data => cases h
  | frame hd body =>
    simp only [Decoded.replyStatus, Option.map_eq_some_iff] at h
    obtain ⟨⟨sid, status, block⟩, he, rfl⟩ := h
    refine ⟨?_, carries_of_ne he (by decide)⟩
    simp only [Decoded.isFinal, he]
    exact MachineState.finalReply_of_ne block (by decide) (by decide) (by decide)

/-- Everything a unit can do. -/
inductive Outcome (m : MachineState) (u : Decoded) (m' : MachineState) : Prop where
  | kept (streams : SameStreams m m')
  /-- The record it finds goes: the unit overran, or ended the answer, or was the
  data of a block that did. -/
  | ended (p : Pending) (found : m.pending.get u.stream = some p)
      (streams : SameStreams (m.release u.stream) m')
      (cause : overran m u = true ∨
        (u.isFinal = true ∧ u.replyStatus ≠ some kXR_wait ∧ u.carries = 0) ∨
        (∃ info, p.status = some info ∧ info.isFinal = true ∧ u.replyStatus = none))
  /-- The record it finds takes it in. -/
  | noted (p p' : Pending) (found : m.pending.get u.stream = some p)
      (streams : SameStreams { m with pending := m.pending.set u.stream p' } m')
      (status : p'.status = p.status ∨ (∃ info, p'.status = some info ∧ info.isFinal = false) ∨
        (u.isFinal = true ∧ u.replyStatus = some kXR_status))
  /-- It was the last a retired stream was waiting for. -/
  | freed (retired : u.stream ∈ m.retired) (lost : m.pending.get u.stream = none)
      (streams : SameStreams (m.freed u.stream) m') (final : u.isFinal = true)

theorem deliver_of_effective {m : MachineState} {h : Header} {body block : Bytes}
    {sid status : Nat} (he : effective h.sid h.status body = some (sid, status, block)) :
    deliver m (.frame h body) =
      ((m.route sid status block {}).1, (m.route sid status block {}).2.2) := by
  unfold effective at he
  simp only [deliver, MachineState.dispatch]
  split at he
  · rename_i hattn
    rw [if_pos hattn]
    cases hun : MachineState.unwrapAttn body with
    | bad e => simp [hun] at he
    | notice info => simp [hun] at he
    | inner sid' status' block' =>
      simp only [hun, Option.some.injEq, Prod.mk.injEq] at he
      obtain ⟨rfl, rfl, rfl⟩ := he
      rfl
  · rename_i hattn
    rw [if_neg hattn]
    simp only [Option.some.injEq, Prod.mk.injEq] at he
    obtain ⟨rfl, rfl, rfl⟩ := he
    rfl

theorem deliver_of_notice {m : MachineState} {h : Header} {body : Bytes}
    (he : effective h.sid h.status body = none) :
    SameStreams m (deliver m (.frame h body)).1 := by
  unfold effective at he
  simp only [deliver, MachineState.dispatch]
  split at he
  · rename_i hattn
    rw [if_pos hattn]
    cases hun : MachineState.unwrapAttn body with
    | bad e => exact .refl m
    | notice info => exact MachineState.emit_streams m _
    | inner sid' status' block' => simp [hun] at he
  · cases he

theorem deliver_outcome (m : MachineState) (u : Decoded)
    (hready : MachineState.inBringup m.state = false) : Outcome m u (deliver m u).1 := by
  cases u with
  | trailer sid data =>
    simp only [deliver]
    cases hp : m.pending.get sid with
    | none =>
      refine .kept ?_
      simp only [MachineState.onStatusData, hp]
      exact .refl m
    | some p =>
      obtain ⟨_, hsame⟩ | ⟨info, hinfo, ⟨hstreams, hcause⟩ | ⟨hsofar, hstreams⟩⟩ :=
        MachineState.onStatusData_cases data hp
      · rw [hsame]
        exact .kept (.refl m)
      · refine .ended p hp hstreams ?_
        obtain hfin | hover := hcause
        · exact .inr (.inr ⟨info, hinfo, hfin, rfl⟩)
        · exact .inl hover
      · exact .noted p _ hp hstreams (.inl rfl)
  | frame h body =>
    cases he : effective h.sid h.status body with
    | none => exact .kept (deliver_of_notice he)
    | some e =>
      obtain ⟨sid, status, block⟩ := e
      have hstream : (Decoded.frame h body).stream = sid := by simp [Decoded.stream, streamOf, he]
      have hstatus : (Decoded.frame h body).replyStatus = some status := by
        simp [Decoded.replyStatus, he]
      have hfinal : (Decoded.frame h body).isFinal = finalReply status block := by
        simp [Decoded.isFinal, he]
      rw [deliver_of_effective he]
      simp only [MachineState.route, hready, Bool.false_eq_true, if_false]
      cases hp : m.pending.get sid with
      | some p =>
        simp only
        obtain hsame | hended | ⟨p', hnoted⟩ := MachineState.respond_cases status block {} hp
        · exact .kept hsame
        · refine .ended p (by rw [hstream]; exact hp) (by rw [hstream]; exact hended.streams) ?_
          obtain hover | ⟨hfin, hwait, hdata⟩ := hended.cause
          · exact .inl (by simpa [overran, he] using hover)
          · refine .inr (.inl ⟨by rw [hfinal, hfin], by simpa [hstatus] using hwait, ?_⟩)
            by_cases hs : status = kXR_status
            · obtain ⟨info, hparse, hd⟩ := hdata hs
              exact carries_of_status (hs ▸ he) hparse hd
            · exact carries_of_ne he hs
        · refine .noted p p' (by rw [hstream]; exact hp) (by rw [hstream]; exact hnoted.streams) ?_
          obtain hsame | ⟨info, hs, hparse, hinfo, _⟩ := hnoted.status
          · exact .inl hsame
          · by_cases hfin : info.isFinal = true
            · exact .inr (.inr ⟨by rw [hfinal, hs]; simp [finalReply, hparse, hfin],
                by rw [hstatus, hs]⟩)
            · exact .inr (.inl ⟨info, hinfo, by simpa using hfin⟩)
      | none =>
        simp only
        split
        · rename_i hr
          obtain hsame | ⟨hfreed, hfin⟩ := m.retiredReply_cases sid status block {}
          · exact .kept hsame
          · exact .freed (by rw [hstream]; exact hr) (by rw [hstream]; exact hp)
              (by rw [hstream]; exact hfreed) (by rw [hfinal, hfin])
        · exact .kept (.refl m)

/-! ## What decoding a unit reports -/

/-- The stream an event is about. -/
def Event.stream : Event → Option Nat
  | .completed sid _ _ _ | .chunk sid _ _ | .redirected sid _ _ | .waiting sid _ _ _ _ => some sid
  | .failed sid _ _ => sid
  | _ => none

/-- A reply that tells a waiter something: its stream is pending, and no data of its
own is still to come. -/
def answers (m : MachineState) : Decoded → Bool
  | .frame h body =>
      match effective h.sid h.status body with
      | some (sid, _, _) => m.pending.has sid && decide (declares h body = 0)
      | none => false
  | .trailer sid _ =>
      match m.pending.get sid with
      | some p => p.status.isSome
      | none => false

theorem pending_of_answers {m : MachineState} {u : Decoded} (h : answers m u = true) :
    m.pending.has u.stream = true := by
  cases u with
  | trailer sid data =>
    cases hp : m.pending.get sid with
    | none => simp [answers, hp] at h
    | some p => exact Assoc.has_eq_true.mpr ⟨p, hp⟩
  | frame hd body =>
    cases he : effective hd.sid hd.status body with
    | none => simp [answers, he] at h
    | some e =>
      simp only [answers, he, Bool.and_eq_true] at h
      simp only [Decoded.stream, streamOf, he]
      exact h.1

theorem release_events (m : MachineState) (sid : Nat) : (m.release sid).events = m.events := by
  unfold MachineState.release
  split <;> rfl

theorem retiredReply_events (m : MachineState) (sid status : Nat) (block : Bytes) (f : Framer) :
    (m.retiredReply sid status block f).1.events = m.events := by
  unfold MachineState.retiredReply
  dsimp only
  split
  · cases parseStatus block with
    | error e => rfl
    | ok info =>
      dsimp only
      split <;> rfl
  · split <;> rfl

theorem notice_events {m : MachineState} {h : Header} {body : Bytes}
    (he : effective h.sid h.status body = none) :
    ∃ es, (deliver m (.frame h body)).1.events = m.events ++ es ∧
      ∀ e ∈ es, ∃ info, e = .attention info := by
  unfold effective at he
  simp only [deliver, MachineState.dispatch]
  split at he
  · rename_i hattn
    rw [if_pos hattn]
    cases hun : MachineState.unwrapAttn body with
    | bad e => exact ⟨[], by simp, by simp⟩
    | notice info => exact ⟨[.attention info], rfl, by simp⟩
    | inner sid' status' block' => simp [hun] at he
  · cases he

/-- One event, about the stream. -/
def Tells (sid : Nat) (m m' : MachineState) : Prop :=
  ∃ e, m'.events = m.events ++ [e] ∧ e.stream = some sid

theorem tells_emit {sid : Nat} {m m' : MachineState} (h : m'.events = m.events) {e : Event}
    (he : e.stream = some sid) : Tells sid m (m'.emit e) :=
  ⟨e, by simp [MachineState.emit, h], he⟩

theorem onStatusData_tells {m : MachineState} {sid : Nat} {p : Pending} {info : StatusInfo}
    (hp : m.pending.get sid = some p) (hinfo : p.status = some info) (data : Bytes) :
    Tells sid m (m.onStatusData sid data) := by
  simp only [MachineState.onStatusData, hp, hinfo, MachineState.withinCap]
  split_ifs
  · exact tells_emit (release_events m sid) rfl
  · exact tells_emit rfl rfl
  · exact tells_emit (release_events m sid) rfl
  · exact tells_emit (release_events m sid) rfl

/-- A reply to a pending stream raises and reports nothing, or is a status block that
waits for its data, or tells the waiter something. -/
theorem respond_tells (m : MachineState) (sid status : Nat) (block : Bytes) (p : Pending) :
    ((m.respond sid status block p {}).2.2 ≠ none ∧
        (m.respond sid status block p {}).1.events = m.events) ∨
      ((m.respond sid status block p {}).2.2 = none ∧
        ((status = kXR_status ∧ (∃ info, parseStatus block = .ok info ∧ info.dlen ≠ 0) ∧
            (m.respond sid status block p {}).1.events = m.events) ∨
          ((status = kXR_status → ∃ info, parseStatus block = .ok info ∧ info.dlen = 0) ∧
            Tells sid m (m.respond sid status block p {}).1))) := by
  unfold MachineState.respond
  split_ifs with hok hsofar herror hredirect hwait hlater hstatus
  · refine .inr ⟨rfl, .inr ⟨by simp [hok, kXR_ok, kXR_status], ?_⟩⟩
    unfold MachineState.responseOk MachineState.withinCap
    split_ifs <;> exact tells_emit (release_events m sid) rfl
  · refine .inr ⟨rfl, .inr ⟨by simp [hsofar, kXR_oksofar, kXR_status], ?_⟩⟩
    unfold MachineState.responseChunk MachineState.withinCap
    split_ifs
    · exact tells_emit rfl rfl
    · exact tells_emit (release_events m sid) rfl
  · unfold MachineState.responseError
    cases parseError block with
    | error e => exact .inl ⟨by simp, rfl⟩
    | ok info =>
      exact .inr ⟨rfl, .inr ⟨by simp [herror, kXR_error, kXR_status],
        tells_emit (release_events m sid) rfl⟩⟩
  · unfold MachineState.responseRedirect
    cases parseRedirect block with
    | error e => exact .inl ⟨by simp, rfl⟩
    | ok target =>
      exact .inr ⟨rfl, .inr ⟨by simp [hredirect, kXR_redirect, kXR_status], tells_emit rfl rfl⟩⟩
  · unfold MachineState.responseWait
    cases parseWait block with
    | error e => exact .inl ⟨by simp, rfl⟩
    | ok wait => exact .inr ⟨rfl, .inr ⟨by simp [hwait, kXR_wait, kXR_status], tells_emit rfl rfl⟩⟩
  · unfold MachineState.responseWaitresp
    cases parseWaitresp block with
    | error e => exact .inl ⟨by simp, rfl⟩
    | ok later =>
      exact .inr ⟨rfl, .inr ⟨by simp [hlater, kXR_waitresp, kXR_status], tells_emit rfl rfl⟩⟩
  · unfold MachineState.responseStatus
    cases hparse : parseStatus block with
    | error e => exact .inl ⟨by simp, rfl⟩
    | ok info =>
      dsimp only
      split
      · rename_i hd
        exact .inr ⟨rfl, .inl ⟨hstatus, ⟨info, rfl, hd⟩, rfl⟩⟩
      · rename_i hd
        refine .inr ⟨rfl, .inr ⟨fun _ => ⟨info, rfl, by simpa using hd⟩, ?_⟩⟩
        have hset : { m with pending := m.pending.set sid { p with status := some info } }.pending.get
            sid = some { p with status := some info } := Assoc.get_set_self _ _ _
        exact onStatusData_tells hset rfl []
  · exact .inr ⟨rfl, .inr ⟨fun h => absurd h hstatus, tells_emit (release_events m sid) rfl⟩⟩

/-- What a unit reports: notices aside, one event for a well-formed reply that
tells its waiter something, and else nothing. -/
theorem deliver_answers (m : MachineState) (u : Decoded)
    (hready : MachineState.inBringup m.state = false) :
    (Accepted m u ∧ answers m u = true ∧ Tells u.stream m (deliver m u).1) ∨
      (¬ (Accepted m u ∧ answers m u = true) ∧ ∃ es, (deliver m u).1.events = m.events ++ es ∧
        ∀ e ∈ es, ∃ info, e = .attention info) := by
  have hsilent : ∀ {m' : MachineState}, m'.events = m.events →
      ∃ es, m'.events = m.events ++ es ∧ ∀ e ∈ es, ∃ info, e = Event.attention info :=
    fun h => ⟨[], by simpa using h, by simp⟩
  cases u with
  | trailer sid data =>
    cases hp : m.pending.get sid with
    | none =>
      exact .inr ⟨by simp [answers, hp], hsilent (by simp [deliver, MachineState.onStatusData, hp])⟩
    | some p =>
      cases hs : p.status with
      | none =>
        exact .inr ⟨by simp [answers, hp, hs],
          hsilent (by simp [deliver, MachineState.onStatusData, hp, hs])⟩
      | some info =>
        exact .inl ⟨rfl, by simp [answers, hp, hs], onStatusData_tells hp hs data⟩
  | frame h body =>
    cases he : effective h.sid h.status body with
    | none =>
      refine .inr ⟨by simp [answers, he], ?_⟩
      exact notice_events he
    | some e =>
      obtain ⟨sid, status, block⟩ := e
      have hstream : (Decoded.frame h body).stream = sid := by simp [Decoded.stream, streamOf, he]
      rw [hstream, Accepted, deliver_of_effective he]
      simp only [MachineState.route, hready, Bool.false_eq_true, if_false]
      cases hp : m.pending.get sid with
      | none =>
        have hno : m.pending.has sid = false := Assoc.has_eq_false.mpr hp
        refine .inr ⟨by simp [answers, he, hno], ?_⟩
        dsimp only
        split
        · exact hsilent (retiredReply_events m sid status block {})
        · exact hsilent rfl
      | some p =>
        have hyes : m.pending.has sid = true := Assoc.has_eq_true.mpr ⟨p, hp⟩
        dsimp only
        obtain ⟨hbad, hev⟩ | ⟨hgood, ⟨hs, ⟨info, hparse, hd⟩, hev⟩ | ⟨hdone, htells⟩⟩ :=
          respond_tells m sid status block p
        · exact .inr ⟨fun hacc => hbad hacc.1, hsilent hev⟩
        · refine .inr ⟨fun hacc => ?_, hsilent hev⟩
          have hlen : 16 ≤ block.length := (parseStatus_ok_iff block).mp ⟨info, hparse⟩
          have hdec : declares h body ≠ 0 := by
            simp only [declares, he, hs, hlen, and_self, if_true]
            rwa [← parseStatus_dlen hparse]
          simp [answers, he, hdec] at hacc
        · refine .inl ⟨hgood, ?_, htells⟩
          have hdec : declares h body = 0 := by
            by_cases hs : status = kXR_status
            · obtain ⟨info, hparse, hd⟩ := hdone hs
              have hlen : 16 ≤ block.length := (parseStatus_ok_iff block).mp ⟨info, hparse⟩
              simp only [declares, he, hs, hlen, and_self, if_true]
              rw [← parseStatus_dlen hparse, hd]
            · simp [declares, he, hs]
          simp [answers, he, hyes, hdec]

/-- A notice is passed on; any other event is about the unit's own stream, and
comes of the record of a request that was waiting there. -/
theorem deliver_events (m : MachineState) (u : Decoded)
    (hready : MachineState.inBringup m.state = false) :
    ∃ es, (deliver m u).1.events = m.events ++ es ∧ ∀ e ∈ es, (∃ info, e = .attention info) ∨
      (e.stream = some u.stream ∧ m.pending.has u.stream = true) := by
  obtain ⟨_, hans, e, hev, he⟩ | ⟨_, es, hev, hnotice⟩ := deliver_answers m u hready
  · refine ⟨[e], hev, fun e' he' => .inr ?_⟩
    obtain rfl := List.mem_singleton.mp he'
    exact ⟨he, pending_of_answers hans⟩
  · exact ⟨es, hev, fun e he => .inl (hnotice e he)⟩

/-! ## The world a machine runs in -/

/-- A request the server has still to finish answering, and the links it may use. -/
structure Owed where
  request : Nat
  sid : Nat
  links : List Nat
  deriving DecidableEq

/-- A session machine, what is on its way to it, and the books of the run. -/
structure World where
  machine : SessionMachine
  /-- On each link: what the machine has still to decode, and the request each
  unit answers. -/
  wire : Assoc Nat (List (Decoded × Nat)) := []
  /-- On each link: the bytes the machine has still to read. -/
  unread : Assoc Nat Bytes := []
  opened : List Owed := []
  /-- The request an id was last given to. -/
  owner : Assoc Nat Nat := []
  /-- The status of the last reply handed to a stream since it was last sent on. -/
  reply : Assoc Nat Nat := []
  /-- The number of the next request. -/
  next : Nat := 0
  /-- For each unit that found its stream pending: the request it answers, and
  the request it was handed to.  A unit that finds no record is dropped, so
  every event about a stream is made of what was handed to its record. -/
  handed : List (Nat × Option Nat) := []

namespace World

def on (w : World) (link : Nat) : List (Decoded × Nat) := (w.wire.get link).getD []

def toRead (w : World) (link : Nat) : Bytes := (w.unread.get link).getD []

/-- Something is on its way on `link` for the stream. -/
def Coming (w : World) (link s : Nat) : Prop := ∃ p ∈ w.on link, p.1.stream = s

instance (w : World) (link s : Nat) : Decidable (w.Coming link s) :=
  inferInstanceAs (Decidable (∃ p ∈ _, _))

/-- The server has still to finish answering on the stream. -/
def Open (w : World) (s : Nat) : Prop := ∃ o ∈ w.opened, o.sid = s

instance (w : World) (s : Nat) : Decidable (w.Open s) :=
  inferInstanceAs (Decidable (∃ o ∈ _, _))

/-- Something more can arrive for the id. -/
def Live (w : World) (s : Nat) : Prop := w.Open s ∨ ∃ link, w.Coming link s

theorem on_ne_nil {w : World} {link s : Nat} (h : w.Coming link s) :
    link ∈ w.wire.map Prod.fst := by
  obtain ⟨p, hp, _⟩ := h
  unfold on at hp
  cases hget : w.wire.get link with
  | none => simp [hget] at hp
  | some us => exact List.mem_map.mpr ⟨_, Assoc.mem_of_get hget, rfl⟩

instance (w : World) (s : Nat) : Decidable (w.Live s) :=
  decidable_of_iff (w.Open s ∨ ∃ link ∈ w.wire.map Prod.fst, w.Coming link s)
    ⟨fun h => h.imp id fun ⟨l, _, hc⟩ => ⟨l, hc⟩,
      fun h => h.imp id fun ⟨l, hc⟩ => ⟨l, on_ne_nil hc, hc⟩⟩

/-- One unit is decoded on `link`. -/
def take (w : World) (link : Nat) (u : Decoded) : World :=
  let machine := { w.machine with core := (deliver w.machine.core u).1 }
  match w.on link with
  | [] => { w with machine := machine }
  | (_, request) :: rest =>
      { w with
        machine := machine
        wire := w.wire.set link rest
        reply := match u.replyStatus with
          | some status => w.reply.set u.stream status
          | none => w.reply
        handed := w.handed ++
          if w.machine.core.pending.has u.stream then [(request, w.owner.get u.stream)] else [] }

/-- `P` holds of every unit of a list and the world it is decoded in. -/
def EachUnit (P : World → Nat → Decoded → Prop) (link : Nat) : World → List Decoded → Prop
  | _, [] => True
  | w, u :: us => P w link u ∧ EachUnit P link (w.take link u) us

/-- A link that is gone takes everything on it with it, and the server will not
finish an answer it had no other link for. -/
def dropLink (w : World) (link : Nat) : World :=
  { w with
    wire := w.wire.del link
    unread := w.unread.del link
    opened := (w.opened.map fun o => { o with links := o.links.filter (· ≠ link) }).filter
      fun o => o.links ≠ [] }

/-- A request is sent on `sid`. -/
def sends (w : World) (request sid : Nat) (links : List Nat) : World :=
  { w with
    opened := w.opened ++ [⟨request, sid, links⟩]
    owner := w.owner.set sid request
    reply := w.reply.del sid }

end World

/-- What can happen: a call on the machine, the bulk reader using the ids it has
leased, or the server sending. -/
inductive Step where
  | submit (request : Request) (path : Text) (arriveOnPath : Bool) (links : List Nat)
  | resume (sid : Nat) (links : List Nat)
  | release (sid : Nat)
  | abandon (sid : Nat)
  | lease (count : Nat)
  | releaseSids (sids : List Nat)
  | retireSids (sids owed : List Nat)
  /-- The bulk reader sends a request on an id it has leased. -/
  | issue (request : Request) (sid : Nat) (links : List Nat)
  /-- The bulk reader takes a reply off the wire itself. -/
  | bulkRead (link : Nat) (fr : Frame)
  | forgetPath (pathid : Nat)
  /-- `receive_data` of no bytes: the link has ended. -/
  | eof (link : Nat)
  /-- `receive_data` of the next `n` bytes of a link. -/
  | read (link n : Nat)
  /-- The server sends a reply to a request it has still to finish. -/
  | answer (link : Nat) (o : Owed) (fr : Frame)

namespace World

/-- One step. -/
def step (w : World) : Step → World
  | .submit request path arriveOnPath links =>
      let (result, core) := w.machine.core.submit request path arriveOnPath
      let w := { w with machine := { w.machine with core := core } }
      match result with
      | .ok sid => { w.sends w.next sid links with next := w.next + 1 }
      | .error _ => w
  | .resume sid links =>
      let (core, raised) := w.machine.core.resume sid
      let w := { w with machine := { w.machine with core := core } }
      match raised, w.owner.get sid with
      | none, some request => w.sends request sid links
      | _, _ => w
  | .release sid =>
      { w with machine := { w.machine with core := w.machine.core.release sid } }
  | .abandon sid =>
      { w with machine := { w.machine with core := w.machine.core.abandon sid } }
  | .lease count =>
      { w with machine := { w.machine with core := (w.machine.core.leaseSids count).2 } }
  | .releaseSids sids =>
      { w with machine := { w.machine with core := w.machine.core.releaseSids sids } }
  | .retireSids sids owed =>
      { w with machine := { w.machine with core := w.machine.core.retireSids sids owed } }
  | .issue request sid links =>
      let (result, core) := w.machine.core.framePartsFor request sid
      let w := { w with machine := { w.machine with core := core } }
      match result with
      | .ok _ => { w.sends w.next sid links with next := w.next + 1 }
      | .error _ => w
  | .bulkRead link fr =>
      { w with
        wire := w.wire.set link ((w.on link).drop fr.units.length)
        unread := w.unread.set link ((w.toRead link).drop fr.wire.length) }
  | .forgetPath pathid => { w with machine := w.machine.forgetPath pathid }.dropLink pathid
  | .eof link =>
      { w with machine := (w.machine.receiveData [] link).1 }.dropLink link
  | .read link n =>
      let (log, machine, _) := w.machine.receiveLog link ((w.toRead link).take n)
      { log.foldl (fun w u => w.take link u) w with
        machine := machine
        unread := w.unread.set link ((w.toRead link).drop n) }
  | .answer link o fr =>
      { w with
        wire := w.wire.set link (w.on link ++ fr.units.map fun u => (u, o.request))
        unread := w.unread.set link (w.toRead link ++ fr.wire)
        opened := if (Decoded.frame fr.header fr.body).isFinal
          then w.opened.filter (·.sid ≠ o.sid) else w.opened }

/-- What a driver and a server keep to. -/
def Rule (w : World) : Step → Prop
  | .resume sid _ => w.reply.get sid = some kXR_wait
  | .release sid => w.reply.get sid = some kXR_redirect
  | .releaseSids sids => sids.Nodup ∧ ∀ s ∈ sids, s ∈ w.machine.core.leased ∧ ¬ w.Live s
  | .retireSids sids owed =>
      sids.Nodup ∧ ∀ s ∈ sids, s ∈ w.machine.core.leased ∧ (s ∉ owed → ¬ w.Live s)
  | .issue _ sid _ => sid ∈ w.machine.core.leased ∧ ¬ w.Live sid
  | .bulkRead link fr =>
      w.machine.framer link = {} ∧ fr.sid ∈ w.machine.core.leased ∧
        fr.units = ((w.on link).take fr.units.length).map Prod.fst
  -- The replies to leased ids are read by the reader that leased them.
  | .read link n =>
      0 < n ∧ n ≤ (w.toRead link).length ∧ ∀ p ∈ w.on link, p.1.stream ∉ w.machine.core.leased
  | .answer link o fr => o ∈ w.opened ∧ fr.sid = o.sid ∧ link ∈ o.links
  | _ => True

instance (w : World) (s : Step) : Decidable (w.Rule s) := by
  cases s <;> unfold Rule <;> infer_instance

/-- No unit takes a branch that frees an id while more can come for it:

  - a partial reply that overruns what its request asked for, on a stream that
    is pending;
  - a final status block with data, on a stream that is retired;
  - a final reply, when something of its stream is still coming on another link
    (a `kXR_wait` leaves its stream pending, and does no harm there).
-/
structure SoundUnit (w : World) (link : Nat) (u : Decoded) : Prop where
  cap : overran w.machine.core u = false
  retired : u.stream ∈ w.machine.core.retired → u.isFinal = true → u.carries = 0
  links : u.isFinal = true →
    ¬ (u.replyStatus = some kXR_wait ∧ w.machine.core.pending.has u.stream = true) →
    ∀ other ∈ w.wire.map Prod.fst, other ≠ link → ¬ w.Coming other u.stream

/-- A path is dropped only when no stream that was waiting on it can still be
answered on another link. -/
def SoundDrop (w : World) (pathid : Nat) : Prop :=
  ∀ s ∈ SessionMachine.streamsOn w.machine.core pathid,
    (∀ o ∈ w.opened, o.sid = s → ∀ link ∈ o.links, link = pathid) ∧
      ∀ other ∈ w.wire.map Prod.fst, other ≠ pathid → ¬ w.Coming other s

instance (w : World) (link : Nat) (u : Decoded) : Decidable (w.SoundUnit link u) :=
  decidable_of_iff (_ ∧ _ ∧ _) ⟨fun h => ⟨h.1, h.2.1, h.2.2⟩, fun h => ⟨h.cap, h.retired, h.links⟩⟩

instance (w : World) (pathid : Nat) : Decidable (w.SoundDrop pathid) :=
  inferInstanceAs (Decidable (∀ s ∈ _, _ ∧ _))

instance decidableEachUnit {P : World → Nat → Decoded → Prop}
    [∀ w link u, Decidable (P w link u)] (link : Nat) : ∀ (w : World) (us : List Decoded),
    Decidable (EachUnit P link w us)
  | _, [] => .isTrue trivial
  | w, u :: us =>
      have : Decidable (EachUnit P link (w.take link u) us) := decidableEachUnit link _ us
      inferInstanceAs (Decidable (_ ∧ _))

/-- The step frees no id too early. -/
def Sound (w : World) : Step → Prop
  | .read link n =>
      EachUnit SoundUnit link w (w.machine.receiveLog link ((w.toRead link).take n)).1
  | .forgetPath pathid => w.SoundDrop pathid
  | .eof link => link ≠ 0 → w.SoundDrop link
  | _ => True

instance (w : World) (s : Step) : Decidable (w.Sound s) := by
  cases s <;> unfold Sound <;> infer_instance

/-- The world after a list of steps. -/
def run (w : World) (steps : List Step) : World := steps.foldl step w

/-- Every step of a run is taken while the session is up and meets a condition. -/
def EachStep (P : World → Step → Prop) : World → List Step → Prop
  | _, [] => True
  | w, s :: steps => (w.machine.core.state = .ready ∧ P w s) ∧ EachStep P (w.step s) steps

instance decidableEachStep {P : World → Step → Prop} [∀ w s, Decidable (P w s)] :
    ∀ (w : World) (steps : List Step), Decidable (EachStep P w steps)
  | _, [] => .isTrue trivial
  | w, s :: steps =>
      have : Decidable (EachStep P (w.step s) steps) := decidableEachStep _ steps
      inferInstanceAs (Decidable ((_ ∧ _) ∧ _))

/-- Each unit reached the request it answers, and nothing can come any more for
an id that is free. -/
structure Attributed (w : World) : Prop where
  handed : ∀ h ∈ w.handed, h.2 = some h.1
  free : ∀ s ∈ w.machine.core.free, ¬ w.Live s

end World

end XrdClient.Proto
