/-
  Proto/Resend.lean --- what `resume` queues, against what went out.

  Source: `proto/machine.py`, `_send` and `resume`.

  A record keeps the frame of a request and the data for its path, but not which link the
  frame went down.
-/
import XrdClient.Proto.Outgoing

set_option autoImplicit false

namespace XrdClient.Proto

open XrdClient.Lib

namespace MachineState

/-- What a call queued: on the control link, and for each data path. -/
structure Adds (m m' : MachineState) (control : List Bytes) (paths : Nat → List Bytes) : Prop where
  control : m'.out = m.out ++ control
  paths : ∀ pathid, m'.pathQueue pathid = m.pathQueue pathid ++ paths pathid

/-- A frame has a header. -/
theorem encodeParts_ne_nil {request : Request} {sid : Nat} {parts : List Bytes}
    (h : encodeParts request sid = .ok parts) : parts ≠ [] := by
  unfold encodeParts at h
  dsimp only at h
  split_ifs at h <;> cases h <;> simp

theorem frame_ne_nil {m : MachineState} {request : Request} {sid : Nat} {parts : List Bytes}
    (h : (m.frame request sid).1 = .ok parts) : parts ≠ [] := by
  unfold frame at h
  split at h
  · cases h
  · next frame hparts =>
    split at h
    · cases h
      exact encodeParts_ne_nil hparts
    · split at h
      · cases h
        exact List.cons_ne_nil _ _
      · split at h
        · cases h
        · cases h
          exact List.cons_ne_nil _ _

/-- The record of a stream that is there was there, for the same frame. -/
def Lasts (sid : Nat) (m m' : MachineState) : Prop :=
  ∀ p', m'.pending.get sid = some p' → ∃ p, m.pending.get sid = some p ∧ SameFrame p p'

theorem Lasts.of_eq {sid : Nat} {m m' : MachineState} (h : m'.pending = m.pending) : Lasts sid m m' :=
  fun p' hp => ⟨p', by rw [← h]; exact hp, .refl p'⟩

theorem Carries.lasts {m m' : MachineState} (h : Carries m m') (sid : Nat) : Lasts sid m m' := h.records sid

theorem close_pending (m : MachineState) (graceful : Bool) : (m.close graceful).1.pending = m.pending := by
  unfold close
  dsimp only
  split
  · have hpending := m.acquireSid_pending
    split
    · next heq =>
      rw [heq] at hpending
      exact hpending
    · next sid m₁ heq =>
      rw [heq] at hpending
      have hqueued := (queueEncoded_grows m₁ (endSessionRequest m₁.sessionId) sid).pending
      split <;> next heq' => rw [heq'] at hqueued; exact hqueued.trans hpending
  · rfl

end MachineState

namespace SessionMachine

open MachineState

/-- The call does not give the stream to another request. -/
def Spares (sid : Nat) (m : SessionMachine) : Op → Prop
  | .submit request path arriveOnPath => (m.core.submit request path arriveOnPath).1 ≠ .ok sid
  | _ => True

theorem step_lasts {sid : Nat} {m : SessionMachine} {op : Op} (h : Spares sid m op) :
    Lasts sid m.core (m.step op).1.core := by
  cases op with
  | submit request path arriveOnPath =>
    rcases hsubmit : m.core.submit request path arriveOnPath with ⟨e | sid', core⟩
    · have hcore : (m.step (.submit request path arriveOnPath)).1.core = core := by
        simp only [step, onCore, hsubmit]
      rw [hcore]
      exact .of_eq (submit_error hsubmit).2.1
    · have hcore : (m.step (.submit request path arriveOnPath)).1.core = core := by
        simp only [step, onCore, hsubmit]
      have hother : sid ≠ sid' := by
        rintro rfl
        exact h (by rw [hsubmit])
      obtain ⟨parts, hout⟩ := submit_ok hsubmit
      obtain ⟨q, -, -, -, hset⟩ := hout.pending
      intro p' hp
      rw [hcore, hset, Assoc.get_set_of_ne _ _ hother] at hp
      exact ⟨p', hp, .refl p'⟩
  | resume sid' =>
    have hout : m.core.resume sid' = ((m.core.resume sid').1, (m.core.resume sid').2) := rfl
    rcases resume_cases hout with ⟨-, hsame, -⟩ | ⟨-, p, -, hresumes⟩
    · exact .of_eq (congrArg MachineState.pending hsame)
    · exact .of_eq hresumes.pending
  | close graceful => exact .of_eq (close_pending m.core graceful)
  | framePartsFor request sid' =>
    refine .of_eq ?_
    show (m.core.framePartsFor request sid').2.pending = m.core.pending
    unfold framePartsFor
    split
    · exact (m.core.frame_streams request sid').pending
    · rfl
  | forgetPath pathid => exact (forgetPath_carries m pathid).lasts sid
  | buffersToSend => exact .of_eq rfl
  | pathBuffersToSend pathid => exact .of_eq rfl
  | start | release _ | abandon _ | tlsEstablished | leaseSids _ | releaseSids _ | retireSids _ _
  | receiveData _ _ | nextEvent | drain => exact (step_carries m rfl).lasts sid

/-- Whatever is called in between, what is kept for a stream is what it was sent with. -/
theorem run_lasts {sid : Nat} {ops : List Op} {m : SessionMachine} (h : EachCall (Spares sid) m ops) :
    Lasts sid m.core (m.run ops).core := by
  induction ops generalizing m with
  | nil => exact .of_eq rfl
  | cons op ops ih =>
    obtain ⟨hop, hops⟩ := h
    intro p'' hp
    obtain ⟨p', hp', hsame'⟩ := ih hops p'' hp
    obtain ⟨p, hp, hsame⟩ := step_lasts hop p' hp'
    exact ⟨p, hp, hsame.trans hsame'⟩

/-- What `submit` queued, and what `resume` queues for the same stream. -/
theorem submit_then_resume {m : SessionMachine} {request : Request} {path : Text} {arrive : Bool} {sid : Nat}
    {ops : List Op} (hsubmit : (m.core.submit request path arrive).1 = .ok sid)
    (hspares : EachCall (Spares sid) (m.step (.submit request path arrive)).1 ops)
    (hwaits : ((m.step (.submit request path arrive)).1.run ops).core.pending.has sid = true) :
    ∃ parts : List Bytes, parts ≠ [] ∧
      (let data := if request.pathData = [] then [] else [request.pathData]
      let whole := if arrive = true ∧ request.pathid ≠ 0 then parts else []
      Adds m.core (m.step (.submit request path arrive)).1.core
          (if arrive = true ∧ request.pathid ≠ 0 then [] else parts)
          (fun p => if p = request.pathid then whole ++ data else []) ∧
        ((((m.step (.submit request path arrive)).1.run ops).core.resume sid).2 = none ∧
          Adds ((m.step (.submit request path arrive)).1.run ops).core
            (((m.step (.submit request path arrive)).1.run ops).core.resume sid).1 parts
            (fun p => if p = request.pathid then data else []))) := by
  rcases hout : m.core.submit request path arrive with ⟨e | sid', core⟩
  · rw [hout] at hsubmit
    cases hsubmit
  rw [hout] at hsubmit
  obtain rfl : sid' = sid := Except.ok.inj hsubmit
  obtain ⟨parts, hsent⟩ := submit_ok hout
  obtain ⟨m₁, -, hframed, -⟩ := hsent.framed
  obtain ⟨q, hparts, hpathid, hdata, hset⟩ := hsent.pending
  have hcore : (m.step (.submit request path arrive)).1.core = core := by
    simp only [step, onCore, hout]
  -- what is there for the stream in the end is the record that was made for it
  obtain ⟨p, hp⟩ := Assoc.has_eq_true.mp hwaits
  obtain ⟨q', hq', hsame⟩ := run_lasts hspares p hp
  rw [hcore, hset, Assoc.get_set_self] at hq'
  obtain rfl := Option.some.inj hq'
  have hresume : ((m.step (.submit request path arrive)).1.run ops).core.resume sid' =
      ((((m.step (.submit request path arrive)).1.run ops).core.resume sid').1,
        (((m.step (.submit request path arrive)).1.run ops).core.resume sid').2) := rfl
  rcases resume_cases hresume with ⟨-, -, hnone⟩ | ⟨hraised, p', hp', hresumes⟩
  · rw [hnone] at hp
    cases hp
  rw [hp] at hp'
  obtain rfl := Option.some.inj hp'
  refine ⟨parts, frame_ne_nil hframed, ⟨?_, ?_⟩, hraised, ⟨?_, fun pathid => ?_⟩⟩
  · rw [hcore, hsent.out]
  · rw [hcore]
    exact hsent.path
  · rw [hresumes.out, hsame.parts, hparts]
  · rw [hresumes.path, hsame.pathid, hpathid, hsame.pathBytes, hdata]

/-- **A resend repeats the send, unless the request arrived on its path.**  From every
machine, for every request and whatever is called between the send and the resend, the
`kXR_wait` among it, as long as the stream is still the request's: `resume` queues what
`submit` queued, for each link and in the order of then, exactly when the frame did not go
down a data path. -/
theorem resend_iff {m : SessionMachine} {request : Request} {path : Text} {arrive : Bool} {sid : Nat}
    {ops : List Op} (hsubmit : (m.core.submit request path arrive).1 = .ok sid)
    (hspares : EachCall (Spares sid) (m.step (.submit request path arrive)).1 ops)
    (hwaits : ((m.step (.submit request path arrive)).1.run ops).core.pending.has sid = true) :
    ((((m.step (.submit request path arrive)).1.run ops).core.resume sid).2 = none ∧
        ∀ control paths, Adds m.core (m.step (.submit request path arrive)).1.core control paths →
          Adds ((m.step (.submit request path arrive)).1.run ops).core
            (((m.step (.submit request path arrive)).1.run ops).core.resume sid).1 control paths) ↔
      ¬ (arrive = true ∧ request.pathid ≠ 0) := by
  obtain ⟨parts, hsome, hsent, hraised, hresent⟩ := submit_then_resume hsubmit hspares hwaits
  constructor
  · rintro ⟨-, hsame⟩ harrive
    have hagain := (hsame _ _ hsent).control
    rw [if_pos harrive, List.append_nil] at hagain
    have hcontrol := hresent.control
    rw [hagain] at hcontrol
    exact hsome (List.self_eq_append_right.mp hcontrol)
  · intro harrive
    refine ⟨hraised, fun control paths hadds => ?_⟩
    have hcontrol : control = parts := by
      have heq := hadds.control.symm.trans hsent.control
      rw [if_neg harrive] at heq
      exact List.append_cancel_left heq
    have hpaths : ∀ p, paths p =
        if p = request.pathid then (if request.pathData = [] then [] else [request.pathData]) else [] := by
      intro p
      have heq := (hadds.paths p).symm.trans (hsent.paths p)
      rw [if_neg harrive, List.nil_append] at heq
      exact List.append_cancel_left heq
    rw [hcontrol]
    exact ⟨hresent.control, fun p => by rw [hresent.paths, hpaths]⟩

/-- A machine that is ready, and knows no session. -/
def readyMachine : SessionMachine := .of (.bare .ready)

/-- A read whose answer is to come on path 1. -/
def pathRead : Request := readRequest [0, 0, 0, 1] 0 16 1

/-- The server asks to wait a second, and the driver notes it. -/
def waitOneSecond (link : Nat) : List Op :=
  [.buffersToSend, .pathBuffersToSend 1,
    .receiveData link (headerBytes ⟨FIRST_SID, kXR_wait, 4⟩ ++ [0, 0, 0, 1]), .nextEvent]

theorem resend_iff_split :
    ((((readyMachine.step (.submit pathRead [] false)).1.run (waitOneSecond 0)).core.resume FIRST_SID).2 = none ∧
        ∀ control paths, Adds readyMachine.core (readyMachine.step (.submit pathRead [] false)).1.core control paths →
          Adds ((readyMachine.step (.submit pathRead [] false)).1.run (waitOneSecond 0)).core
            (((readyMachine.step (.submit pathRead [] false)).1.run (waitOneSecond 0)).core.resume FIRST_SID).1
            control paths) ↔ ¬ (false = true ∧ pathRead.pathid ≠ 0) :=
  resend_iff (by decide) ⟨trivial, trivial, trivial, trivial, trivial⟩ (by decide)

/-- A read that went down its path whole is sent again on the control link. -/
theorem resent_elsewhere : ¬ ∀ (m : SessionMachine) (request : Request) (arrive : Bool) (sid : Nat) (ops : List Op),
    m.core.state = .ready → m.core.signer = none → (m.core.submit request [] arrive).1 = .ok sid →
    EachCall (Spares sid) (m.step (.submit request [] arrive)).1 ops →
    ((m.step (.submit request [] arrive)).1.run ops).core.pending.has sid = true →
    ∀ control paths, Adds m.core (m.step (.submit request [] arrive)).1.core control paths →
      Adds ((m.step (.submit request [] arrive)).1.run ops).core
        (((m.step (.submit request [] arrive)).1.run ops).core.resume sid).1 control paths := by
  intro h
  have hsent : Adds readyMachine.core (readyMachine.step (.submit pathRead [] true)).1.core []
      (readyMachine.step (.submit pathRead [] true)).1.core.pathQueue :=
    ⟨by decide, fun _ => rfl⟩
  have hagain := h readyMachine pathRead true FIRST_SID (waitOneSecond 1) (by decide) (by decide) (by decide)
    ⟨trivial, trivial, trivial, trivial, trivial⟩ (by decide) _ _ hsent
  exact absurd hagain.control (by decide)

end SessionMachine

end XrdClient.Proto
