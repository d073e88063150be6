/-
  Proto/Run.lean --- what a driver can do to a session machine, and runs of it.

  Source: the public methods of `SessionMachine`.  A run is a list of calls in
  any order; a call that raises leaves what it had done and the run goes on.
-/
import XrdClient.Proto.Receive

set_option autoImplicit false

namespace XrdClient.Proto

open XrdClient.Lib

/-- A call on the machine. -/
inductive Op where
  | start
  | submit (request : Request) (path : Text) (arriveOnPath : Bool)
  | resume (sid : Nat)
  | release (sid : Nat)
  | abandon (sid : Nat)
  | close (graceful : Bool)
  | tlsEstablished
  | leaseSids (count : Nat)
  | releaseSids (sids : List Nat)
  | retireSids (sids owed : List Nat)
  | framePartsFor (request : Request) (sid : Nat)
  | forgetPath (pathid : Nat)
  | receiveData (pathid : Nat) (data : Bytes)
  /-- `buffers_to_send`, and `data_to_send` joined. -/
  | buffersToSend
  /-- `path_buffers_to_send`, and `path_data_to_send` joined. -/
  | pathBuffersToSend (pathid : Nat)
  | nextEvent
  /-- `drain`, and `events`. -/
  | drain
  deriving DecidableEq

namespace SessionMachine

/-- A call that leaves the framers alone. -/
def onCore (m : SessionMachine) (result : MachineState × Option Raised) :
    SessionMachine × Option Raised :=
  ({ m with core := result.1 }, result.2)

/-- What an `Except` raised. -/
def raisedBy {α : Type} : Except Raised α → Option Raised
  | .error e => some e
  | .ok _ => none

/-- One call: the machine after it, and what it raised. -/
def step (m : SessionMachine) : Op → SessionMachine × Option Raised
  | .start => m.onCore m.core.start
  | .submit request path arriveOnPath =>
      let (result, core) := m.core.submit request path arriveOnPath
      m.onCore (core, raisedBy result)
  | .resume sid => m.onCore (m.core.resume sid)
  | .release sid => m.onCore (m.core.release sid, none)
  | .abandon sid => m.onCore (m.core.abandon sid, none)
  | .close graceful => m.onCore (m.core.close graceful)
  | .tlsEstablished => m.onCore m.core.tlsEstablished
  | .leaseSids count =>
      let (result, core) := m.core.leaseSids count
      m.onCore (core, raisedBy result)
  | .releaseSids sids => m.onCore (m.core.releaseSids sids, none)
  | .retireSids sids owed => m.onCore (m.core.retireSids sids owed, none)
  | .framePartsFor request sid =>
      let (result, core) := m.core.framePartsFor request sid
      m.onCore (core, raisedBy result)
  | .forgetPath pathid => (m.forgetPath pathid, none)
  | .receiveData pathid data => m.receiveData data pathid
  | .buffersToSend => m.onCore ({ m.core with out := [] }, none)
  | .pathBuffersToSend pathid =>
      m.onCore ({ m.core with outPath := m.core.outPath.del pathid }, none)
  | .nextEvent => m.onCore ({ m.core with events := m.core.events.tail }, none)
  | .drain => m.onCore ({ m.core with events := [] }, none)

/-- The calls that look at a framer. -/
def touchesFramer : Op → Bool
  | .forgetPath _ | .receiveData _ _ => true
  | _ => false

theorem step_framers (m : SessionMachine) {op : Op} (h : touchesFramer op = false) :
    (m.step op).1.framers = m.framers := by
  cases op <;> first | rfl | cases h

theorem framer_set (m : SessionMachine) (core : MachineState) (pathid link : Nat) (f : Framer) :
    SessionMachine.framer ⟨core, m.framers.set pathid f⟩ link =
      if link = pathid then f else m.framer link := by
  simp only [framer, Assoc.get_set]
  split <;> rfl

theorem framer_del (m : SessionMachine) (core : MachineState) (pathid link : Nat) :
    SessionMachine.framer ⟨core, m.framers.del pathid⟩ link =
      if link = pathid then {} else m.framer link := by
  simp only [framer, Assoc.get_del]
  split <;> rfl

/-- The framers after a read: the link's own is as the decoder left it, and the
end of a data path drops the path's. -/
theorem receiveData_framer (m : SessionMachine) (data : Bytes) (pathid link : Nat) :
    (m.receiveData data pathid).1.framer link =
      if link = pathid then
        if data = [] then if pathid = 0 then m.framer link else {}
        else (decode m.core (m.framer pathid) data).2.framer
      else m.framer link := by
  unfold receiveData receiveLog
  by_cases hdata : data = []
  · by_cases hpath : pathid = 0
    · have heof : ∀ n : SessionMachine, n.onEof.framer link = n.framer link := by
        intro n
        unfold onEof
        split <;> rfl
      simp only [hdata, if_true, hpath, heof, framer_set]
      split <;> simp_all
    · simp only [hdata, if_true, hpath, if_false, onPathEof, forgetPath]
      rw [framer, ← framer, framer]
      simp only [Assoc.get_del, Assoc.get_set]
      split <;> simp_all [framer]
  · simp only [hdata, if_false, framer_set]

/-- The machine after a list of calls. -/
def run (m : SessionMachine) (ops : List Op) : SessionMachine :=
  ops.foldl (fun m op => (m.step op).1) m

@[simp] theorem run_nil (m : SessionMachine) : m.run [] = m := rfl

@[simp] theorem run_cons (m : SessionMachine) (op : Op) (ops : List Op) :
    m.run (op :: ops) = (m.step op).1.run ops := rfl

/-- Every call of a run meets a condition on the state it is made in. -/
def EachCall (P : SessionMachine → Op → Prop) : SessionMachine → List Op → Prop
  | _, [] => True
  | m, op :: ops => P m op ∧ EachCall P (m.step op).1 ops

/-- What every call that meets the condition preserves, a run preserves. -/
theorem run_invariant {P : SessionMachine → Op → Prop} {I : SessionMachine → Prop}
    (step : ∀ m op, P m op → I m → I (m.step op).1) :
    ∀ {ops : List Op} {m : SessionMachine}, EachCall P m ops → I m → I (m.run ops) := by
  intro ops
  induction ops with
  | nil => intro m _ h; exact h
  | cons op ops ih =>
    intro m hp h
    exact ih hp.2 (step m op hp.1 h)

end SessionMachine

/-! ## A bring-up to start concrete runs from -/

/-- The replies of a server without TLS or authentication: handshake, protocol
and login. -/
def bringUpReplies : List Bytes :=
  [headerBytes ⟨0, kXR_ok, 8⟩ ++ [0, 0, 5, 32, 0, 0, 0, 1],
    headerBytes ⟨1, kXR_ok, 8⟩ ++ [0, 0, 5, 32, 0, 0, 0, 1],
    headerBytes ⟨2, kXR_ok, 16⟩ ++ List.replicate 16 7]

/-- The calls that take a new machine to READY against that server. -/
def bringUp : List Op := .start :: bringUpReplies.map (.receiveData 0)

/-- A control connection, as made. -/
def newMachine : SessionMachine :=
  .of (.new MachineState.bareEnv "server".toList 1094 {} "user".toList false)

example : (newMachine.run bringUp).core.state = .ready := by decide

end XrdClient.Proto
