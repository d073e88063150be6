/-
  Session/Mailboxes.lean --- who a mailbox belongs to.

  Source: `session/sync.py`, `_start`, `_forget`, `_release`, `_route_event`,
  `_close_path`.

  The machine frees a stream id while it takes in the last of the answer, before the
  waiter has run; by the time that waiter cleans up, the id may be another request's.
  `Placed` is what keeps the two apart: the mailbox that the inbox has for a pending
  stream is that of the request the id was last given to.  No step breaks it, so a
  clean-up that finds its own mailbox in the inbox finds its own stream.

  Mail is another matter.  Events are routed by stream id, and that is right as long
  as they are routed in the step that produced them.  A reply that the machine cannot
  parse ends that step before the routing; what was parsed before it stays in the
  machine's queue, and goes by the inbox of a later time.
-/
import XrdClient.Session.Shared

set_option autoImplicit false

namespace XrdClient.Proto

open XrdClient.Lib

namespace MachineState

/-- A request that is submitted is pending on the id it was given, and nothing else moves. -/
theorem submit_pending (m : MachineState) (request : Request) (path : Text) (arrive : Bool) :
    (∀ sid, (m.submit request path arrive).1 = .ok sid →
        ∀ s, (m.submit request path arrive).2.pending.has s =
          (decide (s = sid) || m.pending.has s)) ∧
      (∀ e, (m.submit request path arrive).1 = .error e →
        (m.submit request path arrive).2.pending = m.pending) ∧
      (m.submit request path arrive).2.state = m.state := by
  unfold submit
  split
  · exact ⟨(fun _ h => by cases h), fun _ _ => rfl, rfl⟩
  have hview := m.acquireSid_view
  rcases hacq : m.acquireSid with ⟨e | sid, m₁⟩
  all_goals
    rw [hacq] at hview
    have hpending : m₁.pending = m.pending := congrArg (fun v => v.2.1) hview
    have hstate : m₁.state = m.state := congrArg (fun v => v.1) hview
  · exact ⟨(fun _ h => by cases h), fun _ _ => hpending, hstate⟩
  obtain ⟨e, hraised, hsame⟩ | ⟨hnone, p, -, hsame⟩ := m₁.send_cases request sid path arrive
  · rcases hsend : m₁.send request sid path arrive with ⟨m₂, raised⟩
    rw [hsend] at hraised hsame
    subst hraised
    simp only [hsend]
    exact ⟨(fun _ h => by cases h), fun _ _ => hsame.pending.trans hpending, hsame.state.trans hstate⟩
  · rcases hsend : m₁.send request sid path arrive with ⟨m₂, raised⟩
    rw [hsend] at hnone hsame
    subst hnone
    simp only [hsend]
    refine ⟨fun sid' hsid s => ?_, (fun _ h => by cases h), hsame.state.trans hstate⟩
    obtain rfl : sid = sid' := Except.ok.inj hsid
    have hset := hsame.pending
    dsimp only at hset
    rw [hset, has_set, hpending]

/-- What `close` reports is about no stream. -/
theorem close_reports (m : MachineState) :
    (inBringup m.state = false → inBringup m.close.1.state = false) ∧
      m.close.1.pending = m.pending ∧
      ∃ es, m.close.1.events = m.events ++ es ∧ ∀ e ∈ es, e.stream = none := by
  unfold close
  dsimp only
  split
  · have hview := m.acquireSid_view
    split
    · next heq =>
      rw [heq] at hview
      simp only [view, Prod.mk.injEq] at hview
      obtain ⟨hstate, hpending, hevents⟩ := hview
      exact ⟨fun h => by rw [hstate]; exact h, hpending, [], by rw [hevents, List.append_nil],
        by simp⟩
    · next sid m₁ heq =>
      rw [heq] at hview
      simp only [view, Prod.mk.injEq] at hview
      obtain ⟨hstate, hpending, hevents⟩ := hview
      have hqueue : ∀ m₂ raised, m₁.queueEncoded (endSessionRequest m₁.sessionId) sid = (m₂, raised) →
          m₂.view = m₁.view := by
        intro m₂ raised hq
        unfold queueEncoded at hq
        split at hq <;> (cases hq; rfl)
      split
      · next m₂ e hq =>
        have hsame := hqueue m₂ _ hq
        simp only [view, Prod.mk.injEq] at hsame
        exact ⟨fun h => by rw [hsame.1, hstate]; exact h, hsame.2.1.trans hpending, [],
          by rw [hsame.2.2, hevents, List.append_nil], by simp⟩
      · next m₂ hq =>
        have hsame := hqueue m₂ _ hq
        simp only [view, Prod.mk.injEq] at hsame
        refine ⟨fun _ => rfl, hsame.2.1.trans hpending, [.disconnected .byClient], ?_, by simp [Event.stream]⟩
        simp only [emit, hsame.2.2, hevents]
  · exact ⟨fun _ => rfl, rfl, [.disconnected .byClient], rfl, by simp [Event.stream]⟩

end MachineState

namespace SessionMachine

/-- What bytes off the wire make a machine report is about streams that were pending,
and nothing becomes pending by it. -/
theorem receiveData_reports (m : SessionMachine) (hup : MachineState.inBringup m.core.state = false)
    (data : Bytes) (pathid : Nat) :
    MachineState.inBringup (m.receiveData data pathid).1.core.state = false ∧
      (∀ s, (m.receiveData data pathid).1.core.pending.has s = true → m.core.pending.has s = true) ∧
      ∃ es, (m.receiveData data pathid).1.core.events = m.core.events ++ es ∧
        ∀ e ∈ es, ∀ sid, e.stream = some sid → m.core.pending.has sid = true := by
  have hfailures : ∀ (ps : Assoc Nat Pending) (error : SessionError), (∀ p ∈ ps, p ∈ m.core.pending) →
      ∀ e ∈ ps.map (fun p => Event.failed (some p.1) (some p.2.request) error), ∀ sid,
        e.stream = some sid → m.core.pending.has sid = true := by
    intro ps error hsub e he sid hsid
    obtain ⟨p, hp, rfl⟩ := List.mem_map.mp he
    obtain rfl : p.1 = sid := Option.some.inj hsid
    exact Assoc.has_of_mem (hsub p hp)
  unfold receiveData receiveLog
  by_cases hdata : data = []
  · rw [if_pos hdata]
    by_cases hpath : pathid = 0
    · simp only [hpath, if_true, onEof]
      split
      · exact ⟨hup, fun s h => h, [], by simp, by simp⟩
      · refine ⟨rfl, fun s h => ?_, _, by rw [List.append_assoc], fun e he sid hsid => ?_⟩
        · simp [Assoc.has] at h
        · rcases List.mem_append.mp he with he | he
          · exact hfailures m.core.pending _ (fun p hp => hp) e he sid hsid
          · rw [List.mem_singleton] at he
            subst he
            cases hsid
    · simp only [if_neg hpath, onPathEof, forgetPath, MachineState.emit]
      refine ⟨?_, fun s h => ?_, _, by rw [Books.releases_events, List.append_assoc], ?_⟩
      · rw [Books.releases_state]
        exact hup
      · exact ((Books.releases_has _ _ s).mp h).1
      · intro e he sid hsid
        rcases List.mem_append.mp he with he | he
        · exact hfailures _ _ (fun p hp => List.mem_of_mem_filter hp) e he sid hsid
        · rw [List.mem_singleton] at he
          subst he
          cases hsid
  · rw [if_neg hdata]
    refine MachineState.decode_invariant (I := fun core => MachineState.inBringup core.state = false ∧
      (∀ s, core.pending.has s = true → m.core.pending.has s = true) ∧
        ∃ es, core.events = m.core.events ++ es ∧
          ∀ e ∈ es, ∀ sid, e.stream = some sid → m.core.pending.has sid = true) ?_
      (m.framer pathid) data ⟨hup, fun s h => h, [], by simp, by simp⟩
    rintro core u ⟨hready, hpending, es, hes, hknown⟩
    refine ⟨by rw [MachineState.deliver_state u hready]; exact hready, ?_⟩
    cases MachineState.deliver_report core u hready with
    | quiet es' events about pending =>
      refine ⟨fun s h => hpending s (pending s ▸ h), es ++ es', by rw [events, hes, List.append_assoc],
        fun e he sid hsid => ?_⟩
      rcases List.mem_append.mp he with he | he
      · exact hknown e he sid hsid
      · rw [about e he] at hsid
        cases hsid
    | told e' events about last found pending =>
      refine ⟨fun s h => hpending s (pending s ▸ h), es ++ [e'], by rw [events, hes, List.append_assoc],
        fun e he sid hsid => ?_⟩
      rcases List.mem_append.mp he with he | he
      · exact hknown e he sid hsid
      · rw [List.mem_singleton] at he
        rw [he, about] at hsid
        exact hpending sid (Option.some.inj hsid ▸ found)
    | ended e' events about last found pending =>
      refine ⟨fun s h => ?_, es ++ [e'], by rw [events, hes, List.append_assoc],
        fun e he sid hsid => ?_⟩
      · rw [pending s, Bool.and_eq_true] at h
        exact hpending s h.2
      · rcases List.mem_append.mp he with he | he
        · exact hknown e he sid hsid
        · rw [List.mem_singleton] at he
          rw [he, about] at hsid
          exact hpending sid (Option.some.inj hsid ▸ found)

end SessionMachine

end XrdClient.Proto

namespace XrdClient.Session

open XrdClient.Lib
open XrdClient.Proto

/-- The letters that a thread has in hand. -/
def Phase.letters : Phase → List Letter
  | .acting letters => letters
  | .resting rest => rest
  | .sending _ _ (.act rest) | .queued (.act rest) => rest
  | _ => []

/-- A letter for the request of mailbox `b`: an event about a stream was produced for it. -/
def Rightful (b : Nat) (letter : Letter) : Prop :=
  ∀ e, letter.post = .event e → e.stream ≠ none → letter.about = some b

namespace Shared

/-! ## What is where -/

/-- The mailbox in the inbox is that of the request that has the stream. -/
def Placed (s : Shared) : Prop :=
  ∀ sid, s.machine.core.pending.has sid = true →
    ∃ b, s.inbox.get sid = some b ∧ s.owner.get sid = some b

/-- Everything in a mailbox or in a waiter's hand is for the request of that mailbox. -/
structure OwnMail (s : Shared) : Prop where
  filed : ∀ b, ∀ l ∈ s.box b, Rightful b l
  taken : ∀ t w, s.waiters.get t = some w → ∀ l ∈ w.phase.letters, Rightful w.box l

/-- The clean-up of a waiter, `_forget` or `_release`, leaves the streams of every other
request alone. -/
def SparesOthers (s : Shared) : Prop :=
  ∀ t w, s.waiters.get t = some w → ∀ sid, s.machine.core.pending.has sid = true →
    s.owner.get sid ≠ some w.box →
    (s.release w.sid w.box).machine.core.pending.get sid = s.machine.core.pending.get sid ∧
      ∀ abandon, (s.forget w.sid w.box abandon).machine.core.pending.get sid =
        s.machine.core.pending.get sid

theorem get_release_of_ne (core : MachineState) {sid other : Nat} (h : other ≠ sid) :
    (core.release sid).pending.get other = core.pending.get other := by
  unfold MachineState.release
  split
  · exact Assoc.get_del_of_ne _ h
  · rfl

theorem get_abandon_of_ne (core : MachineState) {sid other : Nat} (h : other ≠ sid) :
    (core.abandon sid).pending.get other = core.pending.get other := by
  unfold MachineState.abandon
  split
  · exact Assoc.get_del_of_ne _ h
  · rfl

/-- A clean-up acts on a stream only if it finds its own mailbox there. -/
theorem Placed.sparesOthers {s : Shared} (h : s.Placed) : s.SparesOthers := by
  intro t w hw sid hpending howner
  obtain ⟨b, hinbox, hb⟩ := h sid hpending
  by_cases hsid : sid = w.sid
  · have hnot : ¬ s.inbox.get w.sid = some w.box := by
      intro hown
      rw [hsid, hown] at hinbox
      rw [← hinbox] at hb
      exact howner hb
    refine ⟨by rw [release, if_neg hnot], fun abandon => by rw [forget, if_neg hnot]⟩
  · refine ⟨?_, fun abandon => ?_⟩
    · unfold release
      split
      · exact get_release_of_ne _ hsid
      · rfl
    · unfold forget
      split
      · cases abandon
        · exact get_release_of_ne _ hsid
        · exact get_abandon_of_ne _ hsid
      · rfl

/-! ## What the parts of a step change -/

/-- Streams may have gone and letters come, each to whom it is for. -/
structure Tidied (s s' : Shared) : Prop where
  up : MachineState.inBringup s.machine.core.state = false →
    MachineState.inBringup s'.machine.core.state = false
  pending : ∀ sid, s'.machine.core.pending.has sid = true → s.machine.core.pending.has sid = true
  events : s'.machine.core.events = s.machine.core.events
  due : s'.due = s.due
  inbox : s'.inbox = s.inbox
  owner : s'.owner = s.owner
  waiters : s'.waiters = s.waiters
  mail : ∀ b, ∀ l ∈ s'.box b, l ∈ s.box b ∨ Rightful b l

theorem Tidied.refl (s : Shared) : Tidied s s :=
  ⟨id, fun _ => id, rfl, rfl, rfl, rfl, rfl, fun _ _ => .inl⟩

/-- The queue, the locks, the paths and the record of the link play no part in it. -/
theorem Tidied.of_eq {s s' : Shared} (hm : s'.machine = s.machine) (hi : s'.inbox = s.inbox)
    (hb : s'.boxes = s.boxes) (hw : s'.waiters = s.waiters) (ho : s'.owner = s.owner)
    (hd : s'.due = s.due) : Tidied s s' := by
  refine ⟨by rw [hm]; exact id, by rw [hm]; exact fun _ => id, by rw [hm], hd, hi, ho, hw, ?_⟩
  intro b l hl
  rw [box, hb] at hl
  exact .inl hl

theorem Tidied.trans {s s' s'' : Shared} (h : Tidied s s') (h' : Tidied s' s'') : Tidied s s'' where
  up := fun hup => h'.up (h.up hup)
  pending := fun sid hp => h.pending sid (h'.pending sid hp)
  events := h'.events.trans h.events
  due := h'.due.trans h.due
  inbox := h'.inbox.trans h.inbox
  owner := h'.owner.trans h.owner
  waiters := h'.waiters.trans h.waiters
  mail := fun b l hl => (h'.mail b l hl).elim (h.mail b l) .inr

theorem Tidied.foldl {α : Type} {f : Shared → α → Shared} (hf : ∀ s a, Tidied s (f s a)) :
    ∀ (as : List α) (s : Shared), Tidied s (as.foldl f s) := by
  intro as
  induction as with
  | nil => exact fun s => .refl s
  | cons a as ih => exact fun s => (hf s a).trans (ih (f s a))

theorem rightful_echo (b : Nat) (why : Loss) : Rightful b ⟨.echo why, none⟩ := fun _ h => by cases h

theorem rightful_lost (b : Nat) (why : Loss) : Rightful b ⟨.lost why, none⟩ := fun _ h => by cases h

theorem box_file (s : Shared) (b other : Nat) (letter : Letter) :
    (s.file b letter).box other = if other = b then s.box b ++ [letter] else s.box other := by
  simp only [file, box, Assoc.get_set]
  split <;> rfl

theorem file_tidied (s : Shared) {b : Nat} {letter : Letter} (h : Rightful b letter) :
    Tidied s (s.file b letter) := by
  refine ⟨id, fun _ => id, rfl, rfl, rfl, rfl, rfl, fun other l hl => ?_⟩
  rw [box_file] at hl
  split at hl
  · rename_i heq
    rcases List.mem_append.mp hl with hl | hl
    · exact .inl (heq ▸ hl)
    · rw [List.mem_singleton] at hl
      exact .inr (heq ▸ hl ▸ h)
  · exact .inl hl

theorem failAll_tidied (s : Shared) (why : Loss) (own : Option Nat) :
    Tidied s (s.failAll why own) := by
  refine Tidied.foldl (fun s b => ?_) _ s
  split
  · exact .refl s
  · exact file_tidied s (rightful_echo b why)

theorem sessionLost_tidied (s : Shared) (why : Loss) (own : Nat) :
    Tidied s (s.sessionLost why own) :=
  (file_tidied s (rightful_lost own why)).trans (failAll_tidied _ why (some own))

/-- Who was waiting on a path that is given up, told why. -/
def told (s : Shared) (pathid : Nat) (why : Loss) (own : Option Nat) : Shared :=
  if s.paths.has pathid then
    (SessionMachine.streamsOn s.machine.core pathid).foldl (fun s sid =>
      match s.inbox.get sid with
      | some b => if some b = own then s else s.file b ⟨.echo why, none⟩
      | none => s) s
  else s

theorem told_tidied (s : Shared) (pathid : Nat) (why : Loss) (own : Option Nat) :
    Tidied s (s.told pathid why own) := by
  unfold told
  split
  · refine Tidied.foldl (fun s sid => ?_) _ s
    split
    · next b _ =>
      split
      · exact .refl s
      · exact file_tidied s (rightful_echo b why)
    · exact .refl s
  · exact .refl s

theorem closePath_tidied (s : Shared) (pathid : Nat) (why : Loss) (own : Option Nat) :
    Tidied s (s.closePath pathid why own) := by
  have htold := s.told_tidied pathid why own
  exact {
    up := fun hup => by
      simp only [closePath, SessionMachine.forgetPath, Books.releases_state]
      exact hup
    pending := fun sid hp => ((Books.releases_has _ _ sid).mp hp).1
    events := Books.releases_events _ _
    due := htold.due
    inbox := htold.inbox
    owner := htold.owner
    waiters := htold.waiters
    mail := htold.mail }

theorem queuePathOut_tidied (s : Shared) (p : Nat × Nat) : Tidied s (s.queuePathOut p) := by
  unfold queuePathOut
  split
  · exact .refl s
  · exact ⟨id, fun _ => id, rfl, rfl, rfl, rfl, rfl, fun _ _ => .inl⟩

theorem queueOut_tidied (s : Shared) (goodbye : Bool) : Tidied s (s.queueOut goodbye) := by
  unfold queueOut
  refine Tidied.trans ?_ (Tidied.foldl queuePathOut_tidied s.paths _)
  split
  · exact .refl s
  · exact ⟨id, fun _ => id, rfl, rfl, rfl, rfl, rfl, fun _ _ => .inl⟩

theorem sendFailed_tidied (s : Shared) (item : Queued) : Tidied s (s.sendFailed item) := by
  unfold sendFailed
  split
  · split
    · exact closePath_tidied s _ _ none
    · exact .refl s
  · refine Tidied.trans ?_ (failAll_tidied _ _ none)
    exact .of_eq rfl rfl rfl rfl rfl rfl

theorem sent_tidied (s : Shared) (item : Queued) : Tidied s (s.sent item) := by
  unfold sent
  split
  · exact .refl s
  · exact .of_eq rfl rfl rfl rfl rfl rfl

theorem sendItem_tidied (s : Shared) (item : Queued) (batch : List Queued) (ok : Bool) :
    Tidied s (s.sendItem item batch ok).1 := by
  unfold sendItem
  split
  · exact sent_tidied s item
  · exact sendFailed_tidied s item

theorem sendBatch_tidied : ∀ (batch : List Queued) (s : Shared) (failed : Bool) (oks : List Bool),
    Tidied s (s.sendBatch failed oks batch) := by
  intro batch
  induction batch with
  | nil => exact fun s _ _ => .refl s
  | cons item batch ih =>
    intro s failed oks
    unfold sendBatch
    split
    · exact ih s failed oks
    · split
      · exact (sent_tidied s item).trans (ih _ _ _)
      · exact (sendFailed_tidied s item).trans (ih _ _ _)

theorem drainOutq_tidied (s : Shared) (oks : List Bool) : Tidied s (s.drainOutq oks) := by
  refine Tidied.trans ?_ (sendBatch_tidied s.outq { s with outq := [] } false oks)
  exact .of_eq rfl rfl rfl rfl rfl rfl

theorem linkFailed_tidied (s : Shared) (pathid : Nat) (own : Option Nat) :
    Tidied s (s.linkFailed pathid own) := by
  unfold linkFailed
  split
  · split
    · exact closePath_tidied s _ _ own
    · exact .refl s
  · refine Tidied.trans ?_ (failAll_tidied _ _ own)
    exact .of_eq rfl rfl rfl rfl rfl rfl

theorem release_has_le (core : MachineState) (sid other : Nat)
    (h : (core.release sid).pending.has other = true) : core.pending.has other = true := by
  unfold MachineState.release at h
  split at h
  · rw [MachineState.has_del, Bool.and_eq_true] at h
    exact h.2
  · exact h

theorem release_tidied (s : Shared) (sid box : Nat) : Tidied s (s.release sid box) := by
  unfold release
  split
  · refine ⟨fun hup => ?_, release_has_le _ sid, release_events _ _, rfl, rfl, rfl, rfl,
      fun _ _ => .inl⟩
    show MachineState.inBringup (s.machine.core.release sid).state = false
    rw [MachineState.release_state]
    exact hup
  · exact .refl s

/-! ## One step -/

/-- What a run keeps, whatever the machine is sent. -/
structure Sorted (s : Shared) : Prop where
  up : MachineState.inBringup s.machine.core.state = false
  placed : s.Placed
  aligned : s.due.length = s.machine.core.events.length

/-- What it keeps as long as every read is parsed whole. -/
structure Tidy (s : Shared) : Prop extends Sorted s where
  drained : ∀ e ∈ s.machine.core.events, e.stream = none
  mail : s.OwnMail

theorem Tidied.sorted {s s' : Shared} (h : Tidied s s') (hs : s.Sorted) : s'.Sorted where
  up := h.up hs.up
  placed := fun sid hp => by
    rw [h.inbox, h.owner]
    exact hs.placed sid (h.pending sid hp)
  aligned := by rw [h.due, h.events]; exact hs.aligned

theorem Tidied.tidy {s s' : Shared} (h : Tidied s s') (hs : s.Tidy) : s'.Tidy where
  toSorted := h.sorted hs.toSorted
  drained := by rw [h.events]; exact hs.drained
  mail := {
    filed := fun b l hl => (h.mail b l hl).elim (hs.mail.filed b l) id
    taken := by rw [h.waiters]; exact hs.mail.taken }

theorem get_set_cases {κ α : Type} [DecidableEq κ] {d : Assoc κ α} {k j : κ} {v u : α}
    (h : (d.set k v).get j = some u) : u = v ∧ j = k ∨ d.get j = some u := by
  rw [Assoc.get_set] at h
  split at h
  · rename_i hj
    exact .inl ⟨(Option.some.inj h).symm, hj⟩
  · exact .inr h

theorem become_sorted {s : Shared} (h : s.Sorted) (t : Nat) (w : Waiter) (phase : Phase) :
    (s.become t w phase).Sorted := ⟨h.up, h.placed, h.aligned⟩

theorem become_tidy {s : Shared} (h : s.Tidy) (t : Nat) (w : Waiter) {phase : Phase}
    (hphase : ∀ l ∈ phase.letters, Rightful w.box l) : (s.become t w phase).Tidy where
  toSorted := become_sorted h.toSorted t w phase
  drained := h.drained
  mail := {
    filed := h.mail.filed
    taken := fun t' w' hw' => by
      rcases get_set_cases hw' with ⟨rfl, -⟩ | hw'
      · exact hphase
      · exact h.mail.taken t' w' hw' }

/-- A step that a run keeps to. -/
structure Keeps (s s' : Shared) : Prop where
  sorted : s.Sorted → s'.Sorted
  tidy : s.Tidy → s'.Tidy

theorem Keeps.refl (s : Shared) : Keeps s s := ⟨id, id⟩

theorem Tidied.keeps {s s' : Shared} (h : Tidied s s') : Keeps s s' := ⟨h.sorted, h.tidy⟩

/-- A thread's step: what the parts did, and where the thread is then. -/
theorem Tidied.become {s s' : Shared} (h : Tidied s s') {t : Nat} {w : Waiter}
    (hw : s.waiters.get t = some w) {phase : Phase}
    (hphase : ∀ l ∈ phase.letters, l ∈ w.phase.letters) : Keeps s (s'.become t w phase) where
  sorted := fun hs => become_sorted (h.sorted hs) t w phase
  tidy := fun hs => become_tidy (h.tidy hs) t w fun l hl => hs.mail.taken t w hw l (hphase l hl)

theorem letGo_tidied (s : Shared) (pathid : Nat) : Tidied s (s.letGo pathid) :=
  .of_eq rfl rfl rfl rfl rfl rfl

/-- A step of a thread that goes on with nothing in hand. -/
theorem Tidied.empty {s s' : Shared} (h : Tidied s s') {t : Nat} {w : Waiter}
    (hw : s.waiters.get t = some w) {phase : Phase} (hphase : phase.letters = []) :
    Keeps s (s'.become t w phase) :=
  h.become hw fun l hl => by
    rw [hphase] at hl
    cases hl

theorem leave_keeps {s s' : Shared} (h : Keeps s s') (t : Nat) : Keeps s (s'.leave t) where
  sorted := fun hs => ⟨(h.sorted hs).up, (h.sorted hs).placed, (h.sorted hs).aligned⟩
  tidy := fun hs => {
    toSorted := ⟨(h.sorted hs.toSorted).up, (h.sorted hs.toSorted).placed, (h.sorted hs.toSorted).aligned⟩
    drained := (h.tidy hs).drained
    mail := {
      filed := (h.tidy hs).mail.filed
      taken := fun t' w' hw' => by
        have hget : (s'.waiters.del t).get t' = some w' := hw'
        rw [Assoc.get_del] at hget
        split at hget
        · cases hget
        · exact (h.tidy hs).mail.taken t' w' hget } }

/-! ### Sending -/

theorem send_keeps (s : Shared) (t : Nat) (ok : Bool) : Keeps s (s.send t ok) := by
  unfold send
  split
  · next w hw =>
    split
    · next item batch failed next hphase =>
      refine (sendItem_tidied s item batch ok).become hw fun l hl => ?_
      rw [hphase]
      cases next <;> exact hl
    · exact .refl s
  · exact .refl s

theorem after_keeps {s s' : Shared} (h : Tidied s s') {t : Nat} {w : Waiter}
    (hw : s.waiters.get t = some w) {batch : List Queued} {failed : Bool} {next : Next}
    (hphase : w.phase = .sending batch failed next) : Keeps s (s'.after t w next) := by
  cases next with
  | wait => exact h.empty hw rfl
  | act rest => exact h.become hw fun l hl => by rw [hphase]; exact hl
  | read link => exact h.empty hw rfl

theorem sendDone_keeps (s : Shared) (t : Nat) : Keeps s (s.sendDone t) := by
  unfold sendDone
  split
  · next w hw =>
    split
    · next failed next hphase =>
      split
      · have hqueue : Tidied s { s with outq := [] } := .of_eq rfl rfl rfl rfl rfl rfl
        refine hqueue.become hw ?_
        intro l hl
        rw [hphase]
        cases next <;> exact hl
      · have hlet : Tidied s { s with sender := none } := .of_eq rfl rfl rfl rfl rfl rfl
        dsimp only
        split
        · split
          · exact ((hlet.trans (linkFailed_tidied _ _ _)).trans (letGo_tidied _ _)).empty hw rfl
          · exact after_keeps hlet hw hphase
        · exact after_keeps hlet hw hphase
    · exact .refl s
  · exact .refl s

theorem takeSendLock_keeps (s : Shared) (t : Nat) : Keeps s (s.takeSendLock t) := by
  unfold takeSendLock
  split
  · next w hw _ =>
    split
    · next next hphase =>
      have hlock : Tidied s { s with sender := some t, outq := [] } := .of_eq rfl rfl rfl rfl rfl rfl
      refine hlock.become hw ?_
      intro l hl
      rw [hphase]
      cases next <;> exact hl
    · exact .refl s
  · exact .refl s

theorem thrown_letters (next : Next) : (thrown next).letters = [] := by
  cases next <;> rfl

theorem sendRaises_keeps (s : Shared) (t : Nat) : Keeps s (s.sendRaises t) := by
  unfold sendRaises
  split
  · next w hw =>
    dsimp only
    split
    · next item _ _ next _ =>
      refine Tidied.empty ?_ hw (thrown_letters next)
      split
      · exact .of_eq rfl rfl rfl rfl rfl rfl
      · exact .of_eq rfl rfl rfl rfl rfl rfl
    · next next _ =>
      refine Tidied.empty ?_ hw (thrown_letters next)
      split
      · exact letGo_tidied s _
      · exact .refl s
    · exact .refl s
  · exact .refl s

/-! ### Waiting -/

/-- The mailbox is emptied into the waiter's hand. -/
theorem take_keeps {s : Shared} {t : Nat} {w : Waiter} :
    Keeps s ({ s with boxes := s.boxes.set w.box [] }.become t w (.acting (s.box w.box))) := by
  have htaken : Tidied s { s with boxes := s.boxes.set w.box [] } := by
    refine ⟨id, fun _ => id, rfl, rfl, rfl, rfl, rfl, fun b l hl => ?_⟩
    simp only [box, Assoc.get_set] at hl
    split at hl
    · cases hl
    · exact .inl hl
  exact {
    sorted := fun hs => become_sorted (htaken.sorted hs) t w _
    tidy := fun hs => become_tidy (htaken.tidy hs) t w (hs.mail.filed w.box) }

theorem look_keeps (s : Shared) (t : Nat) : Keeps s (s.look t) := by
  unfold look
  split
  · next w hw =>
    split
    · split
      · exact take_keeps
      split
      · exact (Tidied.refl s).empty hw rfl
      split
      · exact .refl s
      · have hread : Tidied s { s with reading := s.reading ++ [w.pathid] } :=
          .of_eq rfl rfl rfl rfl rfl rfl
        refine hread.empty hw ?_
        split <;> rfl
    · exact .refl s
  · exact .refl s

theorem giveUp_keeps (s : Shared) (t : Nat) (stall : Bool) : Keeps s (s.giveUp t stall) := by
  unfold giveUp
  split
  · next w hw =>
    split
    · split
      · exact .refl s
      · have hbroken : Tidied s { s with broken := s.broken || (stall && decide (w.pathid = 0)) } :=
          .of_eq rfl rfl rfl rfl rfl rfl
        exact hbroken.empty hw rfl
    · exact .refl s
  · exact .refl s

theorem readFails_keeps (s : Shared) (t : Nat) (how : ReadFailure) :
    Keeps s (s.readFails t how) := by
  unfold readFails
  split
  · next w hw =>
    split
    · cases how with
      | expired => exact (letGo_tidied s _).empty hw rfl
      | stalled =>
        refine Tidied.empty (Tidied.trans ?_ (letGo_tidied _ _)) hw rfl
        split
        · exact closePath_tidied s _ _ _
        · exact .of_eq rfl rfl rfl rfl rfl rfl
      | link =>
        dsimp only
        split
        · exact (letGo_tidied s _).empty hw rfl
        · exact ((linkFailed_tidied s _ _).trans (letGo_tidied _ _)).empty hw rfl
    · exact .refl s
  · exact .refl s

theorem act_keeps (s : Shared) (t : Nat) (stays : Bool) : Keeps s (s.act t stays) := by
  unfold act
  split
  · next w hw =>
    split
    · exact (Tidied.refl s).empty hw rfl
    · next letter rest hphase =>
      have hrest : ∀ l ∈ rest, l ∈ w.phase.letters := fun l hl => by
        rw [hphase]
        exact List.mem_cons_of_mem _ hl
      split
      all_goals first
        | exact (Tidied.refl s).empty hw rfl
        | exact (Tidied.refl s).become hw hrest
        | (refine (Tidied.refl s).become hw fun l hl => ?_
           split at hl
           · exact hrest l hl
           · cases hl)
    · exact .refl s
  · exact .refl s

/-! ### Streams let go -/

theorem letStream_keeps (s : Shared) (t : Nat) : Keeps s (s.letStream t) := by
  unfold letStream
  split
  · next w hw =>
    split
    · exact (release_tidied s _ _).empty hw rfl
    · exact .refl s
  · exact .refl s

theorem resume_tidied (s : Shared) (sid : Nat) :
    Tidied s (s.onCore (s.machine.core.resume sid).1) := by
  have hsame := s.machine.core.resume_streams sid
  refine ⟨fun hup => ?_, fun other hp => ?_, ?_, rfl, rfl, rfl, rfl, fun _ _ => .inl⟩
  · simp only [onCore, hsame.state]
    exact hup
  · simp only [onCore, hsame.pending] at hp
    exact hp
  · simp only [onCore, MachineState.resume]
    split
    · rfl
    · split <;> rfl

theorem wakeUp_keeps (s : Shared) (t : Nat) (cancelled : Bool) :
    Keeps s (s.wakeUp t cancelled) := by
  unfold wakeUp
  split
  · next w hw =>
    split
    · next rest hphase =>
      have hrest : ∀ l ∈ rest, l ∈ w.phase.letters := fun l hl => by
        rw [hphase]
        exact hl
      split
      · exact (Tidied.refl s).become hw hrest
      split
      · exact (Tidied.refl s).empty hw rfl
      split
      · exact (release_tidied s _ _).empty hw rfl
      · have hresume := resume_tidied s w.sid
        split
        · next heq =>
          rw [heq] at hresume
          exact hresume.empty hw rfl
        · next heq =>
          rw [heq] at hresume
          exact (hresume.trans (queueOut_tidied _ _)).become hw hrest
    · exact .refl s
  · exact .refl s

theorem abandon_has {core : MachineState} (sid other : Nat)
    (h : (core.abandon sid).pending.has other = true) :
    other ≠ sid ∧ core.pending.has other = true := by
  unfold MachineState.abandon at h
  split at h
  · rw [MachineState.has_del, Bool.and_eq_true, decide_eq_true_eq] at h
    exact h
  · rename_i hno
    exact ⟨fun heq => hno (heq ▸ h), h⟩

theorem release_has_ne {core : MachineState} (sid other : Nat)
    (h : (core.release sid).pending.has other = true) :
    other ≠ sid ∧ core.pending.has other = true := by
  unfold MachineState.release at h
  split at h
  · rw [MachineState.has_del, Bool.and_eq_true, decide_eq_true_eq] at h
    exact h
  · rename_i hno
    exact ⟨fun heq => hno (heq ▸ h), h⟩

/-- A waiter's stream goes from the machine and from the inbox together. -/
theorem forget_keeps (s : Shared) (sid box : Nat) (abandon : Bool) :
    Keeps s (s.forget sid box abandon) := by
  unfold forget
  split
  · have hcore : ∀ core : MachineState, core.state = s.machine.core.state →
        core.events = s.machine.core.events →
        (∀ other, core.pending.has other = true →
          other ≠ sid ∧ s.machine.core.pending.has other = true) →
        Keeps s ({ s with inbox := s.inbox.del sid }.onCore core) := by
      intro core hstate hevents hhas
      have hsorted : s.Sorted → ({ s with inbox := s.inbox.del sid }.onCore core).Sorted :=
        fun hs => {
          up := by simp only [onCore, hstate]; exact hs.up
          placed := fun other hp => by
            obtain ⟨hne, hpending⟩ := hhas other hp
            obtain ⟨b, hinbox, howner⟩ := hs.placed other hpending
            exact ⟨b, (Assoc.get_del_of_ne _ hne).trans hinbox, howner⟩
          aligned := by simp only [onCore, hevents]; exact hs.aligned }
      exact ⟨hsorted, fun hs => ⟨hsorted hs.toSorted, by simp only [onCore, hevents]; exact hs.drained,
        ⟨hs.mail.filed, hs.mail.taken⟩⟩⟩
    cases abandon with
    | false =>
      exact hcore _ (MachineState.release_state _ _) (release_events _ _) fun other => release_has_ne sid other
    | true =>
      refine hcore _ (MachineState.abandon_state _ _) ?_ fun other => abandon_has sid other
      show (s.machine.core.abandon sid).events = s.machine.core.events
      unfold MachineState.abandon
      split <;> rfl
  · exact .refl s

theorem Keeps.trans {s s' s'' : Shared} (h : Keeps s s') (h' : Keeps s' s'') : Keeps s s'' :=
  ⟨fun hs => h'.sorted (h.sorted hs), fun hs => h'.tidy (h.tidy hs)⟩

theorem Keeps.empty {s s' : Shared} (h : Keeps s s') (t : Nat) (w : Waiter) {phase : Phase}
    (hphase : phase.letters = []) : Keeps s (s'.become t w phase) where
  sorted := fun hs => become_sorted (h.sorted hs) t w phase
  tidy := fun hs => become_tidy (h.tidy hs) t w fun l hl => by
    rw [hphase] at hl
    cases hl

theorem goOut_keeps (s : Shared) (t : Nat) : Keeps s (s.goOut t) := by
  unfold goOut
  split
  · next w hw =>
    split
    · exact leave_keeps (forget_keeps s _ _ false) t
    · dsimp only
      split
      · exact (forget_keeps s _ _ true).empty t w rfl
      · exact leave_keeps (forget_keeps s _ _ true) t
    · exact leave_keeps (closePath_tidied s _ _ none).keeps t
    · exact .refl s
  · exact .refl s

/-! ### Everybody else -/

theorem adoptPath_keeps (s : Shared) (pathid : Nat) : Keeps s (s.adoptPath pathid) := by
  unfold adoptPath
  split
  · exact .refl s
  · exact Tidied.keeps (.of_eq rfl rfl rfl rfl rfl rfl)

/-- The machine reported something about no stream. -/
theorem onMachine_keeps (s : Shared) {m : SessionMachine}
    (hup : MachineState.inBringup s.machine.core.state = false →
      MachineState.inBringup m.core.state = false)
    (hpending : ∀ sid, m.core.pending.has sid = true → s.machine.core.pending.has sid = true)
    {es : List Event} (hevents : m.core.events = s.machine.core.events ++ es)
    (hes : ∀ e ∈ es, e.stream = none) : Keeps s (s.onMachine m) := by
  have hsorted : s.Sorted → (s.onMachine m).Sorted := fun hs => {
    up := hup hs.up
    placed := fun sid hp => hs.placed sid (hpending sid hp)
    aligned := by simp [onMachine, hevents, hs.aligned] }
  refine ⟨hsorted, fun hs => ⟨hsorted hs.toSorted, fun e he => ?_, ⟨hs.mail.filed, hs.mail.taken⟩⟩⟩
  have hmem : e ∈ s.machine.core.events ++ es := hevents ▸ he
  exact (List.mem_append.mp hmem).elim (hs.drained e) (hes e)

theorem closed_tidied (s : Shared) :
    Tidied s (s.onCore { s.machine.core with state := .closed }) :=
  ⟨fun _ => rfl, fun _ => id, rfl, rfl, rfl, rfl, rfl, fun _ _ => .inl⟩

theorem close_keeps (s : Shared) (oks : List Bool) : Keeps s (s.close oks) := by
  obtain ⟨hup, hpending, es, hevents, hes⟩ := s.machine.core.close_reports
  have hmachine : Keeps s (s.onMachine { s.machine with core := s.machine.core.close.1 }) :=
    onMachine_keeps s hup (fun sid hp => by rw [← hpending]; exact hp) hevents hes
  unfold close
  dsimp only
  split
  · rcases hclose : s.machine.core.close with ⟨core, raised⟩
    rw [hclose] at hmachine
    cases raised with
    | some e =>
      dsimp only
      rw [if_neg (by simp)]
      exact hmachine.trans (closed_tidied _).keeps
    | none =>
      have hclosed := (hmachine.trans (queueOut_tidied _ true).keeps).trans (closed_tidied _).keeps
      dsimp only
      split
      · exact hclosed.trans (drainOutq_tidied _ oks).keeps
      · exact hclosed
  · rw [if_neg (by simp)]
    exact (closed_tidied s).keeps

theorem closeLinks_keeps (s : Shared) : Keeps s s.closeLinks := by
  unfold closeLinks
  split
  · exact Tidied.keeps (.of_eq rfl rfl rfl rfl rfl rfl)
  · exact .refl s

theorem bulkTake_keeps (s : Shared) (t : Nat) : Keeps s (s.bulkTake t) := by
  unfold bulkTake
  split
  · exact .refl s
  · have htaken : Tidied s { s with bulk := some ⟨t, none⟩, reading := [0] } :=
      .of_eq rfl rfl rfl rfl rfl rfl
    exact (htaken.trans (queueOut_tidied _ _)).keeps

theorem bulkLend_keeps (s : Shared) (settings : BulkSettings) (oks : List Bool) :
    Keeps s (s.bulkLend settings oks) := by
  unfold bulkLend
  split
  · refine Tidied.keeps ((drainOutq_tidied s oks).trans ?_)
    exact .of_eq rfl rfl rfl rfl rfl rfl
  · exact .refl s

theorem bulkCall_keeps (s : Shared) (call : BulkCall) (incoming : Bytes) (ticks : List Tick) :
    Keeps s (s.bulkCall call incoming ticks) := by
  unfold bulkCall
  split
  · exact Tidied.keeps ⟨id, fun _ => id, rfl, rfl, rfl, rfl, rfl, fun _ _ => .inl⟩
  · exact .refl s

theorem bulkEnd_keeps (s : Shared) (how : BulkEnd) : Keeps s (s.bulkEnd how) := by
  unfold bulkEnd
  split
  · have hended : ∀ s' : Shared, Tidied s s' →
        Keeps s { s'.letGo 0 with bulk := none, sender := none } := by
      intro s' h
      refine Tidied.keeps (h.trans ?_)
      exact .of_eq rfl rfl rfl rfl rfl rfl
    refine hended _ ?_
    cases how with
    | ok => exact .refl s
    | connection => exact .of_eq rfl rfl rfl rfl rfl rfl
    | cancelled =>
      dsimp only
      split
      · exact closed_tidied s
      · exact .refl s
    | other => exact .refl s
  · exact .refl s

/-- A new request has a new mailbox, which the inbox and the record agree on. -/
theorem start_keeps (s : Shared) (t : Nat) (request : Request) (path : Text)
    (arrive onPath : Bool) : Keeps s (s.start t request path arrive onPath) := by
  unfold start
  split
  · exact .refl s
  split
  · exact .refl s
  have hsubmit := s.machine.core.submit_pending request path arrive
  have hevents := s.machine.core.submit_events request path arrive
  rcases hsub : s.machine.core.submit request path arrive with ⟨e | sid, core⟩
  all_goals
    rw [hsub] at hsubmit hevents
    obtain ⟨hok, herror, hstate⟩ := hsubmit
    dsimp only at hok herror hstate hevents
  · refine Tidied.keeps ⟨fun hup => ?_, fun other hp => ?_, hevents, rfl, rfl, rfl, rfl, fun _ _ => .inl⟩
    · simp only [onCore, hstate]
      exact hup
    · simp only [onCore, herror e rfl] at hp
      exact hp
  · have hnew : Keeps s { s.onCore core with
        inbox := s.inbox.set sid s.nextBox
        boxes := s.boxes.set s.nextBox []
        nextBox := s.nextBox + 1
        owner := s.owner.set sid s.nextBox } := by
      have hsorted : s.Sorted → Sorted { s.onCore core with
          inbox := s.inbox.set sid s.nextBox
          boxes := s.boxes.set s.nextBox []
          nextBox := s.nextBox + 1
          owner := s.owner.set sid s.nextBox } := fun hs => {
        up := by simp only [onCore, hstate]; exact hs.up
        placed := fun other hp => by
          by_cases hother : other = sid
          · exact ⟨s.nextBox, by rw [hother, Assoc.get_set_self], by rw [hother, Assoc.get_set_self]⟩
          · have hpending := hok sid rfl other
            simp only [onCore] at hp
            rw [hp, decide_eq_false hother, Bool.false_or] at hpending
            obtain ⟨b, hinbox, howner⟩ := hs.placed other hpending.symm
            exact ⟨b, by rw [Assoc.get_set_of_ne _ _ hother, hinbox],
              by rw [Assoc.get_set_of_ne _ _ hother, howner]⟩
        aligned := by simp only [onCore, hevents]; exact hs.aligned }
      refine ⟨hsorted, fun hs => ⟨hsorted hs.toSorted, by simp only [onCore, hevents]; exact hs.drained,
        ⟨fun b l hl => ?_, hs.mail.taken⟩⟩⟩
      simp only [box, Assoc.get_set] at hl
      split at hl
      · cases hl
      · exact hs.mail.filed b l hl
    have hqueued := hnew.trans (queueOut_tidied _ false).keeps
    dsimp only
    split
    · have hlock : ∀ s' : Shared, Keeps s s' → Keeps s { s' with sender := some t, outq := [] } :=
        fun s' h => h.trans (Tidied.keeps (.of_eq rfl rfl rfl rfl rfl rfl))
      exact (hlock _ hqueued).empty t _ rfl
    · exact hqueued.empty t _ rfl

/-! ### Events -/

/-- Each event is for the request whose mailbox the inbox has. -/
def Addressed (s : Shared) (events : List (Event × Option Nat)) : Prop :=
  ∀ e ∈ events, ∀ sid, e.1.stream = some sid → ∃ b, s.inbox.get sid = some b ∧ e.2 = some b

theorem routeEvent_quiet (own : Nat) (s : Shared) {e : Event × Option Nat} (h : e.1.stream = none) :
    Tidied s (routeEvent own s e) := by
  unfold routeEvent
  rw [h]
  dsimp only
  split
  · exact .of_eq rfl rfl rfl rfl rfl rfl
  · exact closePath_tidied s _ _ _
  · exact sessionLost_tidied s _ _
  · exact sessionLost_tidied s _ _
  · exact .refl s

theorem routeEvents_tidied (own : Nat) : ∀ (events : List (Event × Option Nat)) (s : Shared),
    s.Addressed events → Tidied s (events.foldl (routeEvent own) s) := by
  intro events
  induction events with
  | nil => exact fun s _ => .refl s
  | cons e events ih =>
    intro s h
    have hone : Tidied s (routeEvent own s e) := by
      cases hstream : e.1.stream with
      | none => exact routeEvent_quiet own s hstream
      | some sid =>
        obtain ⟨b, hinbox, habout⟩ := h e List.mem_cons_self sid hstream
        have hfiled : routeEvent own s e = s.file b ⟨.event e.1, e.2⟩ := by
          simp only [routeEvent, hstream, hinbox]
        rw [hfiled]
        exact file_tidied s fun _ _ _ => habout
    refine hone.trans (ih _ fun e' he' sid hsid => ?_)
    rw [hone.inbox]
    exact h e' (List.mem_cons_of_mem _ he') sid hsid

/-- An event that finds no mailbox gets one of its own; its stream is not pending. -/
theorem routeEvent_sorted (own : Nat) {s : Shared} (hs : s.Sorted) (e : Event × Option Nat) :
    (routeEvent own s e).Sorted := by
  cases hstream : e.1.stream with
  | none => exact (routeEvent_quiet own s hstream).sorted hs
  | some sid =>
    simp only [routeEvent, hstream]
    split
    · exact ⟨hs.up, hs.placed, hs.aligned⟩
    · next hinbox =>
      refine ⟨hs.up, fun other hp => ?_, hs.aligned⟩
      obtain ⟨b, hother, howner⟩ := hs.placed other hp
      have hne : other ≠ sid := by
        rintro rfl
        rw [hinbox] at hother
        cases hother
      exact ⟨b, by rw [Assoc.get_set_of_ne _ _ hne, hother], howner⟩

theorem routeEvents_sorted (own : Nat) : ∀ (events : List (Event × Option Nat)) {s : Shared},
    s.Sorted → (events.foldl (routeEvent own) s).Sorted := by
  intro events
  induction events with
  | nil => exact fun hs => hs
  | cons e events ih => exact fun hs => ih (routeEvent_sorted own hs e)

theorem mem_zip_map {α β : Type} {f : α → β} {e : α × β} :
    ∀ {es : List α}, e ∈ es.zip (es.map f) → e.1 ∈ es ∧ e.2 = f e.1 := by
  intro es
  induction es with
  | nil => intro h; cases h
  | cons a es ih =>
    intro h
    rcases List.mem_cons.mp h with rfl | h
    · exact ⟨List.mem_cons_self, rfl⟩
    · exact ⟨List.mem_cons_of_mem _ (ih h).1, (ih h).2⟩

/-- A read that the machine refuses leaves no event about a stream behind. -/
def Parses (s : Shared) : Move → Prop
  | .feed t data => ∀ w link, s.waiters.get t = some w → w.phase = .reading link →
      s.current w.pathid link = true → (s.machine.receiveData data w.pathid).2 ≠ none →
      ∀ e ∈ (s.machine.receiveData data w.pathid).1.core.events, e.stream = none
  | _ => True

/-- The machine's queue is emptied. -/
def drained (s : Shared) : Shared :=
  { s.onCore { s.machine.core with events := [] } with due := [] }

/-- The read is put on record. -/
def noted (s : Shared) (pathid : Nat) (data : Bytes) : Shared :=
  if pathid = 0 then { s with line := s.line ++ [.fed data] } else s

theorem noted_machine (s : Shared) (pathid : Nat) (data : Bytes) :
    (s.noted pathid data).machine = s.machine := by
  unfold noted
  split <;> rfl

theorem noted_tidied (s : Shared) (pathid : Nat) (data : Bytes) : Tidied s (s.noted pathid data) := by
  unfold noted
  split
  · exact .of_eq rfl rfl rfl rfl rfl rfl
  · exact .refl s

/-- The machine, once it is fed on a link. -/
def fed (s : Shared) (pathid : Nat) (data : Bytes) : Shared :=
  (s.noted pathid data).onMachine (s.machine.receiveData data pathid).1

/-- What is read off a link that is the path's goes to the machine. -/
theorem feed_pump {s : Shared} {t link : Nat} {w : Waiter} (hw : s.waiters.get t = some w)
    (hphase : w.phase = .reading link) (hcurrent : s.current w.pathid link = true) (data : Bytes) :
    s.feed t data = match (s.noted w.pathid data).pump w.pathid data with
      | (some _, _, s) => (s.letGo w.pathid).become t w (.leaving true)
      | (none, events, s) =>
          (events.foldl (routeEvent w.box) (s.letGo w.pathid)).become t w .waiting := by
  have hnot : ¬ s.current w.pathid link = false := by
    rw [hcurrent]
    exact Bool.noConfusion
  simp only [feed, hw, hphase, if_neg hnot]
  rfl

/-- What a reader does with the bytes it comes back with. -/
theorem feed_reading {s : Shared} {t link : Nat} {w : Waiter} (hw : s.waiters.get t = some w)
    (hphase : w.phase = .reading link) (hcurrent : s.current w.pathid link = true) (data : Bytes) :
    (s.feed t data) = if (s.machine.receiveData data w.pathid).2 ≠ none then
        ((s.fed w.pathid data).letGo w.pathid).become t w (.leaving true)
      else (((s.fed w.pathid data).machine.core.events.zip (s.fed w.pathid data).due).foldl
        (routeEvent w.box) ((s.fed w.pathid data).drained.letGo w.pathid)).become t w .waiting := by
  rw [feed_pump hw hphase hcurrent]
  unfold pump fed
  rw [noted_machine]
  cases (s.machine.receiveData data w.pathid).2 with
  | none => rfl
  | some e => rfl

theorem feed_stale {s : Shared} {t : Nat} {data : Bytes}
    (h : ¬ ∃ w link, s.waiters.get t = some w ∧ w.phase = .reading link ∧
      s.current w.pathid link = true) : Keeps s (s.feed t data) := by
  unfold feed
  split
  · next w hw =>
    split
    · next link hphase =>
      rw [if_pos (by simpa using fun hcurrent => h ⟨w, link, hw, hphase, hcurrent⟩)]
      exact (letGo_tidied s _).empty hw rfl
    · exact .refl s
  · exact .refl s

/-- The machine's new events are noted with the requests they are for. -/
theorem fed_sorted {s : Shared} (hs : s.Sorted) (pathid : Nat) (data : Bytes) :
    (s.fed pathid data).Sorted := by
  obtain ⟨hup, hpending, es, hevents, -⟩ := s.machine.receiveData_reports hs.up data pathid
  have hnoted := (noted_tidied s pathid data).sorted hs
  exact {
    up := hup
    placed := fun sid hp => hnoted.placed sid (by rw [noted_machine]; exact hpending sid hp)
    aligned := by simp [fed, onMachine, hevents, hnoted.aligned, noted_machine] }

/-- With nothing left over from before, what a read brings is about streams that were
pending when it came, and the inbox has not changed since. -/
theorem fed_addressed {s : Shared} (hs : s.Tidy) (pathid : Nat) (data : Bytes) :
    s.Addressed ((s.fed pathid data).machine.core.events.zip (s.fed pathid data).due) := by
  obtain ⟨-, -, es, hevents, hknown⟩ := s.machine.receiveData_reports hs.up data pathid
  have hdue : (s.fed pathid data).due = s.due ++ es.map fun e => e.stream.bind s.owner.get := by
    simp only [fed, onMachine, noted_machine, (noted_tidied s pathid data).due,
      (noted_tidied s pathid data).owner, hevents, List.drop_left]
  intro e he sid hsid
  rw [hdue, fed, onMachine, hevents, List.zip_append hs.aligned.symm] at he
  rcases List.mem_append.mp he with he | he
  · rw [hs.drained e.1 (List.of_mem_zip he).1] at hsid
    cases hsid
  · obtain ⟨hmem, habout⟩ := mem_zip_map he
    obtain ⟨b, hinbox, howner⟩ := hs.placed sid (hknown e.1 hmem sid hsid)
    exact ⟨b, hinbox, by rw [habout, hsid, Option.bind_some, howner]⟩

theorem drained_sorted {s : Shared} (hs : s.Sorted) : s.drained.Sorted := ⟨hs.up, hs.placed, rfl⟩

theorem feed_sorted {s : Shared} (hs : s.Sorted) (t : Nat) (data : Bytes) :
    (s.feed t data).Sorted := by
  by_cases hreading : ∃ w link, s.waiters.get t = some w ∧ w.phase = .reading link ∧
      s.current w.pathid link = true
  · obtain ⟨w, link, hw, hphase, hcurrent⟩ := hreading
    have hfed := fed_sorted hs w.pathid data
    rw [feed_reading hw hphase hcurrent]
    split
    · exact become_sorted ((letGo_tidied _ _).sorted hfed) t w _
    · have hdrained := (letGo_tidied _ w.pathid).sorted (drained_sorted hfed)
      exact become_sorted (routeEvents_sorted w.box _ hdrained) t w _
  · exact (feed_stale hreading).sorted hs

theorem feed_tidy {s : Shared} (hs : s.Tidy) (t : Nat) (data : Bytes)
    (hparses : s.Parses (.feed t data)) : (s.feed t data).Tidy := by
  by_cases hreading : ∃ w link, s.waiters.get t = some w ∧ w.phase = .reading link ∧
      s.current w.pathid link = true
  · obtain ⟨w, link, hw, hphase, hcurrent⟩ := hreading
    have hfed := fed_sorted hs.toSorted w.pathid data
    have hmail := ((noted_tidied s w.pathid data).tidy hs).mail
    rw [feed_reading hw hphase hcurrent]
    split
    · next hraised =>
      have hleft : (s.fed w.pathid data).Tidy :=
        ⟨hfed, hparses w link hw hphase hcurrent hraised, ⟨hmail.filed, hmail.taken⟩⟩
      exact become_tidy ((letGo_tidied _ _).tidy hleft) t w (by simp [Phase.letters])
    · have hleft : (s.fed w.pathid data).drained.Tidy :=
        ⟨drained_sorted hfed, by simp [drained, onCore], ⟨hmail.filed, hmail.taken⟩⟩
      have haddressed := fed_addressed hs w.pathid data
      have hinbox : ((s.fed w.pathid data).drained.letGo w.pathid).inbox = s.inbox :=
        (noted_tidied s w.pathid data).inbox
      refine become_tidy ((routeEvents_tidied w.box _ _ ?_).tidy
        ((letGo_tidied _ _).tidy hleft)) t w (by simp [Phase.letters])
      intro e he sid hsid
      rw [hinbox]
      exact haddressed e he sid hsid
  · exact (feed_stale hreading).tidy hs

/-! ## Whole runs -/

/-- Every step keeps what a run keeps, and a step that reads, as long as it parses. -/
theorem step_keeps (s : Shared) (x : Move) :
    (s.Sorted → (s.step x).Sorted) ∧ (s.Parses x → s.Tidy → (s.step x).Tidy) := by
  have hof : ∀ {s' : Shared}, Keeps s s' →
      (s.Sorted → s'.Sorted) ∧ (s.Parses x → s.Tidy → s'.Tidy) :=
    fun h => ⟨h.sorted, fun _ => h.tidy⟩
  cases x with
  | start t request path arrive onPath => exact hof (start_keeps s t request path arrive onPath)
  | send t ok => exact hof (send_keeps s t ok)
  | sendDone t => exact hof (sendDone_keeps s t)
  | takeSendLock t => exact hof (takeSendLock_keeps s t)
  | sendRaises t => exact hof (sendRaises_keeps s t)
  | look t => exact hof (look_keeps s t)
  | giveUp t stall => exact hof (giveUp_keeps s t stall)
  | feed t data => exact ⟨fun hs => feed_sorted hs t data, fun hparses hs => feed_tidy hs t data hparses⟩
  | readFails t how => exact hof (readFails_keeps s t how)
  | act t stays => exact hof (act_keeps s t stays)
  | letStream t => exact hof (letStream_keeps s t)
  | wakeUp t cancelled => exact hof (wakeUp_keeps s t cancelled)
  | goOut t => exact hof (goOut_keeps s t)
  | adoptPath pathid => exact hof (adoptPath_keeps s pathid)
  | close oks => exact hof (close_keeps s oks)
  | closeLinks => exact hof (closeLinks_keeps s)
  | bulkTake t => exact hof (bulkTake_keeps s t)
  | bulkLend settings oks => exact hof (bulkLend_keeps s settings oks)
  | bulkCall call incoming ticks => exact hof (bulkCall_keeps s call incoming ticks)
  | bulkEnd how => exact hof (bulkEnd_keeps s how)

theorem opened_tidy {m : SessionMachine} (hm : Up m) : (opened m).Tidy where
  up := by
    show MachineState.inBringup m.core.state = false
    rw [hm.ready]
    rfl
  placed := fun sid hp => by
    rw [opened, hm.pending] at hp
    cases hp
  aligned := by simp [opened, hm.events]
  drained := by simp [opened, hm.events]
  mail := ⟨fun b l hl => (by cases hl), fun t w hw => (by cases hw)⟩

theorem eachMove_true : ∀ (xs : List Move) (s : Shared), EachMove (fun _ _ => True) s xs := by
  intro xs
  induction xs with
  | nil => exact fun _ => trivial
  | cons x xs ih => exact fun s => ⟨trivial, ih _⟩

/-- **Whose mail is in a mailbox, and whose stream a clean-up lets go.**  In every run of
every number of threads, no `_forget` and no `_release` touches a stream that another
request has by then.  And if no read has a reply that the machine refuses behind one that
it reported, every event that is in a mailbox or in a waiter's hand was produced for the
request of that mailbox. -/
theorem mailboxes_owned {m : SessionMachine} (hm : Up m) (moves : List Move) :
    ((opened m).run moves).SparesOthers ∧
      (EachMove Parses (opened m) moves → ((opened m).run moves).OwnMail) := by
  refine ⟨Placed.sparesOthers ?_, fun hparses => ?_⟩
  · have hsorted := run_invariant (I := Sorted) (fun s x _ hs => (step_keeps s x).1 hs)
      (eachMove_true moves (opened m)) (opened_tidy hm).toSorted
    exact hsorted.placed
  · have htidy := run_invariant (I := Tidy) (fun s x hx hs => (step_keeps s x).2 hx hs)
      hparses (opened_tidy hm)
    exact htidy.mail

theorem mailboxes_owned_reply :
    ((opened connected).run (sends 1 ++ [.look 1, .feed 1 (reply 4), .look 1])).SparesOthers ∧
      ((opened connected).run (sends 1 ++ [.look 1, .feed 1 (reply 4), .look 1])).OwnMail := by
  have h := mailboxes_owned connected_up (sends 1 ++ [.look 1, .feed 1 (reply 4), .look 1])
  refine ⟨h.1, h.2 ⟨trivial, trivial, trivial, trivial, ?_, trivial, trivial⟩⟩
  intro w link hw _ _ hraised
  have hread : ((opened connected).run (sends 1 ++ [.look 1])).waiters.get 1 =
      some ⟨4, 0, 0, false, .reading 0⟩ := by decide +kernel
  have hparsed : (((opened connected).run (sends 1 ++ [.look 1])).machine.receiveData (reply 4) 0).2 =
      none := by decide +kernel
  obtain rfl := Option.some.inj (hw.symm.trans hread)
  exact absurd hparsed hraised

/-- Threads 1 and 2 wait on streams 4 and 5.  One read brings the answer on 5 and, behind
it, a `kXR_redirect` on 4 that is too short: the machine has freed 5 and raises, and
thread 1 leaves.  Thread 3 is given stream 5, and the next read of anything hands it the
answer to thread 2's request. -/
def crossed : List Move :=
  sends 1 ++ sends 2 ++
    [.look 1, .feed 1 (reply 5 ++ headerBytes ⟨4, kXR_redirect, 2⟩ ++ [0, 0]), .goOut 1] ++
    sends 3 ++ [.look 3, .feed 3 (reply 9), .look 3]

theorem mail_of_an_earlier_request :
    Up connected ∧ ¬ ((opened connected).run crossed).OwnMail := by
  refine ⟨connected_up, fun h => ?_⟩
  have htaken : ((opened connected).run crossed).waiters.get 3 = some
      ⟨5, 2, 0, false, .acting [⟨.event (.completed 5 statRequest [1, 2] none), some 1⟩]⟩ := by
    decide +kernel
  have habout := h.taken 3 _ htaken _ List.mem_cons_self _ rfl nofun
  cases habout

end Shared

end XrdClient.Session
