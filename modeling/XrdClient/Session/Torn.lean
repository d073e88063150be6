/-
  Session/Torn.lean --- a control link that is torn.

  Source: `session/sync.py`, `broken`, `_start`, `_resend_after`, `_send_failed`,
  `_lead`, `bulk`; `session/bulk.py`, `_hand_back`.

  A send that fails part-way, and a bulk transfer that stops inside a frame, leave the
  peer and the session at different places of the byte stream.  The session notes it in
  `_broken`, and drops what is queued for the link; but what starts a request, sends one
  again after a `kXR_wait` or takes in what was read looks at the machine's state only,
  and that is still READY.  `Heeds` is what is missing.
-/
import XrdClient.Session.Mailboxes
import XrdClient.Proto.TlsPolicy

set_option autoImplicit false

namespace XrdClient.Proto

open XrdClient.Lib

namespace MachineState

/-- Nothing off the wire is answered, once bring-up is over. -/
theorem deliver_unmoved (m : MachineState) (u : Decoded) (hready : inBringup m.state = false) :
    Unmoved m (deliver m u).1 := by
  cases u with
  | trailer sid data => exact onStatusData_unmoved m sid data
  | frame h body =>
    have hroute : ∀ sid status block f, Unmoved m (m.route sid status block f).1 := by
      intro sid status block f
      unfold route
      rw [if_neg (by simp [hready])]
      split
      · next hp => exact respond_unmoved hp status block f
      · split
        · exact retiredReply_unmoved m sid status block f
        · exact .refl m
    simp only [deliver, dispatch]
    split
    · split
      · exact .refl m
      · exact emit_unmoved m _
      · exact hroute _ _ _ _
    · exact hroute _ _ _ _

/-- A goodbye that cannot be framed leaves nothing to be sent. -/
theorem close_refused_out (m : MachineState) {e : Raised} (h : m.close.2 = some e) :
    m.close.1.out = m.out := by
  have hacquired := m.acquireSid_unmoved
  unfold close at h ⊢
  dsimp only at h ⊢
  split at h
  · next hgraceful =>
    rw [if_pos hgraceful]
    rcases hacq : m.acquireSid with ⟨e' | sid, m₁⟩
    · rw [hacq] at hacquired
      exact hacquired.out
    · rw [hacq] at hacquired
      simp only [hacq] at h ⊢
      rcases hqueue : m₁.queueEncoded (endSessionRequest m₁.sessionId) sid with ⟨m₂, _ | e'⟩
      · rw [hqueue] at h
        cases h
      · unfold queueEncoded at hqueue
        split at hqueue
        · cases hqueue
          exact hacquired.out
        · cases hqueue
  · cases h

/-- A request that is refused leaves nothing to be sent. -/
theorem submit_refused_out (m : MachineState) (request : Request) (path : Text) (arrive : Bool)
    {e : Raised} (h : (m.submit request path arrive).1 = .error e) :
    (m.submit request path arrive).2.out = m.out := by
  have hacquired := m.acquireSid_unmoved
  unfold submit at h ⊢
  by_cases hstate : m.state ≠ .ready
  · rw [if_pos hstate]
  rw [if_neg hstate] at h ⊢
  rcases hacq : m.acquireSid with ⟨e' | sid, m₁⟩
  · rw [hacq] at hacquired
    exact hacquired.out
  rw [hacq] at hacquired
  have hframe := m₁.frame_unmoved request sid
  simp only [hacq] at h ⊢
  unfold send at h ⊢
  rcases hf : m₁.frame request sid with ⟨e' | parts, m₂⟩
  · rw [hf] at hframe
    exact hframe.out.trans hacquired.out
  · simp only [hf] at h
    split_ifs at h

end MachineState

namespace SessionMachine

theorem forgetPath_still (m : SessionMachine) (pathid : Nat) :
    (m.forgetPath pathid).core.out = m.core.out ∧
      (m.core.pending = [] → (m.forgetPath pathid).core.pending = []) := by
  have h := MachineState.foldl_unmoved MachineState.release_unmoved
    (streamsOn m.core pathid) m.core
  exact ⟨h.out, h.pending⟩

/-- What is read moves neither the queue for the control link, nor does it make anything
pending. -/
theorem receiveData_still (m : SessionMachine) (hup : MachineState.inBringup m.core.state = false)
    (data : Bytes) (pathid : Nat) :
    (m.receiveData data pathid).1.core.out = m.core.out ∧
      (m.core.pending = [] → (m.receiveData data pathid).1.core.pending = []) := by
  unfold receiveData receiveLog
  by_cases hdata : data = []
  · rw [if_pos hdata]
    by_cases hpath : pathid = 0
    · simp only [hpath, if_true, onEof]
      split
      · exact ⟨rfl, id⟩
      · exact ⟨rfl, fun _ => rfl⟩
    · simp only [if_neg hpath, onPathEof, MachineState.emit]
      exact forgetPath_still _ pathid
  · rw [if_neg hdata]
    have hkept := MachineState.decode_invariant (I := fun core =>
      MachineState.inBringup core.state = false ∧ core.out = m.core.out ∧
        (m.core.pending = [] → core.pending = [])) ?_ (m.framer pathid) data ⟨hup, rfl, id⟩
    · exact hkept.2
    · rintro core u ⟨hready, hout, hpending⟩
      have h := MachineState.deliver_unmoved core u hready
      exact ⟨by rw [h.state]; exact hready, h.out.trans hout, fun hp => h.pending (hpending hp)⟩

end SessionMachine

end XrdClient.Proto

namespace XrdClient.Session

open XrdClient.Lib
open XrdClient.Proto

/-- What a torn link may still see: no request, and no bytes taken in. -/
def LinkEvent.Silent : LinkEvent → Prop
  | .put _ => False
  | .fed bytes => bytes = []
  | _ => True

/-- Nothing goes on after the link is torn. -/
def Quiet (line : List LinkEvent) : Prop :=
  ∀ before later, line = before ++ LinkEvent.tore :: later → ∀ e ∈ later, e.Silent

theorem quiet_nil : Quiet [] := by
  intro before later h
  cases before <;> cases h

theorem Quiet.append {line : List LinkEvent} (h : Quiet line) {e : LinkEvent}
    (he : LinkEvent.tore ∈ line → e.Silent) : Quiet (line ++ [e]) := by
  intro before later heq e' he'
  rcases List.eq_nil_or_concat later with rfl | ⟨later', last, rfl⟩
  · cases he'
  · have hsplit : line ++ [e] = (before ++ .tore :: later') ++ [last] := by
      rw [heq, List.concat_eq_append, List.append_assoc, List.cons_append]
    obtain ⟨hline, hlast⟩ := List.append_inj' hsplit rfl
    obtain rfl : e = last := by simpa using hlast
    rw [List.concat_eq_append] at he'
    rcases List.mem_append.mp he' with he' | he'
    · exact h before later' hline e' he'
    · rw [List.mem_singleton] at he'
      rw [he']
      exact he (by rw [hline]; simp)

/-- A request, queued for the control link. -/
def Queued.Asks (item : Queued) : Prop := item.pathid = 0 ∧ item.goodbye = false

namespace Shared

/-- What the session would have to heed: it starts no request, sends none again and takes
in nothing on a torn link before it is closed; and no exception but a connection error
cuts a send short with requests behind it. -/
def Heeds (s : Shared) : Move → Prop
  | .start _ _ _ _ _ => s.torn = true → s.dead = true
  | .wakeUp t cancelled => ∀ w rest, s.waiters.get t = some w → w.phase = .resting rest →
      s.box w.box = [] → cancelled = false → s.torn = true → s.dead = true
  | .feed t data => ∀ w, s.waiters.get t = some w → w.pathid = 0 → data ≠ [] →
      s.torn = true → s.dead = true
  | .sendRaises t => ∀ w item batch failed next, s.waiters.get t = some w →
      w.phase = .sending (item :: batch) failed next → item.pathid = 0 →
      ∀ other ∈ s.outq, ¬ other.Asks
  | _ => True


/-! ## What the parts of a step change -/

/-- Neither the link nor who sends on it changes, and no request is queued for it. -/
structure Still (s s' : Shared) : Prop where
  up : MachineState.inBringup s.machine.core.state = false →
    MachineState.inBringup s'.machine.core.state = false
  out : s'.machine.core.out = s.machine.core.out
  pending : s.machine.core.pending = [] → s'.machine.core.pending = []
  paths : ∀ p ∈ s'.paths, p ∈ s.paths
  outq : ∀ item ∈ s'.outq, item.Asks → item ∈ s.outq
  sender : s'.sender = s.sender
  bulk : s'.bulk = s.bulk
  waiters : s'.waiters = s.waiters
  line : s'.line = s.line

theorem Still.refl (s : Shared) : Still s s :=
  ⟨id, rfl, id, fun _ => id, fun _ h _ => h, rfl, rfl, rfl, rfl⟩

theorem Still.trans {s s' s'' : Shared} (h : Still s s') (h' : Still s' s'') : Still s s'' where
  up := fun hup => h'.up (h.up hup)
  out := h'.out.trans h.out
  pending := fun hp => h'.pending (h.pending hp)
  paths := fun p hp => h.paths p (h'.paths p hp)
  outq := fun item hitem hasks => h.outq item (h'.outq item hitem hasks) hasks
  sender := h'.sender.trans h.sender
  bulk := h'.bulk.trans h.bulk
  waiters := h'.waiters.trans h.waiters
  line := h'.line.trans h.line

theorem Still.foldl {α : Type} {f : Shared → α → Shared} (hf : ∀ s a, Still s (f s a)) :
    ∀ (as : List α) (s : Shared), Still s (as.foldl f s) := by
  intro as
  induction as with
  | nil => exact fun s => .refl s
  | cons a as ih => exact fun s => (hf s a).trans (ih (f s a))

/-- A step of the machine alone. -/
theorem Still.onCore (s : Shared) {core : MachineState}
    (hup : MachineState.inBringup s.machine.core.state = false →
      MachineState.inBringup core.state = false)
    (hout : core.out = s.machine.core.out)
    (hpending : s.machine.core.pending = [] → core.pending = []) : Still s (s.onCore core) :=
  ⟨hup, hout, hpending, fun _ => id, fun _ h _ => h, rfl, rfl, rfl, rfl⟩

theorem file_still (s : Shared) (b : Nat) (letter : Letter) : Still s (s.file b letter) :=
  ⟨id, rfl, id, fun _ => id, fun _ h _ => h, rfl, rfl, rfl, rfl⟩

theorem failAll_still (s : Shared) (why : Loss) (own : Option Nat) :
    Still s (s.failAll why own) := by
  refine Still.foldl (fun s b => ?_) _ s
  split
  · exact .refl s
  · exact file_still s b _

theorem sessionLost_still (s : Shared) (why : Loss) (own : Nat) : Still s (s.sessionLost why own) :=
  (file_still s own _).trans (failAll_still _ why (some own))

theorem letGo_still (s : Shared) (pathid : Nat) : Still s (s.letGo pathid) :=
  ⟨id, rfl, id, fun _ => id, fun _ h _ => h, rfl, rfl, rfl, rfl⟩

theorem closePath_still (s : Shared) (pathid : Nat) (why : Loss) (own : Option Nat) :
    Still s (s.closePath pathid why own) := by
  have htold : Still s (s.told pathid why own) := by
    unfold told
    split
    · refine Still.foldl (fun s sid => ?_) _ s
      split
      · next b _ =>
        split
        · exact .refl s
        · exact file_still s b _
      · exact .refl s
    · exact .refl s
  have hforget := s.machine.forgetPath_still pathid
  exact {
    up := (closePath_tidied s pathid why own).up
    out := hforget.1
    pending := hforget.2
    paths := fun p hp => List.mem_of_mem_filter hp
    outq := htold.outq
    sender := htold.sender
    bulk := htold.bulk
    waiters := htold.waiters
    line := htold.line }

theorem linkFailed_still (s : Shared) (pathid : Nat) (own : Option Nat) :
    Still s (s.linkFailed pathid own) := by
  unfold linkFailed
  split
  · split
    · exact closePath_still s _ _ own
    · exact .refl s
  · refine Still.trans ?_ (failAll_still _ _ own)
    exact ⟨id, rfl, id, fun _ => id, fun _ h _ => h, rfl, rfl, rfl, rfl⟩

theorem routeEvent_still (own : Nat) (s : Shared) (e : Event × Option Nat) :
    Still s (routeEvent own s e) := by
  unfold routeEvent
  split
  · split
    · exact file_still s _ _
    · exact ⟨id, rfl, id, fun _ => id, fun _ h _ => h, rfl, rfl, rfl, rfl⟩
  · split
    · exact ⟨id, rfl, id, fun _ => id, fun _ h _ => h, rfl, rfl, rfl, rfl⟩
    · exact closePath_still s _ _ _
    · exact sessionLost_still s _ _
    · exact sessionLost_still s _ _
    · exact .refl s

theorem release_still (s : Shared) (sid box : Nat) : Still s (s.release sid box) := by
  unfold release
  split
  · have h := MachineState.release_unmoved s.machine.core sid
    exact Still.onCore s (fun hup => by rw [h.state]; exact hup) h.out h.pending
  · exact .refl s

theorem forget_still (s : Shared) (sid box : Nat) (abandon : Bool) :
    Still s (s.forget sid box abandon) := by
  unfold forget
  split
  · have h : MachineState.Unmoved s.machine.core (if abandon then s.machine.core.abandon sid
        else s.machine.core.release sid) := by
      split
      · exact MachineState.abandon_unmoved _ sid
      · exact MachineState.release_unmoved _ sid
    exact ⟨fun hup => by simp only [Shared.onCore, h.state]; exact hup, h.out, h.pending, fun _ => id,
      fun _ hitem _ => hitem, rfl, rfl, rfl, rfl⟩
  · exact .refl s

theorem queuePathOut_still (s : Shared) {p : Nat × Nat} (hp : p.1 ≠ 0) :
    Still s (s.queuePathOut p) := by
  unfold queuePathOut
  split
  · exact .refl s
  · refine ⟨id, rfl, id, fun _ => id, fun item hitem hasks => ?_, rfl, rfl, rfl, rfl⟩
    rcases List.mem_append.mp hitem with hitem | hitem
    · exact hitem
    · rw [List.mem_singleton] at hitem
      rw [hitem] at hasks
      exact absurd hasks.1 hp

theorem queuePathOuts_still : ∀ (ps : List (Nat × Nat)) (s : Shared), (∀ p ∈ ps, p.1 ≠ 0) →
    Still s (ps.foldl queuePathOut s) := by
  intro ps
  induction ps with
  | nil => exact fun s _ => .refl s
  | cons p ps ih =>
    intro s h
    exact (queuePathOut_still s (h p List.mem_cons_self)).trans
      (ih _ fun q hq => h q (List.mem_cons_of_mem _ hq))

/-- With nothing framed for the control link, nothing is queued for it. -/
theorem queueOut_still (s : Shared) (hout : s.machine.core.out = []) (hpaths : ∀ p ∈ s.paths, p.1 ≠ 0)
    (goodbye : Bool) : Still s (s.queueOut goodbye) := by
  unfold queueOut
  dsimp only
  rw [if_pos hout]
  exact queuePathOuts_still s.paths s hpaths

/-! ## The invariant -/

/-- A thread has buffers to send. -/
def Sends (s : Shared) (t : Nat) (batch : List Queued) : Prop :=
  ∃ w failed next, s.waiters.get t = some w ∧ w.phase = .sending batch failed next

/-- What a run keeps: only the thread with the send lock sends, a bulk transfer has the
link to itself, and on a torn link no request is left to be sent.  Of the thread `spare`,
which is on its way out of the batch it has, that is not asked. -/
structure Calm (spare : Option Nat) (s : Shared) : Prop where
  up : MachineState.inBringup s.machine.core.state = false
  out : s.machine.core.out = []
  paths : ∀ p ∈ s.paths, p.1 ≠ 0
  sending : ∀ t batch, s.Sends t batch → s.sender = some t
  lent : ∀ b, s.bulk = some b → s.machine.core.pending = [] ∧ s.waiters.has b.thread = false
  lending : ∀ t r, s.bulk = some ⟨t, some r⟩ →
    s.sender = some t ∧ ∀ item ∈ s.outq, ¬ item.Asks
  stopped : s.torn = true → (∀ item ∈ s.outq, ¬ item.Asks) ∧
    ∀ t batch, s.Sends t batch → spare ≠ some t → ∀ item ∈ batch, ¬ item.Asks
  quiet : Quiet s.line

theorem torn_iff {s : Shared} : s.torn = true ↔ LinkEvent.tore ∈ s.line := decide_eq_true_iff

theorem Still.torn {s s' : Shared} (h : Still s s') : s'.torn = s.torn := by
  simp only [Shared.torn, h.line]

theorem Still.sends {s s' : Shared} (h : Still s s') {t : Nat} {batch : List Queued}
    (hs : s'.Sends t batch) : s.Sends t batch := by
  obtain ⟨w, failed, next, hw, hphase⟩ := hs
  exact ⟨w, failed, next, h.waiters ▸ hw, hphase⟩

theorem Still.calm {spare : Option Nat} {s s' : Shared} (h : Still s s') (hs : s.Calm spare) :
    s'.Calm spare where
  up := h.up hs.up
  out := h.out.trans hs.out
  paths := fun p hp => hs.paths p (h.paths p hp)
  sending := fun t batch hsends => h.sender.trans (hs.sending t batch (h.sends hsends))
  lent := fun b hb => by
    obtain ⟨hpending, hthread⟩ := hs.lent b (h.bulk ▸ hb)
    exact ⟨h.pending hpending, by rw [h.waiters, hthread]⟩
  lending := fun t r hb => by
    obtain ⟨hsender, hnone⟩ := hs.lending t r (h.bulk ▸ hb)
    exact ⟨h.sender.trans hsender, fun item hitem hasks => hnone item (h.outq item hitem hasks) hasks⟩
  stopped := fun htorn => by
    obtain ⟨hnone, hbatch⟩ := hs.stopped (h.torn ▸ htorn)
    exact ⟨fun item hitem hasks => hnone item (h.outq item hitem hasks) hasks,
      fun t batch hsends => hbatch t batch (h.sends hsends)⟩
  quiet := h.line ▸ hs.quiet

/-- The thread that a step is of goes on: it may send only what it has the lock for, and
no request on a torn link. -/
theorem become_calm {spare : Option Nat} {s : Shared} (h : s.Calm spare) {t : Nat} {w : Waiter}
    {phase : Phase} (hspare : spare = none ∨ spare = some t)
    (hthread : ∀ b, s.bulk = some b → b.thread ≠ t)
    (hphase : ∀ batch failed next, phase = .sending batch failed next →
      s.sender = some t ∧ (s.torn = true → ∀ item ∈ batch, ¬ item.Asks)) :
    (s.become t w phase).Calm none := by
  have hsends : ∀ t' batch, (s.become t w phase).Sends t' batch →
      (t' = t ∧ ∃ failed next, phase = .sending batch failed next) ∨
        t' ≠ t ∧ s.Sends t' batch := by
    rintro t' batch ⟨w', failed, next, hw', hsending⟩
    simp only [become, Assoc.get_set] at hw'
    split at hw'
    · next heq =>
      rw [← Option.some.inj hw'] at hsending
      exact .inl ⟨heq, failed, next, hsending⟩
    · next hne => exact .inr ⟨hne, w', failed, next, hw', hsending⟩
  refine ⟨h.up, h.out, h.paths, fun t' batch hs => ?_, fun b hb => ?_, h.lending, fun htorn => ?_, h.quiet⟩
  · rcases hsends t' batch hs with ⟨rfl, failed, next, hsending⟩ | ⟨-, hs⟩
    · exact (hphase batch failed next hsending).1
    · exact h.sending t' batch hs
  · refine ⟨(h.lent b hb).1, ?_⟩
    show (s.waiters.set t _).has b.thread = false
    rw [Assoc.has, Assoc.get_set_of_ne _ _ (hthread b hb)]
    exact (h.lent b hb).2
  · refine ⟨(h.stopped htorn).1, fun t' batch hs _ => ?_⟩
    rcases hsends t' batch hs with ⟨rfl, failed, next, hsending⟩ | ⟨hne, hs⟩
    · exact (hphase batch failed next hsending).2 htorn
    · refine (h.stopped htorn).2 t' batch hs fun heq => ?_
      rcases hspare with hspare | hspare
      · rw [hspare] at heq
        cases heq
      · rw [hspare] at heq
        exact hne (Option.some.inj heq).symm

/-- A waiter is not the thread of a bulk transfer. -/
theorem Calm.apart {spare : Option Nat} {s : Shared} (h : s.Calm spare) {t : Nat} {w : Waiter}
    (hw : s.waiters.get t = some w) : ∀ b, s.bulk = some b → b.thread ≠ t := by
  rintro b hb rfl
  have hnone := (h.lent b hb).2
  rw [Assoc.has, hw] at hnone
  cases hnone

/-- A step of a thread that does not send, or no longer. -/
theorem Still.rest {s s' : Shared} (h : Still s s') (hs : s.Calm none) {t : Nat} {w : Waiter}
    (hw : s.waiters.get t = some w) {phase : Phase}
    (hphase : ∀ batch failed next, phase ≠ .sending batch failed next) :
    (s'.become t w phase).Calm none :=
  become_calm (h.calm hs) (.inl rfl) (by rw [h.bulk]; exact hs.apart hw)
    fun batch failed next heq => absurd heq (hphase batch failed next)

theorem Calm.leave {s : Shared} (h : s.Calm none) (t : Nat) : (s.leave t).Calm none := by
  have hget : ∀ t' w', (s.waiters.del t).get t' = some w' → s.waiters.get t' = some w' := by
    intro t' w' hw'
    rw [Assoc.get_del] at hw'
    split at hw'
    · cases hw'
    · exact hw'
  have hsends : ∀ t' batch, (s.leave t).Sends t' batch → s.Sends t' batch := by
    rintro t' batch ⟨w', failed, next, hw', hphase⟩
    exact ⟨w', failed, next, hget t' w' hw', hphase⟩
  refine ⟨h.up, h.out, h.paths, fun t' batch hs => h.sending t' batch (hsends t' batch hs),
    fun b hb => ⟨(h.lent b hb).1, ?_⟩, h.lending, fun htorn => ⟨(h.stopped htorn).1, fun t' batch hs =>
      (h.stopped htorn).2 t' batch (hsends t' batch hs)⟩, h.quiet⟩
  have hthread := (h.lent b hb).2
  rw [Assoc.has_eq_false] at hthread ⊢
  cases hw' : (s.waiters.del t).get b.thread with
  | none => exact hw'
  | some w' =>
    rw [hget _ w' hw'] at hthread
    cases hthread

/-! ## Sending -/

/-- The lock is taken, with everything queued. -/
theorem locked_calm {s : Shared} (h : s.Calm none) (hfree : s.sender = none) {t : Nat} {w : Waiter}
    (next : Next) (hthread : ∀ b, s.bulk = some b → b.thread ≠ t) :
    ({ s with sender := some t, outq := [] }.become t w (.sending s.outq false next)).Calm none := by
  have hnobody : ∀ t' batch, ¬ s.Sends t' batch := by
    intro t' batch hs
    have hsender := h.sending t' batch hs
    rw [hfree] at hsender
    cases hsender
  have hlocked : Calm none { s with sender := some t, outq := [] } :=
    { up := h.up
      out := h.out
      paths := h.paths
      sending := fun t' batch hs => absurd hs (hnobody t' batch)
      lent := h.lent
      lending := fun t' r hb => by
        have hsender := (h.lending t' r hb).1
        rw [hfree] at hsender
        cases hsender
      stopped := fun _ => ⟨by simp, fun t' batch hs => absurd hs (hnobody t' batch)⟩
      quiet := h.quiet }
  refine become_calm hlocked (.inl rfl) hthread ?_
  intro batch failed next' heq
  cases heq
  exact ⟨rfl, fun htorn => (h.stopped htorn).1⟩

theorem sent_line (s : Shared) (item : Queued) :
    (s.sent item).torn = s.torn ∧
      (Quiet s.line → (s.torn = true → ¬ item.Asks) → Quiet (s.sent item).line) := by
  unfold sent
  split
  · exact ⟨rfl, fun h _ => h⟩
  · rename_i hpath
    refine ⟨?_, fun h hasks => h.append fun htore => ?_⟩
    · simp only [torn, List.mem_append, List.mem_singleton]
      split <;> simp
    · split
      · trivial
      · rename_i hgoodbye
        exact hasks (torn_iff.mpr htore) ⟨by simpa using hpath, by simpa using hgoodbye⟩

theorem sent_fields (s : Shared) (item : Queued) :
    (s.sent item).machine = s.machine ∧ (s.sent item).paths = s.paths ∧
      (s.sent item).outq = s.outq ∧ (s.sent item).sender = s.sender ∧
      (s.sent item).bulk = s.bulk ∧ (s.sent item).waiters = s.waiters := by
  unfold sent
  split <;> exact ⟨rfl, rfl, rfl, rfl, rfl, rfl⟩

theorem sent_calm {spare : Option Nat} {s : Shared} (h : s.Calm spare) {item : Queued}
    (hasks : s.torn = true → ¬ item.Asks) : (s.sent item).Calm spare := by
  obtain ⟨hmachine, hpaths, houtq, hsender, hbulk, hwaiters⟩ := sent_fields s item
  obtain ⟨htorn, hquiet⟩ := sent_line s item
  refine ⟨?_, ?_, ?_, ?_, ?_, ?_, ?_, hquiet h.quiet hasks⟩
  · rw [hmachine]; exact h.up
  · rw [hmachine]; exact h.out
  · rw [hpaths]; exact h.paths
  · unfold Sends; rw [hwaiters, hsender]; exact h.sending
  · rw [hmachine, hbulk, hwaiters]; exact h.lent
  · rw [hbulk, hsender, houtq]; exact h.lending
  · unfold Sends; rw [htorn, houtq, hwaiters]; exact h.stopped

/-- The control link fails, or a path does.  On a torn link nobody but the thread that
found out has anything to send. -/
theorem sendFailed_calm {spare : Option Nat} {s : Shared} (h : s.Calm spare) (item : Queued)
    (hsole : ∀ t batch, s.Sends t batch → spare = some t) : (s.sendFailed item).Calm spare := by
  unfold sendFailed
  split
  · split
    · exact (closePath_still s _ _ none).calm h
    · exact h
  · refine (failAll_still _ _ none).calm ?_
    have hfilter : ∀ other ∈ s.outq.filter (·.pathid ≠ 0), ¬ other.Asks := by
      intro other hother hasks
      have hpath := (List.mem_filter.mp hother).2
      rw [decide_eq_true_eq] at hpath
      exact hpath hasks.1
    exact {
      up := h.up
      out := h.out
      paths := h.paths
      sending := h.sending
      lent := h.lent
      lending := fun t r hb => ⟨(h.lending t r hb).1, hfilter⟩
      stopped := fun _ => ⟨hfilter, fun t batch hs hne => absurd (hsole t batch hs) hne⟩
      quiet := h.quiet.append fun _ => trivial }

theorem sendFailed_fields (s : Shared) (item : Queued) :
    (s.sendFailed item).sender = s.sender ∧ (s.sendFailed item).bulk = s.bulk ∧
      (s.sendFailed item).waiters = s.waiters ∧
      (∀ other ∈ (s.sendFailed item).outq, other.Asks → other ∈ s.outq) ∧
      (item.pathid ≠ 0 → (s.sendFailed item).torn = s.torn) := by
  unfold sendFailed
  split
  · split
    · have h := closePath_still s item.pathid (.transport item.pathid) none
      exact ⟨h.sender, h.bulk, h.waiters, h.outq, fun _ => h.torn⟩
    · exact ⟨rfl, rfl, rfl, fun _ h _ => h, fun _ => rfl⟩
  · rename_i hpath
    have h := failAll_still { s with
      broken := true, outq := s.outq.filter (·.pathid ≠ 0)
      line := s.line ++ [LinkEvent.tore] } (.transport 0) none
    exact ⟨h.sender, h.bulk, h.waiters,
      fun other hother hasks => List.mem_of_mem_filter (h.outq other hother hasks),
      fun hne => absurd hne hpath⟩

theorem send_calm {s : Shared} (h : s.Calm none) (t : Nat) (ok : Bool) : (s.send t ok).Calm none := by
  unfold send
  split
  · next w hw =>
    split
    · next item batch failed next hphase =>
      have hsends : s.Sends t (item :: batch) := ⟨w, failed, next, hw, hphase⟩
      have hlock := h.sending t _ hsends
      have hstopped : s.torn = true → ∀ other ∈ item :: batch, ¬ other.Asks :=
        fun htorn => (h.stopped htorn).2 t _ hsends nofun
      unfold sendItem
      cases ok with
      | true =>
        obtain ⟨-, -, -, hsender, hbulk, -⟩ := sent_fields s item
        have hsent := sent_calm h fun htorn => hstopped htorn item List.mem_cons_self
        refine become_calm hsent (.inl rfl) (by rw [hbulk]; exact h.apart hw) ?_
        intro batch' failed' next' heq
        cases heq
        rw [hsender, (sent_line s item).1]
        exact ⟨hlock, fun htorn other hother => hstopped htorn other (List.mem_cons_of_mem _ hother)⟩
      | false =>
        obtain ⟨hsender, hbulk, -, -, htornEq⟩ := sendFailed_fields s item
        have hspare : s.Calm (some t) := { h with
          stopped := fun htorn => ⟨(h.stopped htorn).1,
            fun t' batch' hs _ => (h.stopped htorn).2 t' batch' hs nofun⟩ }
        have hfailed := sendFailed_calm hspare item fun t' batch' hs => by
          rw [← hlock, h.sending t' batch' hs]
        refine become_calm hfailed (.inr rfl) (by rw [hbulk]; exact h.apart hw) ?_
        intro batch' failed' next' heq
        cases heq
        refine ⟨hsender.trans hlock, fun htorn other hother => ?_⟩
        split at hother
        · intro hasks
          have hpath := (List.mem_filter.mp hother).2
          rw [decide_eq_true_eq] at hpath
          exact hpath hasks.1
        · rename_i hpath
          rw [htornEq hpath] at htorn
          exact hstopped htorn other (List.mem_cons_of_mem _ hother)
    · exact h
  · exact h

/-- The sender lets go of its batch, and may have torn the link. -/
theorem unlocked_calm {s : Shared} (h : s.Calm none) {t : Nat} {batch : List Queued}
    {w : Waiter} {failed : Bool} {next : Next}
    (hw : s.waiters.get t = some w) (hphase : w.phase = .sending batch failed next)
    {line : List LinkEvent} (hline : line = s.line ∨
      line = s.line ++ [.tore] ∧ ∀ item ∈ s.outq, ¬ item.Asks) {s' : Shared}
    (hs' : Still { s with sender := none, line := line } s') {phase : Phase}
    (hrest : ∀ batch failed next, phase ≠ .sending batch failed next) :
    (s'.become t w phase).Calm none := by
  have hlock := h.sending t batch ⟨w, failed, next, hw, hphase⟩
  -- nobody else sends, and no reader is lent the link, for `t` had the lock
  have hbecome : ({ s with sender := none, line := line }.become t w phase).Calm none := by
    have hnobody : ∀ t' batch,
        ¬ ({ s with sender := none, line := line }.become t w phase).Sends t' batch := by
      rintro t' batch ⟨w', failed', next', hw', hsending⟩
      simp only [become, Assoc.get_set] at hw'
      split at hw'
      · rw [← Option.some.inj hw'] at hsending
        exact hrest batch failed' next' hsending
      · next hne =>
        have hsender := h.sending t' batch ⟨w', failed', next', hw', hsending⟩
        rw [hlock] at hsender
        exact hne (Option.some.inj hsender).symm
    exact {
      up := h.up
      out := h.out
      paths := h.paths
      sending := fun t' batch hs => absurd hs (hnobody t' batch)
      lent := fun b hb => by
        refine ⟨(h.lent b hb).1, ?_⟩
        show (s.waiters.set t _).has b.thread = false
        rw [Assoc.has, Assoc.get_set_of_ne _ _ (h.apart hw b hb)]
        exact (h.lent b hb).2
      lending := fun t' r hb => by
        obtain rfl : t' = t := Option.some.inj ((h.lending t' r hb).1.symm.trans hlock)
        exact absurd rfl (h.apart hw _ hb)
      stopped := fun htorn => by
        refine ⟨?_, fun t' batch hs => absurd hs (hnobody t' batch)⟩
        rcases hline with rfl | ⟨-, hnone⟩
        · exact (h.stopped htorn).1
        · exact hnone
      quiet := by
        rcases hline with rfl | ⟨rfl, -⟩
        · exact h.quiet
        · exact h.quiet.append fun _ => trivial }
  have hstill : Still ({ s with sender := none, line := line }.become t w phase)
      (s'.become t w phase) :=
    ⟨hs'.up, hs'.out, hs'.pending, hs'.paths, hs'.outq, hs'.sender, hs'.bulk,
      by simp only [become, hs'.waiters], hs'.line⟩
  exact hstill.calm hbecome

theorem sendDone_calm {s : Shared} (h : s.Calm none) (t : Nat) : (s.sendDone t).Calm none := by
  unfold sendDone
  split
  · next w hw =>
    split
    · next failed next hphase =>
      have hlock := h.sending t [] ⟨w, failed, next, hw, hphase⟩
      split
      · -- what was queued meanwhile
        have hempty : Calm none { s with outq := [] } :=
          { h with
            lending := fun t' r hb => ⟨(h.lending t' r hb).1, by simp⟩
            stopped := fun htorn => ⟨by simp, (h.stopped htorn).2⟩ }
        refine become_calm hempty (.inl rfl) (h.apart hw) ?_
        intro batch' failed' next' heq
        cases heq
        exact ⟨hlock, fun htorn => (h.stopped htorn).1⟩
      · dsimp only
        have hafter : (Shared.after { s with sender := none } t w next).Calm none := by
          cases next with
          | wait => exact unlocked_calm h hw hphase (.inl rfl) (.refl _) nofun
          | act rest => exact unlocked_calm h hw hphase (.inl rfl) (.refl _) nofun
          | read link => exact unlocked_calm h hw hphase (.inl rfl) (.refl _) nofun
        split
        · split
          · exact unlocked_calm h hw hphase (.inl rfl)
              ((linkFailed_still _ _ _).trans (letGo_still _ _)) nofun
          · exact hafter
        · exact hafter
    · exact h
  · exact h

theorem takeSendLock_calm {s : Shared} (h : s.Calm none) (t : Nat) : (s.takeSendLock t).Calm none := by
  unfold takeSendLock
  split
  · next w hw hfree =>
    split
    · next next _ => exact locked_calm h hfree next (h.apart hw)
    · exact h
  · exact h

theorem thrown_rests (next : Next) : ∀ batch failed next', thrown next ≠ .sending batch failed next' := by
  cases next <;> exact nofun

theorem sendRaises_calm {s : Shared} (h : s.Calm none) (t : Nat) (hx : s.Heeds (.sendRaises t)) :
    (s.sendRaises t).Calm none := by
  unfold sendRaises
  split
  · next w hw =>
    dsimp only
    split
    · next item batch failed next hphase =>
      have hline : (if item.pathid = 0 then s.line ++ [.tore] else s.line) = s.line ∨
          (if item.pathid = 0 then s.line ++ [.tore] else s.line) = s.line ++ [.tore] ∧
            ∀ other ∈ s.outq, ¬ other.Asks := by
        split
        · next hpath => exact .inr ⟨rfl, hx w item batch failed next hw hphase hpath⟩
        · exact .inl rfl
      refine unlocked_calm h hw hphase hline ?_ (thrown_rests next)
      cases next with
      | wait => exact .refl _
      | act rest => exact .refl _
      | read link => exact letGo_still _ _
    · next next _ =>
      refine Still.rest ?_ h hw (thrown_rests next)
      split
      · exact letGo_still s _
      · exact .refl s
    · exact h
  · exact h

/-- `_send_batch` of a thread that is not in `execute`. -/
theorem sendBatch_calm : ∀ (batch : List Queued) {s : Shared} (failed : Bool) (oks : List Bool),
    s.Calm none → s.sender = none →
    (s.torn = true → failed = true ∨ ∀ item ∈ batch, ¬ item.Asks) →
    (s.sendBatch failed oks batch).Calm none ∧ (s.sendBatch failed oks batch).sender = none ∧
      (s.sendBatch failed oks batch).bulk = s.bulk ∧
      (s.sendBatch failed oks batch).waiters = s.waiters ∧
      ∀ item ∈ (s.sendBatch failed oks batch).outq, item.Asks → item ∈ s.outq := by
  intro batch
  induction batch with
  | nil => exact fun _ _ h hfree _ => ⟨h, hfree, rfl, rfl, fun _ hitem _ => hitem⟩
  | cons item batch ih =>
    intro s failed oks h hfree htorn
    have htail : s.torn = true → failed = true ∨ ∀ other ∈ batch, ¬ other.Asks := fun ht =>
      (htorn ht).imp_right fun hall other hother => hall other (List.mem_cons_of_mem _ hother)
    have hnobody : ∀ t batch, ¬ s.Sends t batch := by
      intro t batch hs
      have hsender := h.sending t batch hs
      rw [hfree] at hsender
      cases hsender
    unfold sendBatch
    split
    · exact ih failed oks h hfree htail
    · rename_i hskip
      split
      · obtain ⟨-, -, houtq, hsender, hbulk, hwaiters⟩ := sent_fields s item
        have hasks : s.torn = true → ¬ item.Asks := by
          intro ht hasks
          rcases htorn ht with hfailed | hall
          · exact hskip ⟨hfailed, hasks.1⟩
          · exact hall item List.mem_cons_self hasks
        have hrest := ih failed oks.tail (sent_calm h hasks) (hsender.trans hfree)
          (by rw [(sent_line s item).1]; exact htail)
        rw [hbulk, hwaiters, houtq] at hrest
        exact hrest
      · obtain ⟨hsender, hbulk, hwaiters, houtq, htornEq⟩ := sendFailed_fields s item
        have hcalm := sendFailed_calm h item fun t batch hs => absurd hs (hnobody t batch)
        have hrest := ih (failed || decide (item.pathid = 0)) oks.tail hcalm (hsender.trans hfree) ?_
        · rw [hbulk, hwaiters] at hrest
          obtain ⟨h₁, h₂, h₃, h₄, h₅⟩ := hrest
          exact ⟨h₁, h₂, h₃, h₄, fun other hother hasks => houtq other (h₅ other hother hasks) hasks⟩
        · intro ht
          by_cases hpath : item.pathid = 0
          · exact .inl (by simp [hpath])
          · rw [htornEq hpath] at ht
            exact (htail ht).imp_left fun hfailed => by simp [hfailed]

/-- `_drain_outq` of such a thread. -/
theorem drainOutq_calm {s : Shared} (h : s.Calm none) (hfree : s.sender = none) (oks : List Bool) :
    (s.drainOutq oks).Calm none ∧ (s.drainOutq oks).sender = none ∧
      (s.drainOutq oks).bulk = s.bulk ∧ (s.drainOutq oks).waiters = s.waiters ∧
      ∀ item ∈ (s.drainOutq oks).outq, ¬ item.Asks := by
  have hempty : Calm none { s with outq := [] } :=
    { h with
      lending := fun t' r hb => ⟨(h.lending t' r hb).1, by simp⟩
      stopped := fun htorn => ⟨by simp, (h.stopped htorn).2⟩ }
  obtain ⟨h₁, h₂, h₃, h₄, h₅⟩ := sendBatch_calm s.outq false oks hempty hfree
    fun htorn => .inr (h.stopped htorn).1
  exact ⟨h₁, h₂, h₃, h₄, fun item hitem hasks => by cases h₅ item hitem hasks⟩

/-- What the machine has framed for the control link is queued: by `close`, or with the
link whole and not lent. -/
theorem queueOut_calm {s₀ s : Shared} (h : s₀.Calm none)
    (hup : MachineState.inBringup s.machine.core.state = false)
    (hpaths : s.paths = s₀.paths) (houtq : s.outq = s₀.outq) (hsender : s.sender = s₀.sender)
    (hnone : s.bulk = none) (hwaiters : s.waiters = s₀.waiters)
    (hline : s.line = s₀.line) {goodbye : Bool} (hasks : goodbye = true ∨ s.torn = false) :
    (s.queueOut goodbye).Calm none := by
  have htorn : s.torn = s₀.torn := by simp only [torn, hline]
  have hsends : ∀ t batch, s.Sends t batch ↔ s₀.Sends t batch := by
    intro t batch
    unfold Sends
    rw [hwaiters]
  have hcontrol : Calm none (if s.machine.core.out = [] then s
      else { s.onCore { s.machine.core with out := [] } with
        outq := s.outq ++ [⟨0, 0, s.machine.core.out.flatten, goodbye⟩] }) := by
    split
    · next hout =>
      exact {
        up := hup
        out := hout
        paths := hpaths ▸ h.paths
        sending := fun t batch hs => hsender.trans (h.sending t batch ((hsends t batch).mp hs))
        lent := fun b hb => by rw [hnone] at hb; cases hb
        lending := fun t r hb => by rw [hnone] at hb; cases hb
        stopped := fun ht => by
          rw [htorn] at ht
          exact ⟨houtq ▸ (h.stopped ht).1, fun t batch hs =>
            (h.stopped ht).2 t batch ((hsends t batch).mp hs)⟩
        quiet := hline ▸ h.quiet }
    · exact {
        up := hup
        out := rfl
        paths := hpaths ▸ h.paths
        sending := fun t batch hs => hsender.trans (h.sending t batch ((hsends t batch).mp hs))
        lent := fun b hb => by rw [onCore, hnone] at hb; cases hb
        lending := fun t r hb => by rw [onCore, hnone] at hb; cases hb
        stopped := fun ht => by
          have ht' : s.torn = true := ht
          rcases hasks with rfl | hwhole
          · rw [htorn] at ht'
            refine ⟨fun item hitem hitemAsks => ?_, fun t batch hs =>
              (h.stopped ht').2 t batch ((hsends t batch).mp hs)⟩
            rcases List.mem_append.mp hitem with hitem | hitem
            · rw [houtq] at hitem
              exact (h.stopped ht').1 item hitem hitemAsks
            · rw [List.mem_singleton] at hitem
              rw [hitem] at hitemAsks
              cases hitemAsks.2
          · rw [hwhole] at ht'
            cases ht'
        quiet := hline ▸ h.quiet }
  unfold queueOut
  refine (queuePathOuts_still s.paths _ ?_).calm hcontrol
  rw [hpaths]
  exact h.paths

theorem queueOut_bulk (s : Shared) (goodbye : Bool) : (s.queueOut goodbye).bulk = s.bulk := by
  have hpath : ∀ (ps : List (Nat × Nat)) (s : Shared), (ps.foldl queuePathOut s).bulk = s.bulk := by
    intro ps
    induction ps with
    | nil => exact fun s => rfl
    | cons p ps ih =>
      intro s
      rw [List.foldl_cons, ih]
      unfold queuePathOut
      split <;> rfl
  unfold queueOut
  dsimp only
  rw [hpath]
  split <;> rfl

/-! ## The other steps -/

/-- A new request, once it has a stream and a mailbox. -/
def registered (s : Shared) (sid : Nat) (core : MachineState) : Shared :=
  { s.onCore core with
    inbox := s.inbox.set sid s.nextBox
    boxes := s.boxes.set s.nextBox []
    nextBox := s.nextBox + 1
    owner := s.owner.set sid s.nextBox }

theorem start_calm {s : Shared} (h : s.Calm none) (t : Nat) (request : Request) (path : Text)
    (arrive onPath : Bool) (hx : s.Heeds (.start t request path arrive onPath)) :
    (s.start t request path arrive onPath).Calm none := by
  unfold start
  split
  · exact h
  split
  · exact h
  rename_i hgo _
  simp only [not_or, Bool.not_eq_true] at hgo
  obtain ⟨-, hlent, hdead⟩ := hgo
  have hnone : s.bulk = none := by simpa using hlent
  have hwhole : s.torn = false := by
    cases htorn : s.torn with
    | false => rfl
    | true =>
      have hdead' := hx htorn
      rw [hdead] at hdead'
      cases hdead'
  have hstate := (s.machine.core.submit_pending request path arrive).2.2
  rcases hsub : s.machine.core.submit request path arrive with ⟨e | sid, core⟩
  all_goals
    rw [hsub] at hstate
    dsimp only at hstate
  · -- a request that cannot be framed leaves nothing queued
    have hout : core.out = s.machine.core.out := by
      have hsent := s.machine.core.submit_refused_out request path arrive (e := e) (by rw [hsub])
      rw [hsub] at hsent
      exact hsent
    exact { h with
      up := by simp only [onCore, hstate]; exact h.up
      out := hout.trans h.out
      lent := fun b hb => by
        have hb' : s.bulk = some b := hb
        rw [hnone] at hb'
        cases hb' }
  · have hqueued : (s.registered sid core).queueOut.Calm none :=
      queueOut_calm (s := s.registered sid core) h (by
        show MachineState.inBringup core.state = false
        rw [hstate]
        exact h.up) rfl rfl rfl hnone rfl rfl (.inr hwhole)
    have hthread : ∀ b, (s.registered sid core).queueOut.bulk = some b → b.thread ≠ t := by
      intro b hb
      rw [queueOut_bulk] at hb
      have hb' : s.bulk = some b := hb
      rw [hnone] at hb'
      cases hb'
    dsimp only
    split
    · next hfree => exact locked_calm hqueued hfree .wait hthread
    · exact become_calm hqueued (.inl rfl) hthread fun _ _ _ heq => by cases heq

theorem look_calm {s : Shared} (h : s.Calm none) (t : Nat) : (s.look t).Calm none := by
  unfold look
  split
  · next w hw =>
    split
    · split
      · have htaken : Still s { s with boxes := s.boxes.set w.box [] } :=
          ⟨id, rfl, id, fun _ => id, fun _ hitem _ => hitem, rfl, rfl, rfl, rfl⟩
        exact htaken.rest h hw fun _ _ _ heq => by cases heq
      split
      · exact (Still.refl s).rest h hw fun _ _ _ heq => by cases heq
      split
      · exact h
      · have hreads : Still s { s with reading := s.reading ++ [w.pathid] } :=
          ⟨id, rfl, id, fun _ => id, fun _ hitem _ => hitem, rfl, rfl, rfl, rfl⟩
        refine hreads.rest h hw fun batch failed next heq => ?_
        split at heq <;> cases heq
    · exact h
  · exact h

theorem giveUp_calm {s : Shared} (h : s.Calm none) (t : Nat) (stall : Bool) :
    (s.giveUp t stall).Calm none := by
  unfold giveUp
  split
  · next w hw =>
    split
    · split
      · exact h
      · have hbroken : Still s { s with broken := s.broken || (stall && decide (w.pathid = 0)) } :=
          ⟨id, rfl, id, fun _ => id, fun _ hitem _ => hitem, rfl, rfl, rfl, rfl⟩
        exact hbroken.rest h hw fun _ _ _ heq => by cases heq
    · exact h
  · exact h

theorem readFails_calm {s : Shared} (h : s.Calm none) (t : Nat) (how : ReadFailure) :
    (s.readFails t how).Calm none := by
  unfold readFails
  split
  · next w hw =>
    split
    · cases how with
      | expired => exact (letGo_still s _).rest h hw fun _ _ _ heq => by cases heq
      | stalled =>
        refine (Still.trans ?_ (letGo_still _ _)).rest h hw fun _ _ _ heq => by cases heq
        split
        · exact closePath_still s _ _ _
        · exact ⟨id, rfl, id, fun _ => id, fun _ hitem _ => hitem, rfl, rfl, rfl, rfl⟩
      | link =>
        dsimp only
        split
        · exact (letGo_still s _).rest h hw fun _ _ _ heq => by cases heq
        · exact ((linkFailed_still s _ _).trans (letGo_still _ _)).rest h hw fun _ _ _ heq => by cases heq
    · exact h
  · exact h

theorem act_calm {s : Shared} (h : s.Calm none) (t : Nat) (stays : Bool) :
    (s.act t stays).Calm none := by
  unfold act
  split
  · next w hw =>
    split
    · exact (Still.refl s).rest h hw fun _ _ _ heq => by cases heq
    · split
      all_goals
        refine (Still.refl s).rest h hw fun batch failed next heq => ?_
        first
          | cases heq
          | (split at heq <;> cases heq)
    · exact h
  · exact h

theorem letStream_calm {s : Shared} (h : s.Calm none) (t : Nat) : (s.letStream t).Calm none := by
  unfold letStream
  split
  · next w hw =>
    split
    · exact (release_still s _ _).rest h hw fun _ _ _ heq => by cases heq
    · exact h
  · exact h

/-- A waiter whose `kXR_wait` is over sends again, if its stream is still pending: so the
link is not lent. -/
theorem wakeUp_calm {s : Shared} (h : s.Calm none) (t : Nat) (cancelled : Bool)
    (hx : s.Heeds (.wakeUp t cancelled)) : (s.wakeUp t cancelled).Calm none := by
  unfold wakeUp
  split
  · next w hw =>
    split
    · next rest hphase =>
      split
      · exact (Still.refl s).rest h hw fun _ _ _ heq => by cases heq
      split
      · exact (Still.refl s).rest h hw fun _ _ _ heq => by cases heq
      split
      · exact (release_still s _ _).rest h hw fun _ _ _ heq => by cases heq
      rename_i hbox hdead hcancelled
      have hsame := s.machine.core.resume_streams w.sid
      split
      · next core e hresume =>
        have hcore : core.out = s.machine.core.out := by
          unfold MachineState.resume at hresume
          split at hresume
          · cases hresume
            rfl
          · split at hresume <;> cases hresume
        rw [hresume] at hsame
        have hstill : Still s (s.onCore core) :=
          Still.onCore s (fun hup => by rw [hsame.state]; exact hup) hcore
            fun hp => by rw [hsame.pending]; exact hp
        exact hstill.rest h hw fun _ _ _ heq => by cases heq
      · next core hresume =>
        rw [hresume] at hsame
        have hnone : s.bulk = none := by
          cases hbulk : s.bulk with
          | none => rfl
          | some b =>
            rw [MachineState.resume, (h.lent b hbulk).1] at hresume
            cases hresume
        have hwhole : s.torn = false := by
          cases htorn : s.torn with
          | false => rfl
          | true =>
            exact absurd (hx w rest hw hphase (by simpa using hbox) (by simpa using hcancelled) htorn) hdead
        have hqueued : (s.onCore core).queueOut.Calm none :=
          queueOut_calm (s := s.onCore core) h (by
            show MachineState.inBringup core.state = false
            rw [hsame.state]
            exact h.up) rfl rfl rfl hnone rfl rfl (.inr hwhole)
        refine become_calm hqueued (.inl rfl) (fun b hb => ?_) fun _ _ _ heq => by cases heq
        rw [queueOut_bulk] at hb
        have hb' : s.bulk = some b := hb
        rw [hnone] at hb'
        cases hb'
    · exact h
  · exact h

theorem goOut_calm {s : Shared} (h : s.Calm none) (t : Nat) : (s.goOut t).Calm none := by
  unfold goOut
  split
  · next w hw =>
    split
    · exact ((forget_still s _ _ false).calm h).leave t
    · dsimp only
      split
      · exact (forget_still s _ _ true).rest h hw fun _ _ _ heq => by cases heq
      · exact ((forget_still s _ _ true).calm h).leave t
    · exact ((closePath_still s _ _ none).calm h).leave t
    · exact h
  · exact h

theorem adoptPath_calm {s : Shared} (h : s.Calm none) (pathid : Nat) :
    (s.adoptPath pathid).Calm none := by
  unfold adoptPath
  split
  · exact h
  · rename_i hgo
    refine { h with paths := fun p hp => ?_ }
    have hkeys : p.1 = pathid ∨ p.1 ∈ s.paths.map Prod.fst :=
      Assoc.mem_keys_set (List.mem_map_of_mem hp)
    rcases hkeys with hkey | hkey
    · intro hzero
      exact hgo (.inr (.inl (hkey ▸ hzero)))
    · obtain ⟨q, hq, heq⟩ := List.mem_map.mp hkey
      rw [← heq]
      exact h.paths q hq

theorem closed_still (s : Shared) :
    Still s (s.onCore { s.machine.core with state := .closed }) :=
  Still.onCore s (fun _ => rfl) rfl id

theorem close_calm {s : Shared} (h : s.Calm none) (oks : List Bool) : (s.close oks).Calm none := by
  obtain ⟨hup, hpending, -⟩ := s.machine.core.close_reports
  have hdrained : ∀ s' : Shared, s'.Calm none → s'.sender = none → (s'.drainOutq oks).Calm none :=
    fun s' h' hfree => (drainOutq_calm h' hfree oks).1
  unfold close
  dsimp only
  split
  · rename_i hgraceful
    have hnone : s.bulk = none := by
      rw [Bool.and_eq_true] at hgraceful
      simpa using hgraceful.2
    rcases hclose : s.machine.core.close with ⟨core, raised⟩
    rw [hclose] at hup hpending
    cases raised with
    | some e =>
      have hout : core.out = s.machine.core.out := by
        have hrefused := s.machine.core.close_refused_out (e := e) (by rw [hclose])
        rw [hclose] at hrefused
        exact hrefused
      dsimp only
      rw [if_neg (by simp)]
      refine (closed_still _).calm ?_
      exact { h with
        up := hup h.up
        out := hout.trans h.out
        lent := fun b hb => by
          have hb' : s.bulk = some b := hb
          rw [hnone] at hb'
          cases hb' }
    | none =>
      have hqueued : ((s.onMachine { s.machine with core := core }).queueOut true).Calm none :=
        queueOut_calm (s := s.onMachine { s.machine with core := core }) h (hup h.up) rfl rfl rfl
          hnone rfl rfl (.inl rfl)
      have hclosed := (closed_still _).calm hqueued
      dsimp only
      split
      · next hgo => exact hdrained _ hclosed hgo.2
      · exact hclosed
  · rw [if_neg (by simp)]
    exact (closed_still s).calm h

theorem closeLinks_calm {s : Shared} (h : s.Calm none) : s.closeLinks.Calm none := by
  unfold closeLinks
  split
  · exact { h with
      paths := by simp
      lending := fun t r hb => ⟨(h.lending t r hb).1, by simp⟩
      stopped := fun htorn => ⟨by simp, (h.stopped htorn).2⟩ }
  · exact h

/-! ## Bulk transfers -/

theorem bulkTake_calm {s : Shared} (h : s.Calm none) (t : Nat) : (s.bulkTake t).Calm none := by
  unfold bulkTake
  split
  · exact h
  · rename_i hgo
    simp only [not_or, Bool.not_eq_true, Bool.not_eq_false] at hgo
    obtain ⟨hthread, -, hidle, -⟩ := hgo
    have hpending : s.machine.core.pending = [] := by
      simp only [MachineState.idle, Bool.and_eq_true, decide_eq_true_eq] at hidle
      exact hidle.1.2
    have htaken : Calm none { s with bulk := some ⟨t, none⟩, reading := [0] } :=
      { h with
        lent := fun b hb => by
          obtain rfl := Option.some.inj hb
          exact ⟨hpending, hthread⟩
        lending := fun t' r hb => by cases hb }
    exact (queueOut_still _ htaken.out htaken.paths false).calm htaken

theorem bulkLend_calm {s : Shared} (h : s.Calm none) (settings : BulkSettings) (oks : List Bool) :
    (s.bulkLend settings oks).Calm none := by
  unfold bulkLend
  split
  · next t hbulk hfree =>
    obtain ⟨hcalm, hsender, hbulk', hwaiters, hnone⟩ := drainOutq_calm h hfree oks
    have hlent := hcalm.lent ⟨t, none⟩ (hbulk'.trans hbulk)
    have hnobody : ∀ t' batch, ¬ (s.drainOutq oks).Sends t' batch := by
      intro t' batch hs
      have hlock := hcalm.sending t' batch hs
      rw [hsender] at hlock
      cases hlock
    exact {
      up := hcalm.up
      out := hcalm.out
      paths := hcalm.paths
      sending := fun t' batch hs => absurd hs (hnobody t' batch)
      lent := fun b hb => by
        obtain rfl := Option.some.inj hb
        exact hlent
      lending := fun t' r hb => by
        obtain ⟨rfl, -⟩ := Borrower.mk.inj (Option.some.inj hb)
        exact ⟨rfl, hnone⟩
      stopped := fun htorn => ⟨hnone, fun t' batch hs => absurd hs (hnobody t' batch)⟩
      quiet := hcalm.quiet }
  · exact h

/-- A bulk transfer may tear the link; the lock is its own, so nobody has a request to
send. -/
theorem bulkCall_calm {s : Shared} (h : s.Calm none) (call : BulkCall) (incoming : Bytes)
    (ticks : List Tick) : (s.bulkCall call incoming ticks).Calm none := by
  unfold bulkCall
  split
  · next t reader hbulk =>
    obtain ⟨hlock, hnone⟩ := h.lending t reader hbulk
    have hlent := h.lent _ hbulk
    have hnobody : ∀ t' batch, ¬ s.Sends t' batch := by
      rintro t' batch ⟨w, failed, next, hw, hphase⟩
      have hsender := h.sending t' batch ⟨w, failed, next, hw, hphase⟩
      rw [hlock] at hsender
      exact h.apart hw _ hbulk (Option.some.inj hsender)
    exact {
      up := h.up
      out := h.out
      paths := h.paths
      sending := fun t' batch hs => absurd hs (hnobody t' batch)
      lent := fun b hb => by
        obtain rfl := Option.some.inj hb
        exact hlent
      lending := fun t' r hb => by
        obtain ⟨rfl, -⟩ := Borrower.mk.inj (Option.some.inj hb)
        exact ⟨hlock, hnone⟩
      stopped := fun htorn => ⟨hnone, fun t' batch hs => absurd hs (hnobody t' batch)⟩
      quiet := by
        dsimp only
        split
        · exact h.quiet.append fun _ => trivial
        · exact h.quiet }
  · exact h

theorem bulkEnd_calm {s : Shared} (h : s.Calm none) (how : BulkEnd) : (s.bulkEnd how).Calm none := by
  unfold bulkEnd
  split
  · next t reader hbulk =>
    have hended : ∀ s' : Shared, Still s s' →
        Calm none { s'.letGo 0 with bulk := none, sender := none } := by
      intro s' hstill
      have h' := hstill.calm h
      have hbulk' := hstill.bulk.trans hbulk
      have hlock := (h'.lending t reader hbulk').1
      have hnobody : ∀ t' batch, ¬ s'.Sends t' batch := by
        rintro t' batch ⟨w, failed, next, hw, hphase⟩
        have hsender := h'.sending t' batch ⟨w, failed, next, hw, hphase⟩
        rw [hlock] at hsender
        exact h'.apart hw _ hbulk' (Option.some.inj hsender)
      exact {
        up := h'.up
        out := h'.out
        paths := h'.paths
        sending := fun t' batch hs => absurd hs (hnobody t' batch)
        lent := fun b hb => by cases hb
        lending := fun t' r hb => by cases hb
        stopped := fun htorn => ⟨(h'.stopped htorn).1, fun t' batch hs => absurd hs (hnobody t' batch)⟩
        quiet := h'.quiet }
    refine hended _ ?_
    cases how with
    | ok => exact .refl s
    | connection => exact ⟨id, rfl, id, fun _ => id, fun _ hitem _ => hitem, rfl, rfl, rfl, rfl⟩
    | cancelled =>
      dsimp only
      split
      · exact closed_still s
      · exact .refl s
    | other => exact .refl s
  · exact h

/-! ## Reads -/

theorem drained_still (s : Shared) : Still s s.drained :=
  ⟨id, rfl, id, fun _ => id, fun _ hitem _ => hitem, rfl, rfl, rfl, rfl⟩

theorem fed_calm {s : Shared} (h : s.Calm none) (pathid : Nat) (data : Bytes)
    (hsilent : pathid = 0 → data ≠ [] → s.torn = false) : (s.fed pathid data).Calm none := by
  obtain ⟨hup, -, -⟩ := s.machine.receiveData_reports h.up data pathid
  obtain ⟨hout, hpending⟩ := s.machine.receiveData_still h.up data pathid
  have hnoted : (s.noted pathid data).Calm none := by
    unfold noted
    split
    · next hpath =>
      have htorn : Shared.torn { s with line := s.line ++ [.fed data] } = s.torn := by
        simp [torn]
      refine { h with
        stopped := fun ht => h.stopped (htorn ▸ ht)
        quiet := h.quiet.append fun htore => ?_ }
      by_contra hdata
      have hwhole := hsilent hpath hdata
      rw [torn_iff.mpr htore] at hwhole
      cases hwhole
    · exact h
  have hstill : Still (s.noted pathid data) (s.fed pathid data) :=
    ⟨fun _ => hup, by rw [noted_machine]; exact hout, by rw [noted_machine]; exact hpending,
      fun _ => id, fun _ hitem _ => hitem, rfl, rfl, rfl, rfl⟩
  exact hstill.calm hnoted

theorem feed_calm {s : Shared} (h : s.Calm none) (t : Nat) (data : Bytes)
    (hx : s.Heeds (.feed t data)) : (s.feed t data).Calm none := by
  by_cases hreading : ∃ w link, s.waiters.get t = some w ∧ w.phase = .reading link ∧
      s.current w.pathid link = true
  · obtain ⟨w, link, hw, hphase, hcurrent⟩ := hreading
    have hfed : (s.fed w.pathid data).Calm none := by
      refine fed_calm h w.pathid data fun hpath hdata => ?_
      cases htorn : s.torn with
      | false => rfl
      | true =>
        rw [current, hx w hw hpath hdata htorn] at hcurrent
        cases hcurrent
    have hwaiters : (s.fed w.pathid data).waiters = s.waiters :=
      (noted_tidied s w.pathid data).waiters
    rw [feed_reading hw hphase hcurrent]
    split
    · exact (letGo_still _ _).rest hfed (hwaiters.symm ▸ hw) fun _ _ _ heq => by cases heq
    · have hdrained := (drained_still (s.fed w.pathid data)).trans (letGo_still _ w.pathid)
      exact (hdrained.trans (Still.foldl (routeEvent_still w.box) _ _)).rest hfed
        (hwaiters.symm ▸ hw) fun _ _ _ heq => by cases heq
  · unfold feed
    split
    · next w hw =>
      split
      · next link hphase =>
        rw [if_pos (by simpa using fun hcurrent => hreading ⟨w, link, hw, hphase, hcurrent⟩)]
        exact (letGo_still s _).rest h hw fun _ _ _ heq => by cases heq
      · exact h
    · exact h

/-! ## Whole runs -/

theorem step_calm (s : Shared) (x : Move) (hx : s.Heeds x) (h : s.Calm none) :
    (s.step x).Calm none := by
  cases x with
  | start t request path arrive onPath => exact start_calm h t request path arrive onPath hx
  | send t ok => exact send_calm h t ok
  | sendDone t => exact sendDone_calm h t
  | takeSendLock t => exact takeSendLock_calm h t
  | sendRaises t => exact sendRaises_calm h t hx
  | look t => exact look_calm h t
  | giveUp t stall => exact giveUp_calm h t stall
  | feed t data => exact feed_calm h t data hx
  | readFails t how => exact readFails_calm h t how
  | act t stays => exact act_calm h t stays
  | letStream t => exact letStream_calm h t
  | wakeUp t cancelled => exact wakeUp_calm h t cancelled hx
  | goOut t => exact goOut_calm h t
  | adoptPath pathid => exact adoptPath_calm h pathid
  | close oks => exact close_calm h oks
  | closeLinks => exact closeLinks_calm h
  | bulkTake t => exact bulkTake_calm h t
  | bulkLend settings oks => exact bulkLend_calm h settings oks
  | bulkCall call incoming ticks => exact bulkCall_calm h call incoming ticks
  | bulkEnd how => exact bulkEnd_calm h how

theorem opened_calm {m : SessionMachine} (hm : Up m) : (opened m).Calm none where
  up := by
    show MachineState.inBringup m.core.state = false
    rw [hm.ready]
    rfl
  out := hm.out
  paths := by simp [opened]
  sending := fun t batch hs => by
    obtain ⟨w, failed, next, hw, -⟩ := hs
    cases hw
  lent := fun b hb => by cases hb
  lending := fun t r hb => by cases hb
  stopped := fun htorn => by cases htorn
  quiet := quiet_nil

/-- **A torn link carries nothing more**, in every run of every number of threads in which
the session is closed before the next request is started or sent again and before the next
bytes are taken in. -/
theorem torn_link_is_quiet {m : SessionMachine} (hm : Up m) (moves : List Move)
    (hheeds : EachMove Heeds (opened m) moves) : Quiet ((opened m).run moves).line :=
  (run_invariant step_calm hheeds (opened_calm hm)).quiet

/-- A send fails; the session is closed before anybody else comes. -/
def closedAfter : List Move :=
  [.start 1 statRequest [] false false, .send 1 false, .sendDone 1, .close [], .look 1, .act 1 true,
    .goOut 1] ++ sends 2

theorem torn_link_is_quiet_once_closed :
    EachMove Heeds (opened connected) closedAfter ∧
      Quiet ((opened connected).run closedAfter).line := by
  have hheeds : EachMove Heeds (opened connected) closedAfter := by
    refine ⟨fun htorn => ?_, trivial, trivial, trivial, trivial, trivial, trivial, fun _ => ?_,
      trivial, trivial, trivial⟩
    · cases htorn
    · decide +kernel
  exact ⟨hheeds, torn_link_is_quiet connected_up closedAfter hheeds⟩

/-- The send of thread 1 fails part-way, and it leaves.  Thread 2 starts a request on the
same session: its bytes are put on the torn link, and what the next read brings is taken
for the answer to it. -/
def carriedOn : List Move :=
  [.start 1 statRequest [] false false, .send 1 false, .sendDone 1, .look 1, .act 1 true,
    .goOut 1] ++ sends 2 ++ [.look 2, .feed 2 (reply 5), .look 2]

theorem torn_link_carries_on :
    Up connected ∧ ¬ Quiet ((opened connected).run carriedOn).line ∧
      ((opened connected).run carriedOn).waiters.get 2 = some
        ⟨5, 1, 0, false, .acting [⟨.event (.completed 5 statRequest [1, 2] none), some 1⟩]⟩ := by
  refine ⟨connected_up, fun h => ?_, by decide +kernel⟩
  have hline : ((opened connected).run carriedOn).line = [] ++ .tore ::
      [.put ([0, 5, 11, 201] ++ List.replicate 20 0), .fed (reply 5)] := by decide +kernel
  exact h [] _ hline _ List.mem_cons_self

end Shared

end XrdClient.Session
