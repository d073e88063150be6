/-
  Proto/TlsBoundary.lean --- what crosses the TLS upgrade.

  `tls_established` goes on with the bring-up and does not look at the framer.
  Whatever the framer holds at that moment was received in the clear, and is the
  beginning of the first thing read from the encrypted socket.

  The handlers of bring-up neither read the event queue nor look at any stream.
  That is said once, by commuting them with `reframe`, and gives both that they
  preserve an idle connection and that they append the same events to any queue.
-/
import XrdClient.Proto.Run
import XrdClient.Proto.Sync

set_option autoImplicit false

namespace XrdClient.Proto

open XrdClient.Lib
open XrdClient.Auth

namespace MachineState

/-! ## What bring-up does not look at -/

/-- The same machine with more events in front and other streams. -/
def reframe (pre : List Event) (p : Assoc Nat Pending) (r : List Nat) (m : MachineState) :
    MachineState :=
  { m with events := pre ++ m.events, pending := p, retired := r }

section Reframe

variable (pre : List Event) (p : Assoc Nat Pending) (r : List Nat)

@[simp] theorem reframe_emit (m : MachineState) (e : Event) :
    (m.reframe pre p r).emit e = (m.emit e).reframe pre p r := by
  simp [reframe, emit]

@[simp] theorem reframe_fail (m : MachineState) (e : SessionError) :
    (m.reframe pre p r).fail e = (m.fail e).reframe pre p r := by
  simp [reframe, fail, emit]

@[simp] theorem reframe_queueEncoded (m : MachineState) (request : Request) (sid : Nat) :
    (m.reframe pre p r).queueEncoded request sid =
      ((m.queueEncoded request sid).1.reframe pre p r, (m.queueEncoded request sid).2) := by
  unfold queueEncoded
  split <;> rfl

@[simp] theorem reframe_becomeReady (m : MachineState) :
    (m.reframe pre p r).becomeReady = m.becomeReady.reframe pre p r := by
  unfold becomeReady emit reframe
  simp only [List.append_assoc]

@[simp] theorem reframe_ladderSpent (m : MachineState) :
    (m.reframe pre p r).ladderSpent = m.ladderSpent.reframe pre p r := by
  have h : (m.reframe pre p r).authRefusal = m.authRefusal := rfl
  unfold ladderSpent
  rw [h]
  split <;> exact reframe_fail pre p r m _

@[simp] theorem reframe_beginLogin (m : MachineState) :
    (m.reframe pre p r).beginLogin =
      (m.beginLogin.1.reframe pre p r, m.beginLogin.2) := by
  have h : (m.reframe pre p r).bindTo = m.bindTo := rfl
  unfold beginLogin
  rw [h]
  split
  · exact reframe_queueEncoded pre p r { m with state := .bind } _ _
  · exact reframe_queueEncoded pre p r { m with state := .login } _ _

theorem reframe_tlsEstablished (m : MachineState) :
    (m.reframe pre p r).tlsEstablished =
      (m.tlsEstablished.1.reframe pre p r, m.tlsEstablished.2) := by
  have h : (m.reframe pre p r).state = m.state := rfl
  unfold tlsEstablished
  rw [h]
  split
  · rfl
  · exact reframe_beginLogin pre p r { m with tlsActive := true }

@[simp] theorem reframe_afterProtocol (m : MachineState) :
    (m.reframe pre p r).afterProtocol =
      (m.afterProtocol.1.reframe pre p r, m.afterProtocol.2) := by
  have hw : (m.reframe pre p r).wantTls = m.wantTls := rfl
  have hi : (m.reframe pre p r).protocolInfo = m.protocolInfo := rfl
  unfold afterProtocol
  simp only [hw, hi]
  split
  · split
    · exact congrArg (·, none) (reframe_fail pre p r m _)
    · exact congrArg (·, none) (reframe_emit pre p r { m with state := .tls } _)
  · exact reframe_beginLogin pre p r m

theorem reframe_climb : ∀ (fuel : Nat) (m : MachineState) (l : Ladder),
    climb fuel (m.reframe pre p r) l =
      ((climb fuel m l).1.reframe pre p r, (climb fuel m l).2) := by
  intro fuel
  induction fuel with
  | zero =>
    intro m l
    exact congrArg (·, none) (reframe_ladderSpent pre p r m)
  | succ fuel ih =>
    intro m l
    have hm : (m.reframe pre p r).env = m.env := rfl
    have ha : (m.reframe pre p r).authRejected = m.authRejected := rfl
    unfold climb
    rw [hm, ha]
    split
    · rfl
    · rename_i ladder why _
      exact congrArg (·, none)
        (reframe_ladderSpent pre p r { m with credentials := some ladder, authRejected := why })
    · rename_i cred ladder why _
      simp only
      split
      · rename_i text _
        exact ih { m with
          credentials := some ladder, authRejected := why.set cred.name (.raised text) } ladder
      · split
        · rfl
        · exact reframe_queueEncoded pre p r { m with
            credentials := some ladder, authRejected := why, credential := some cred
            mechanism := cred.name } _ _

@[simp] theorem reframe_nextCredential (m : MachineState) (sec : Text) :
    (m.reframe pre p r).nextCredential sec =
      ((m.nextCredential sec).1.reframe pre p r, (m.nextCredential sec).2) := by
  have hc : (m.reframe pre p r).credentials = m.credentials := rfl
  unfold nextCredential
  rw [hc]
  split
  · exact reframe_climb pre p r _ m _
  · exact reframe_climb pre p r _ { m with
      credentials := some (select sec m.config m.authRejected (some m.tlsActive)).1
      authRejected := (select sec m.config m.authRejected (some m.tlsActive)).2 } _

theorem reframe_authStep (m : MachineState) (challenge : Bytes) :
    (m.reframe pre p r).authStep challenge =
      ((m.authStep challenge).1.reframe pre p r, (m.authStep challenge).2) := by
  have hc : (m.reframe pre p r).credential = m.credential := rfl
  unfold authStep
  rw [hc]
  split
  · exact congrArg (·, none) (reframe_fail pre p r m _)
  · rename_i cred _
    simp only
    split
    · exact reframe_nextCredential pre p r { m with
        credential := some { cred with challenges := cred.challenges ++ [challenge] }
        authRejected := m.authRejected.set cred.name (.raised _) } []
    · exact reframe_nextCredential pre p r { m with
        credential := some { cred with challenges := cred.challenges ++ [challenge] }
        authRejected := if m.authRejected.has cred.name then m.authRejected
          else m.authRejected.set cred.name .noAnswer } []
    · split
      · rfl
      · exact reframe_queueEncoded pre p r { m with
          credential := some { cred with challenges := cred.challenges ++ [challenge] } } _ _

theorem reframe_bringup (m : MachineState) (status : Nat) (body : Bytes) :
    (m.reframe pre p r).bringup status body =
      ((m.bringup status body).1.reframe pre p r, (m.bringup status body).2) := by
  have hs : (m.reframe pre p r).state = m.state := rfl
  have hc : (m.reframe pre p r).credential = m.credential := rfl
  unfold bringup
  split
  · unfold bringupError
    split
    · rfl
    · rw [hs, hc]
      split
      · exact reframe_nextCredential pre p r { m with
          authRejected := m.authRejected.set _ (.refused _ (strip _))
          authRefusal := some (_, _), credential := none } []
      · exact congrArg (·, none) (reframe_fail pre p r m _)
  · split
    · rw [hs]
      exact congrArg (·, none) (reframe_fail pre p r m _)
    · unfold bringupReply
      rw [hs]
      split
      · rfl
      · split
        · rfl
        · rename_i info _
          have h := reframe_afterProtocol pre p r ({ m with protocolInfo := info }.emit
            (.negotiated info))
          rw [← h, ← reframe_emit]
          rfl
      · split
        · rfl
        · rename_i pathid _
          exact congrArg (·, none) (reframe_becomeReady pre p r { m with pathid := pathid })
      · simp only
        split
        · exact congrArg (·, none) (reframe_becomeReady pre p r { m with
            sessionId := (parseLogin body).sessid, offered := (parseLogin body).mechanisms })
        · exact reframe_nextCredential pre p r { m with
            sessionId := (parseLogin body).sessid, offered := (parseLogin body).mechanisms
            state := .auth } _
      · split
        · exact reframe_authStep pre p r m body
        · exact congrArg (·, none) (reframe_becomeReady pre p r m)

end Reframe

theorem reframe_self (m : MachineState) : m.reframe [] m.pending m.retired = m := rfl

/-- Bring-up leaves every stream as it is. -/
theorem bringup_streams (m : MachineState) (status : Nat) (body : Bytes) :
    (m.bringup status body).1.pending = m.pending ∧
      (m.bringup status body).1.retired = m.retired := by
  have h := reframe_bringup [] m.pending m.retired m status body
  rw [reframe_self] at h
  rw [h]
  exact ⟨rfl, rfl⟩

/-! ## Connections with no stream -/

/-- No request is in flight and none was given up on. -/
structure Idle (m : MachineState) : Prop where
  pending : m.pending = []
  retired : m.retired = []

/-- More events in front of an idle machine's. -/
def above (pre : List Event) (m : MachineState) : MachineState := m.reframe pre [] []

theorem Idle.above {m : MachineState} (h : m.Idle) (pre : List Event) :
    m.above pre = { m with events := pre ++ m.events } := by
  simp [MachineState.above, reframe, h.pending, h.retired]

theorem Idle.route {m : MachineState} (h : m.Idle) (hs : inBringup m.state = false)
    (sid status : Nat) (body : Bytes) (f : Framer) : m.route sid status body f = (m, f, none) := by
  simp [MachineState.route, hs, h.pending, h.retired]

/-- On an idle connection no frame makes the framer expect anything. -/
theorem Idle.owes {m : MachineState} (h : m.Idle) (sid status : Nat) (body : Bytes) :
    m.owes sid status body = none := by
  have hann : ∀ sid status body, m.announces sid status body = none := by
    intro sid status body
    unfold announces
    split
    · rfl
    · split
      · rfl
      · simp [h.pending, h.retired, Assoc.has]
  unfold MachineState.owes
  split
  · rfl
  · exact hann _ _ _

theorem Idle.dispatch {m : MachineState} (h : m.Idle) (sid status : Nat) (body : Bytes)
    (f : Framer) : (m.dispatch sid status body f).1.Idle := by
  have hroute : ∀ sid status body, (m.route sid status body f).1.Idle := by
    intro sid status body
    by_cases hs : inBringup m.state = true
    · obtain ⟨hp, hr⟩ := bringup_streams m status body
      simp only [MachineState.route, hs, if_true]
      exact ⟨hp.trans h.pending, hr.trans h.retired⟩
    · rw [h.route (by simpa using hs)]
      exact h
  unfold MachineState.dispatch
  split
  · split
    · exact h
    · exact ⟨h.pending, h.retired⟩
    · exact hroute _ _ _
  · exact hroute _ _ _

theorem over_idle (pre : List Event) (m : MachineState) : (m.above pre).Idle := ⟨rfl, rfl⟩

/-- Handling a frame does not look at the events before it. -/
theorem Idle.dispatch_over {m : MachineState} (h : m.Idle) (pre : List Event) (sid status : Nat)
    (body : Bytes) (f : Framer) :
    (m.above pre).dispatch sid status body f =
      ((m.dispatch sid status body f).1.above pre, (m.dispatch sid status body f).2) := by
  have hroute : ∀ sid status body, (m.above pre).route sid status body f =
      ((m.route sid status body f).1.above pre, (m.route sid status body f).2) := by
    intro sid status body
    by_cases hs : inBringup m.state = true
    · have hb := reframe_bringup pre [] [] m status body
      have hs' : inBringup (m.above pre).state = true := hs
      simp only [MachineState.route, hs, hs', if_true]
      rw [MachineState.above, hb]
      rfl
    · have hs' : inBringup m.state = false := by simpa using hs
      rw [h.route hs', (over_idle pre m).route hs']
  unfold MachineState.dispatch
  split
  · split
    · rfl
    · exact congrArg (·, f, none) (reframe_emit pre [] [] m _)
    · exact hroute _ _ _
  · exact hroute _ _ _

end MachineState

open MachineState

namespace Cursor

/-- A cursor on an idle connection: no trailer is owed, and a header that was read
was not past the ceiling. -/
structure Idle (c : Cursor) : Prop where
  machine : c.machine.Idle
  trailer : c.framer.needTrailer = 0
  trailerFor : c.framer.trailerFor = none
  header : ∀ h, c.framer.header = some h → h.dlen ≤ MAX_RESPONSE_BODY

def above (pre : List Event) (c : Cursor) : Cursor := { c with machine := c.machine.above pre }

theorem Idle.turn {c c' : Cursor} {out : List Decoded} (h : c.Idle)
    (ht : c.turn = some (out, c')) : c'.Idle := by
  obtain ⟨_, ⟨hn, _⟩ | ⟨_, _, _, _, heq⟩ | ⟨hd, _, _, _, heq⟩⟩ := turn_cases ht
  · exact absurd h.trailer hn
  · rw [heq]
    unfold readHeader
    split
    · exact ⟨h.machine, h.trailer, h.trailerFor, h.header⟩
    · rename_i hd hread
      refine ⟨h.machine, h.trailer, h.trailerFor, fun hd' hh => ?_⟩
      obtain rfl := Option.some.inj hh
      exact headerFields_dlen_le hread
  · simp only [takeBody, Prod.mk.injEq] at heq
    rw [heq.2]
    refine ⟨h.machine.dispatch _ _ _ _, ?_, ?_, ?_⟩ <;> rw [dispatch_eq, h.machine.owes]
    · exact h.trailer
    · exact h.trailerFor
    · intro hd' hh
      cases hh

/-- A turn does not look at the events before it. -/
theorem Idle.turn_over {c : Cursor} (h : c.Idle) (pre : List Event) :
    (c.above pre).turn = c.turn.map fun t => (t.1, t.2.above pre) := by
  have hf : (c.above pre).framer = c.framer := rfl
  have hr : (c.above pre).raised = c.raised := rfl
  unfold Cursor.turn
  rw [hf, hr, h.trailer]
  split
  · rfl
  · simp only [ne_eq, not_true_eq_false, if_false]
    split
    · split
      · rfl
      · simp only [Option.map_some]
        unfold readHeader
        rw [hf]
        split <;> rfl
    · split
      · rfl
      · simp only [takeBody, Option.map_some]
        rw [hf]
        have hd := h.machine.dispatch_over pre
        simp only [above, hd]

/-- A turn that can be taken is the same turn after more bytes have come in. -/
theorem Idle.turn_feed {c c' : Cursor} {out : List Decoded} (h : c.Idle) (data : Bytes)
    (ht : c.turn = some (out, c')) : (c.feed data).turn = some (out, c'.feed data) := by
  obtain ⟨hr, ⟨hn, _⟩ | ⟨hzero, hheader, hlen, rfl, rfl⟩ | ⟨hd, hzero, hheader, hlen, heq⟩⟩ :=
    turn_cases ht
  · exact absurd h.trailer hn
  · have hread : headerFields (c.feed data).framer.buffer = headerFields c.framer.buffer :=
      headerFields_append data hlen
    have hdrop : (c.framer.buffer ++ data).drop RESPONSE_HDRLEN =
        c.framer.buffer.drop RESPONSE_HDRLEN ++ data := List.drop_append_of_le_length hlen
    have hlen' : RESPONSE_HDRLEN ≤ (c.feed data).framer.buffer.length := by
      simp only [feed, List.length_append]
      omega
    rw [turn_of_header (c := c.feed data) hr hzero hheader hlen']
    unfold readHeader
    rw [hread]
    split
    · rfl
    · simp only [feed, hdrop]
  · have hlen' : hd.dlen ≤ (c.feed data).framer.buffer.length := by
      simp only [feed, List.length_append]
      omega
    have htake : (c.framer.buffer ++ data).take hd.dlen = c.framer.buffer.take hd.dlen :=
      List.take_append_of_le_length hlen
    have hdrop : (c.framer.buffer ++ data).drop hd.dlen = c.framer.buffer.drop hd.dlen ++ data :=
      List.drop_append_of_le_length hlen
    rw [turn_of_body (c := c.feed data) hr hzero hheader hlen']
    simp only [takeBody, Prod.mk.injEq] at heq
    simp only [takeBody, feed, htake, hdrop, heq.1, heq.2, Option.some.injEq, Prod.mk.injEq,
      true_and]
    rw [dispatch_eq _ _ _ _ ⟨_ ++ data, _, _, _⟩, dispatch_eq _ _ _ _ ⟨c.framer.buffer.drop _, _, _, _⟩,
      h.machine.owes]
    rfl

theorem Idle.feed {c : Cursor} (h : c.Idle) (data : Bytes) : (c.feed data).Idle :=
  ⟨h.machine, h.trailer, h.trailerFor, h.header⟩

theorem Idle.parse {c : Cursor} (h : c.Idle) : (parse c).2.Idle :=
  decodeLoop.run_invariant (I := Idle) (fun _ _ _ ht hi => hi.turn ht) h

/-- Parsing now and again when more has come is parsing it all. -/
theorem Idle.parse_feed {c : Cursor} (h : c.Idle) (data : Bytes) :
    (Proto.parse (c.feed data)).2 = (Proto.parse ((Proto.parse c).2.feed data)).2 := by
  have hrun := decodeLoop.run_feed (fun c => c.feed data)
    (fun _ _ _ hi ht => ⟨hi.turn ht, hi.turn_feed data ht⟩) h
  unfold Proto.parse
  rw [hrun]

theorem Idle.parse_over {c : Cursor} (h : c.Idle) (pre : List Event) :
    Proto.parse (c.above pre) = ((Proto.parse c).1, (Proto.parse c).2.above pre) := by
  unfold Proto.parse
  induction c using decodeLoop.run_induction with
  | stop c hstop =>
    have hstop' : decodeLoop.turn (c.above pre) = none := by
      have ht := h.turn_over pre
      rw [show c.turn = none from hstop] at ht
      exact ht
    rw [decodeLoop.run_of_none hstop, decodeLoop.run_of_none hstop']
  | turn c c' out hturn ih =>
    have hturn' : decodeLoop.turn (c.above pre) = some (out, c'.above pre) := by
      have ht := h.turn_over pre
      rw [show c.turn = some (out, c') from hturn] at ht
      exact ht
    rw [decodeLoop.run_of_some hturn, decodeLoop.run_of_some hturn', ih (h.turn hturn)]

theorem feed_nil (c : Cursor) : c.feed [] = c := by
  simp [Cursor.feed]

theorem feed_feed (c : Cursor) (d e : Bytes) : (c.feed d).feed e = c.feed (d ++ e) := by
  simp [Cursor.feed]

end Cursor

/-- The framer waits for more bytes. -/
def Framer.Waits (f : Framer) : Prop :=
  if f.needTrailer ≠ 0 then (f.buffer.length : Int) < f.needTrailer
  else match f.header with
    | none => f.buffer.length < RESPONSE_HDRLEN
    | some h => f.buffer.length < h.dlen

/-- Whether a turn can be taken is a matter of the framer alone. -/
theorem turn_eq_none_iff {m : MachineState} {f : Framer} :
    Cursor.turn ⟨m, f, none⟩ = none ↔ f.Waits := by
  unfold Cursor.turn Framer.Waits
  simp only [Option.isSome_none, Bool.false_eq_true, if_false]
  by_cases hn : f.needTrailer ≠ 0
  · simp [hn]
  · simp only [hn, if_false]
    cases f.header <;> simp

/-! ## Reads of an idle connection -/

/-- A read that raises nothing is a parse of what was buffered and what came. -/
theorem decode_of_not_raised {m : MachineState} {f : Framer} {data : Bytes}
    (h : Cursor.Idle ⟨m, f, none⟩) (hr : (decode m f data).2.raised = none) :
    decode m f data = parse (Cursor.feed ⟨m, f, none⟩ data) := by
  apply decode_eq_parse_of
  intro hbuffer hheader hzero hlen
  cases hread : headerFields data with
  | ok hd =>
    refine ⟨hd, rfl, fun _ => ?_⟩
    rw [h.machine.owes]
    exact Int.le_of_eq hzero.symm
  | error e =>
    have hlen' : ¬ data.length < 8 := Nat.not_lt.mpr hlen
    simp [decode, wholeFrame, hbuffer, hheader, hzero, hlen', hread] at hr

theorem wholeFrame_over {m : MachineState} (h : m.Idle) (pre : List Event) (f : Framer)
    (data : Bytes) :
    wholeFrame (m.above pre) f data =
      (wholeFrame m f data).map fun result => (result.1, result.2.above pre) := by
  unfold wholeFrame
  split
  · rfl
  · split
    · rfl
    · split
      · rfl
      · simp only [h.dispatch_over, Option.map_some]
        rfl

/-- Reading does not look at the events before it. -/
theorem decode_over {m : MachineState} {f : Framer} (h : Cursor.Idle ⟨m, f, none⟩)
    (pre : List Event) (data : Bytes) :
    decode (m.above pre) f data = ((decode m f data).1, (decode m f data).2.above pre) := by
  have hm : m.Idle := h.machine
  unfold decode
  rw [wholeFrame_over hm]
  cases wholeFrame m f data with
  | none => exact Cursor.Idle.parse_over (h.feed data) pre
  | some result => rfl

theorem decode_idle {m : MachineState} {f : Framer} (h : Cursor.Idle ⟨m, f, none⟩)
    (data : Bytes) : (decode m f data).2.Idle := by
  unfold decode
  cases hw : wholeFrame m f data with
  | none => exact (h.feed data).parse
  | some result =>
    obtain ⟨_, _, _, _, ⟨e, _, hresult⟩ | ⟨hd, c, _, _, hturn, hturn', _⟩⟩ := wholeFrame_cases hw
    · rw [hresult]
      exact ⟨h.machine, h.trailer, h.trailerFor, h.header⟩
    · exact ((h.feed data).turn hturn).turn hturn'

/-- Reads of the control link that raise nothing are one parse of their bytes. -/
theorem receiveReads_parse : ∀ (chunks : List Bytes) (m : SessionMachine),
    Cursor.Idle ⟨m.core, m.framer 0, none⟩ → Cursor.turn ⟨m.core, m.framer 0, none⟩ = none →
    (∀ d ∈ chunks, d ≠ []) → (receiveReads m (readsOf 0 chunks)).2.2 = [] →
    (parse (Cursor.feed ⟨m.core, m.framer 0, none⟩ chunks.flatten)).2 =
      ⟨(receiveReads m (readsOf 0 chunks)).2.1.core,
        (receiveReads m (readsOf 0 chunks)).2.1.framer 0, none⟩ := by
  intro chunks
  induction chunks with
  | nil =>
    intro m _ hstop _ _
    rw [List.flatten_nil, Cursor.feed_nil, parse_of_none hstop]
    rfl
  | cons d ds ih =>
    intro m hidle _ hne hquiet
    have hd : d ≠ [] := hne d (by simp)
    simp only [readsOf_cons, receiveReads_cons, List.append_eq_nil_iff,
      Option.toList_eq_nil_iff] at hquiet ⊢
    have hlog : m.receiveLog 0 d =
        ((decode m.core (m.framer 0) d).1,
          ⟨(decode m.core (m.framer 0) d).2.machine,
            m.framers.set 0 (decode m.core (m.framer 0) d).2.framer⟩,
          (decode m.core (m.framer 0) d).2.raised) := by
      simp [SessionMachine.receiveLog, hd]
    have hraised : (decode m.core (m.framer 0) d).2.raised = none := by
      have h := hquiet.1
      rwa [hlog] at h
    have hparse := decode_of_not_raised hidle hraised
    -- The cursor this read leaves behind.
    have hcursor : (⟨(m.receiveLog 0 d).2.1.core, (m.receiveLog 0 d).2.1.framer 0, none⟩ : Cursor) =
        (parse (Cursor.feed ⟨m.core, m.framer 0, none⟩ d)).2 := by
      rw [← hparse, hlog]
      simp [SessionMachine.framer, ← hraised]
    have hidle' : Cursor.Idle ⟨(m.receiveLog 0 d).2.1.core, (m.receiveLog 0 d).2.1.framer 0, none⟩ := by
      rw [hcursor]
      exact (hidle.feed d).parse
    have hstop' : Cursor.turn
        ⟨(m.receiveLog 0 d).2.1.core, (m.receiveLog 0 d).2.1.framer 0, none⟩ = none := by
      rw [hcursor]
      exact decodeLoop.turn_run _
    have hrest := ih (m.receiveLog 0 d).2.1 hidle' hstop' (fun x hx => hne x (by simp [hx])) hquiet.2
    rw [List.flatten_cons, ← Cursor.feed_feed, (hidle.feed d).parse_feed, ← hcursor]
    exact hrest

/-! ## In the clear, waiting for the upgrade -/

/-- In the TLS state frames have no effect but the notices among them. -/
theorem turn_in_tls {c c' : Cursor} {out : List Decoded} (h : c.Idle)
    (hs : c.machine.state = .tls) (ht : c.turn = some (out, c')) :
    ∃ evs, c'.machine = { c.machine with events := c.machine.events ++ evs } := by
  have hsame : c.machine = { c.machine with events := c.machine.events ++ [] } := by simp
  obtain ⟨_, ⟨hn, _⟩ | ⟨_, _, _, _, heq⟩ | ⟨hd, _, _, _, heq⟩⟩ := Cursor.turn_cases ht
  · exact absurd h.trailer hn
  · refine ⟨[], ?_⟩
    rw [heq]
    unfold Cursor.readHeader
    split <;> exact hsame
  · simp only [Cursor.takeBody, Prod.mk.injEq] at heq
    rw [heq.2]
    have hroute := h.machine.route (show inBringup c.machine.state = false by rw [hs]; rfl)
    unfold MachineState.dispatch
    split
    · split
      · exact ⟨[], hsame⟩
      · rename_i info _
        exact ⟨[.attention info], rfl⟩
      · rw [hroute]
        exact ⟨[], hsame⟩
    · rw [hroute]
      exact ⟨[], hsame⟩

theorem parse_in_tls {c : Cursor} (h : c.Idle) (hs : c.machine.state = .tls) :
    ∃ evs, (parse c).2.machine = { c.machine with events := c.machine.events ++ evs } := by
  have hinv : (parse c).2.Idle ∧
      ∃ evs, (parse c).2.machine = { c.machine with events := c.machine.events ++ evs } := by
    refine decodeLoop.run_invariant (I := fun c' => c'.Idle ∧
      ∃ evs, c'.machine = { c.machine with events := c.machine.events ++ evs }) ?_
      ⟨h, [], by simp⟩
    rintro c₁ c₂ out ht ⟨hidle, evs, hevs⟩
    obtain ⟨evs', hevs'⟩ := turn_in_tls hidle (by rw [hevs]; exact hs) ht
    refine ⟨hidle.turn ht, evs ++ evs', ?_⟩
    rw [hevs', hevs]
    simp
  exact hinv.2

/-! ## The upgrade -/

/-- `m` is a machine in bring-up, between reads, that is at `core` once it has read
`reply`: everything up to and including the `kXR_protocol` reply that leads to
`NeedTLS`. -/
structure Upgrade (m : SessionMachine) (reply : Bytes) (core : MachineState) : Prop where
  idle : Cursor.Idle ⟨m.core, m.framer 0, none⟩
  stopped : Cursor.turn ⟨m.core, m.framer 0, none⟩ = none
  reads : (parse (Cursor.feed ⟨m.core, m.framer 0, none⟩ reply)).2 = ⟨core, {}, none⟩
  tls : core.state = .tls

/-- What the machine has been sent in the clear before `tls_established`: `reply`, and
then anything at all, cut into reads anywhere; no read raises, since an exception ends
the bring-up. -/
structure InClear (m : SessionMachine) (reply : Bytes) (chunks : List Bytes) : Prop where
  ne_nil : ∀ d ∈ chunks, d ≠ []
  more : ∃ more, chunks.flatten = reply ++ more
  quiet : (receiveReads m (readsOf 0 chunks)).2.2 = []

/-- The machine when `tls_established` is called. -/
def atUpgrade (m : SessionMachine) (chunks : List Bytes) : SessionMachine :=
  (receiveReads m (readsOf 0 chunks)).2.1

/-- What comes after `tls_established`, given the reads made then: the state and output
with the events produced since, and the exceptions. -/
def produced (m : SessionMachine) (post : List Bytes) : MachineState × List Raised :=
  let r := receiveReads { m with core := m.core.tlsEstablished.1 } (readsOf 0 post)
  ({ r.2.1.core with events := r.2.1.core.events.drop m.core.events.length }, r.2.2)

/-- The machine at the upgrade: `core` with more events, and a framer left by the bytes
after the reply. -/
theorem atUpgrade_eq {m : SessionMachine} {reply : Bytes} {core : MachineState}
    (hup : Upgrade m reply core) {chunks : List Bytes} (hc : InClear m reply chunks) :
    (∃ evs, (atUpgrade m chunks).core = { core with events := core.events ++ evs }) ∧
      core.Idle ∧ Cursor.Idle ⟨core, (atUpgrade m chunks).framer 0, none⟩ ∧
      Cursor.turn ⟨core, (atUpgrade m chunks).framer 0, none⟩ = none := by
  obtain ⟨more, hmore⟩ := hc.more
  have hparse := receiveReads_parse chunks m hup.idle hup.stopped hc.ne_nil hc.quiet
  have hidle : Cursor.Idle ⟨core, {}, none⟩ := by
    rw [← hup.reads]
    exact (hup.idle.feed reply).parse
  rw [hmore, ← Cursor.feed_feed, (hup.idle.feed reply).parse_feed, hup.reads] at hparse
  obtain ⟨evs, hevs⟩ := parse_in_tls (hidle.feed more) hup.tls
  have hidle' := (hidle.feed more).parse
  have hstop : Cursor.turn (parse (Cursor.feed ⟨core, {}, none⟩ more)).2 = none :=
    decodeLoop.turn_run _
  rw [hparse] at hevs hidle' hstop
  refine ⟨⟨evs, hevs⟩, hidle.machine,
    ⟨hidle.machine, hidle'.trailer, hidle'.trailerFor, hidle'.header⟩, ?_⟩
  rw [turn_eq_none_iff] at hstop ⊢
  exact hstop

/-- The same reads on two machines that differ in the events they already have. -/
theorem receiveReads_over (pre : List Event) : ∀ (post : List Bytes) (m n : SessionMachine),
    m.core = n.core.above pre → m.framer 0 = n.framer 0 →
    Cursor.Idle ⟨n.core, n.framer 0, none⟩ →
    (receiveReads m (readsOf 0 post)).2.1.core = (receiveReads n (readsOf 0 post)).2.1.core.above pre ∧
      (receiveReads m (readsOf 0 post)).2.2 = (receiveReads n (readsOf 0 post)).2.2 ∧
      (receiveReads n (readsOf 0 post)).2.1.core.Idle := by
  intro post
  induction post with
  | nil =>
    intro m n hcore _ hidle
    exact ⟨hcore, rfl, hidle.machine⟩
  | cons d ds ih =>
    intro m n hcore hframer hidle
    have hm : n.core.Idle := hidle.machine
    simp only [readsOf_cons, receiveReads_cons]
    by_cases hd : d = []
    · -- The link ends: nothing is in flight to fail.
      have heof : ∀ k : SessionMachine, k.core.Idle →
          (k.receiveLog 0 d).2.1.core =
            (if k.core.state = .closed ∨ k.core.state = .failed then k.core
              else { k.core with state := .closed }.emit (.disconnected .byPeer)) ∧
          (k.receiveLog 0 d).2.2 = none ∧ (k.receiveLog 0 d).2.1.framer 0 = k.framer 0 := by
        intro k hk
        have hfr : (k.receiveLog 0 d).2.1.framer 0 = k.framer 0 := by
          have h := SessionMachine.receiveData_framer k d 0 0
          simpa [SessionMachine.receiveData, hd] using h
        refine ⟨?_, by simp [SessionMachine.receiveLog, hd], hfr⟩
        simp only [SessionMachine.receiveLog, hd, if_true, SessionMachine.onEof]
        split
        · rfl
        · simp [emit, hk.pending]
      have hmidle : m.core.Idle := hcore ▸ over_idle pre n.core
      obtain ⟨hc1, hr1, hf1⟩ := heof m hmidle
      obtain ⟨hc2, hr2, hf2⟩ := heof n hm
      have hstate : m.core.state = n.core.state := by rw [hcore]; rfl
      have hstep : (m.receiveLog 0 d).2.1.core = (n.receiveLog 0 d).2.1.core.above pre := by
        rw [hc1, hc2, hstate]
        split
        · exact hcore
        · rw [hcore]
          exact reframe_emit pre [] [] { n.core with state := .closed } _
      have hnidle : (n.receiveLog 0 d).2.1.core.Idle := by
        rw [hc2]
        split
        · exact hm
        · exact ⟨hm.pending, hm.retired⟩
      obtain ⟨h1, h2, h3⟩ := ih _ _ hstep (by rw [hf1, hf2, hframer])
        ⟨hnidle, by rw [hf2]; exact hidle.trailer, by rw [hf2]; exact hidle.trailerFor,
          by rw [hf2]; exact hidle.header⟩
      exact ⟨h1, by rw [hr1, hr2]; simpa using h2, h3⟩
    · have hlog : ∀ k : SessionMachine, k.receiveLog 0 d =
          ((decode k.core (k.framer 0) d).1,
            ⟨(decode k.core (k.framer 0) d).2.machine,
              k.framers.set 0 (decode k.core (k.framer 0) d).2.framer⟩,
            (decode k.core (k.framer 0) d).2.raised) := by
        intro k
        simp [SessionMachine.receiveLog, hd]
      have hfr : ∀ k : SessionMachine,
          (k.receiveLog 0 d).2.1.framer 0 = (decode k.core (k.framer 0) d).2.framer := by
        intro k
        simp [hlog k, SessionMachine.framer]
      have hdec : decode m.core (m.framer 0) d =
          ((decode n.core (n.framer 0) d).1, (decode n.core (n.framer 0) d).2.above pre) := by
        rw [hcore, hframer]
        exact decode_over hidle pre d
      have hidle' := decode_idle hidle d
      obtain ⟨h1, h2, h3⟩ := ih (m.receiveLog 0 d).2.1 (n.receiveLog 0 d).2.1
        (by rw [hlog m, hlog n, hdec]; rfl) (by rw [hfr m, hfr n, hdec]; rfl)
        (by
          rw [hfr n, hlog n]
          exact ⟨hidle'.machine, hidle'.trailer, hidle'.trailerFor, hidle'.header⟩)
      refine ⟨h1, ?_, h3⟩
      have hraised : (m.receiveLog 0 d).2.2 = (n.receiveLog 0 d).2.2 := by
        rw [hlog m, hlog n, hdec]
        rfl
      rw [hraised]
      exact congrArg _ h2

/-- The machine `tls_established` leaves behind, for a framer it inherits. -/
def upgraded (core : MachineState) (f : Framer) : SessionMachine :=
  ⟨{ core with events := [] }.tlsEstablished.1, [(0, f)]⟩

theorem tlsEstablished_idle {m : MachineState} (h : m.Idle) : m.tlsEstablished.1.Idle := by
  have hre := reframe_tlsEstablished [] m.pending m.retired m
  rw [reframe_self] at hre
  rw [hre]
  exact ⟨h.pending, h.retired⟩

/-- All that what follows depends on is the framer. -/
theorem produced_eq {m : SessionMachine} {reply : Bytes} {core : MachineState}
    (hup : Upgrade m reply core) {chunks : List Bytes} (hc : InClear m reply chunks)
    (post : List Bytes) :
    produced (atUpgrade m chunks) post =
      ((receiveReads (upgraded core ((atUpgrade m chunks).framer 0)) (readsOf 0 post)).2.1.core,
        (receiveReads (upgraded core ((atUpgrade m chunks).framer 0)) (readsOf 0 post)).2.2) := by
  obtain ⟨⟨evs, hevs⟩, hidle, hcur, _⟩ := atUpgrade_eq hup hc
  have hidle0 : { core with events := [] }.Idle := ⟨hidle.pending, hidle.retired⟩
  have hover : (atUpgrade m chunks).core = { core with events := [] }.above (core.events ++ evs) := by
    rw [hevs, hidle0.above]
    simp
  have htls : (atUpgrade m chunks).core.tlsEstablished.1 =
      { core with events := [] }.tlsEstablished.1.above (core.events ++ evs) := by
    rw [hover, MachineState.above, reframe_tlsEstablished]
    rfl
  have hlen : (atUpgrade m chunks).core.events = core.events ++ evs := by rw [hevs]
  obtain ⟨h1, h2, h3⟩ := receiveReads_over (core.events ++ evs) post
    { atUpgrade m chunks with core := (atUpgrade m chunks).core.tlsEstablished.1 }
    (upgraded core ((atUpgrade m chunks).framer 0)) htls rfl
    ⟨tlsEstablished_idle hidle0, hcur.trailer, hcur.trailerFor, hcur.header⟩
  simp only [produced]
  rw [h1, h2, hlen, h3.above]
  simp

/-! ## Nothing is left behind unnoticed -/

/-- The states `tls_established` goes on to. -/
def AwaitsLogin (m : MachineState) : Prop := m.state = .login ∨ m.state = .bind

theorem tlsEstablished_awaitsLogin {m : MachineState} (hs : m.state = .tls) :
    AwaitsLogin m.tlsEstablished.1 := by
  have hq : ∀ (k : MachineState) (request : Request) (sid : Nat),
      (k.queueEncoded request sid).1.state = k.state := by
    intro k request sid
    unfold queueEncoded
    split <;> rfl
  unfold tlsEstablished beginLogin AwaitsLogin
  rw [if_neg (by simp [hs])]
  split
  · exact .inr (hq _ _ _)
  · exact .inl (hq _ _ _)

/-- The ladder stays where it is or fails. -/
theorem climb_state : ∀ (fuel : Nat) (m : MachineState) (l : Ladder),
    (climb fuel m l).1.state = m.state ∨ (climb fuel m l).1.state = .failed := by
  have hspent : ∀ k : MachineState, k.ladderSpent.state = .failed := by
    intro k
    unfold ladderSpent
    split <;> rfl
  intro fuel
  induction fuel with
  | zero => intro m l; exact .inr (hspent m)
  | succ fuel ih =>
    intro m l
    unfold climb
    split
    · exact .inl rfl
    · exact .inr (hspent _)
    · simp only
      split
      · exact ih _ _
      · split
        · exact .inl rfl
        · left
          unfold queueEncoded
          split <;> rfl

theorem nextCredential_state (m : MachineState) (sec : Text) :
    (m.nextCredential sec).1.state = m.state ∨ (m.nextCredential sec).1.state = .failed := by
  unfold nextCredential
  split
  · exact climb_state _ _ _
  · exact climb_state _ _ _

/-- Something about the machine shows that a frame was handled. -/
def Noticed (m : MachineState) (m' : MachineState) (raised : Option Raised) : Prop :=
  m'.state ≠ m.state ∨ m'.events ≠ m.events ∨ raised ≠ none

/-- Whatever frame reaches a machine that awaits its login, it is noticed. -/
theorem bringup_noticed {m : MachineState} (hs : AwaitsLogin m) (status : Nat) (body : Bytes) :
    Noticed m (m.bringup status body).1 (m.bringup status body).2 := by
  have hfail : ∀ e, Noticed m (m.fail e) none := by
    intro e
    left
    rcases hs with h | h <;> rw [h] <;> simp [fail, emit]
  unfold bringup
  split
  · unfold bringupError
    split
    · exact .inr (.inr (by simp))
    · split
      · rename_i hauth _
        rcases hs with h | h <;> rw [h] at hauth <;> cases hauth
      · exact hfail _
  · split
    · exact hfail _
    · unfold bringupReply
      rcases hs with h | h
      · rw [h]
        simp only
        split
        · left
          rw [h]
          simp [becomeReady, emit]
        · left
          rw [h]
          obtain hst | hst := nextCredential_state { m with
            sessionId := (parseLogin body).sessid, offered := (parseLogin body).mechanisms
            state := .auth } (parseLogin body).sec <;> rw [hst] <;> simp
      · rw [h]
        simp only
        split
        · exact .inr (.inr (by simp))
        · left
          rw [h]
          simp [becomeReady, emit]

theorem dispatch_noticed {m : MachineState} (hs : AwaitsLogin m) (sid status : Nat) (body : Bytes)
    (f : Framer) :
    Noticed m (m.dispatch sid status body f).1 (m.dispatch sid status body f).2.2 := by
  have hb : inBringup m.state = true := by rcases hs with h | h <;> rw [h] <;> rfl
  have hroute : ∀ sid status body,
      Noticed m (m.route sid status body f).1 (m.route sid status body f).2.2 := by
    intro sid status body
    simp only [MachineState.route, hb, if_true]
    exact bringup_noticed hs status body
  unfold MachineState.dispatch
  split
  · split
    · exact .inr (.inr (by simp))
    · exact .inr (.inl (by simp [emit]))
    · exact hroute _ _ _
  · exact hroute _ _ _

/-- A frame whose last byte has just come in. -/
theorem parse_noticed {c : Cursor} (h : c.Idle) (hr : c.raised = none) (hs : AwaitsLogin c.machine)
    {hd : Header} (hheader : c.framer.header = some hd)
    (hlen : c.framer.buffer.length = hd.dlen) :
    Noticed c.machine (parse c).2.machine (parse c).2.raised := by
  have hturn : c.turn = some ((c.takeBody hd).1, (c.takeBody hd).2) :=
    Cursor.turn_of_body hr h.trailer hheader (Nat.le_of_eq hlen.symm)
  have hidle : (c.takeBody hd).2.Idle := h.turn hturn
  have hstop : (c.takeBody hd).2.turn = none := by
    by_cases hr' : (c.takeBody hd).2.raised = none
    · have hempty : (c.takeBody hd).2.framer.buffer = [] := by
        simp [Cursor.takeBody, ← hlen]
      have hnone : (c.takeBody hd).2.framer.header = none := by
        simp [Cursor.takeBody]
      have hzero := hidle.trailer
      simp [Cursor.turn, hr', hzero, hnone, hempty, RESPONSE_HDRLEN]
    · exact Cursor.turn_of_raised hr'
  rw [parse_of_some hturn, parse_of_none hstop]
  exact dispatch_noticed hs _ _ _ _

/-- The first `n` bytes of a frame with the largest body there is. -/
def probe (n : Nat) : Bytes :=
  (headerBytes ⟨0, 0, MAX_RESPONSE_BODY⟩ ++ List.replicate n 0).take n

@[simp] theorem length_probe (n : Nat) : (probe n).length = n := by
  simp [probe]

theorem header_probe_wf : (⟨0, 0, MAX_RESPONSE_BODY⟩ : Header).WellFormed :=
  ⟨by decide, by decide, Nat.le_refl _⟩

/-- A machine that held nothing takes no notice of part of a frame. -/
theorem decode_probe (m : MachineState) {n : Nat} (hn : n < 8 + MAX_RESPONSE_BODY) :
    (decode m {} (probe n)).2.machine = m ∧ (decode m {} (probe n)).2.raised = none := by
  by_cases hshort : n < 8
  · have hw : wholeFrame m {} (probe n) = none := by simp [wholeFrame, hshort]
    have hstop : Cursor.turn (Cursor.feed ⟨m, {}, none⟩ (probe n)) = none := by
      simp [Cursor.turn, Cursor.feed, RESPONSE_HDRLEN, hshort]
    rw [decode, hw]
    simp only [parse_of_none hstop]
    exact ⟨rfl, rfl⟩
  · have hsplit : probe n = headerBytes ⟨0, 0, MAX_RESPONSE_BODY⟩ ++ List.replicate (n - 8) 0 := by
      unfold probe
      rw [List.take_append, List.take_of_length_le (by simp; omega), length_headerBytes,
        List.take_replicate, Nat.min_eq_left (by omega)]
    have hread : headerFields (probe n) = .ok ⟨0, 0, MAX_RESPONSE_BODY⟩ := by
      rw [hsplit]
      exact headerFields_headerBytes header_probe_wf _
    have hdrop : ((probe n).drop RESPONSE_HDRLEN).length = n - 8 := by
      simp [RESPONSE_HDRLEN]
    have hw : wholeFrame m {} (probe n) = none := by
      simp [wholeFrame, hread, hshort, RESPONSE_HDRLEN]
      omega
    have hturn : Cursor.turn (Cursor.feed ⟨m, {}, none⟩ (probe n)) =
        some ([], ⟨m, ⟨(probe n).drop RESPONSE_HDRLEN, some ⟨0, 0, MAX_RESPONSE_BODY⟩, 0, none⟩,
          none⟩) := by
      simp [Cursor.turn, Cursor.feed, RESPONSE_HDRLEN, hshort, Cursor.readHeader, hread]
    have hstop : Cursor.turn ⟨m, ⟨(probe n).drop RESPONSE_HDRLEN,
        some ⟨0, 0, MAX_RESPONSE_BODY⟩, 0, none⟩, none⟩ = none := by
      rw [turn_eq_none_iff]
      simp only [Framer.Waits, ne_eq, not_true_eq_false, if_false, hdrop]
      omega
    rw [decode, hw]
    simp only [parse_of_some hturn, parse_of_none hstop]
    exact ⟨trivial, trivial⟩

/-- Whatever a framer holds, there are bytes that it makes a frame of. -/
theorem decode_probe_noticed {m : MachineState} (hs : AwaitsLogin m) {f : Framer}
    (h : Cursor.Idle ⟨m, f, none⟩) (hwaits : f.Waits) (hf : f ≠ {}) :
    ∃ n, 0 < n ∧ n < 8 + MAX_RESPONSE_BODY ∧
      Noticed m (decode m f (probe n)).2.machine (decode m f (probe n)).2.raised := by
  obtain ⟨buffer, header, needTrailer, trailerFor⟩ := f
  have hzero : needTrailer = 0 := h.trailer
  have hfor : trailerFor = none := h.trailerFor
  subst hzero hfor
  cases header with
  | some hd =>
    have hle : hd.dlen ≤ MAX_RESPONSE_BODY := h.header hd rfl
    have hlt : buffer.length < hd.dlen := by simpa [Framer.Waits] using hwaits
    refine ⟨hd.dlen - buffer.length, by omega, by omega, ?_⟩
    have hw : ∀ data, wholeFrame m ⟨buffer, some hd, 0, none⟩ data = none := by
      intro data
      simp [wholeFrame]
    rw [decode, hw]
    refine parse_noticed (h.feed _) rfl hs rfl ?_
    simp only [Cursor.feed, List.length_append, length_probe]
    omega
  | none =>
    have hlt : buffer.length < 8 := by simpa [Framer.Waits, RESPONSE_HDRLEN] using hwaits
    have hne : buffer ≠ [] := by
      rintro rfl
      exact hf rfl
    have hpos : 0 < buffer.length := List.length_pos_iff.mpr hne
    have hw : ∀ data, wholeFrame m ⟨buffer, none, 0, none⟩ data = none := by
      intro data
      simp [wholeFrame, hne]
    -- The header that these bytes and the probe's first ones add up to.
    have hread : ∀ k, headerFields (buffer ++ probe (8 - buffer.length + k)) =
        headerFields (buffer ++ probe (8 - buffer.length)) := by
      intro k
      have hsplit : probe (8 - buffer.length + k) =
          probe (8 - buffer.length) ++ (probe (8 - buffer.length + k)).drop (8 - buffer.length) := by
        have htake : (probe (8 - buffer.length + k)).take (8 - buffer.length) =
            probe (8 - buffer.length) := by
          unfold probe
          rw [List.take_take, Nat.min_eq_left (by omega), List.take_append_of_le_length (by simp),
            List.take_append_of_le_length (by simp)]
        conv_lhs => rw [← List.take_append_drop (8 - buffer.length) (probe _), htake]
      rw [hsplit, ← List.append_assoc]
      exact headerFields_append _ (by simp; omega)
    have hturn : ∀ k, Cursor.turn (Cursor.feed ⟨m, ⟨buffer, none, 0, none⟩, none⟩
        (probe (8 - buffer.length + k))) = some ([], Cursor.readHeader
          (Cursor.feed ⟨m, ⟨buffer, none, 0, none⟩, none⟩ (probe (8 - buffer.length + k)))) := by
      intro k
      refine Cursor.turn_of_header rfl rfl rfl ?_
      simp only [Cursor.feed, List.length_append, length_probe, RESPONSE_HDRLEN]
      omega
    cases hhd : headerFields (buffer ++ probe (8 - buffer.length)) with
    | error e =>
      refine ⟨8 - buffer.length + 0, by omega, by omega, ?_⟩
      have hcur : Cursor.readHeader (Cursor.feed ⟨m, ⟨buffer, none, 0, none⟩, none⟩
          (probe (8 - buffer.length + 0))) =
          ⟨m, ⟨buffer ++ probe (8 - buffer.length + 0), none, 0, none⟩, some (.protocol e)⟩ := by
        simp only [Cursor.readHeader, Cursor.feed, hread, hhd]
      rw [decode, hw]
      simp only [parse_of_some (hturn 0), hcur]
      rw [parse_of_none (Cursor.turn_of_raised (by simp))]
      exact .inr (.inr (by simp))
    | ok hd =>
      have hle := headerFields_dlen_le hhd
      refine ⟨8 - buffer.length + hd.dlen, by omega, by omega, ?_⟩
      have hcur : Cursor.readHeader (Cursor.feed ⟨m, ⟨buffer, none, 0, none⟩, none⟩
          (probe (8 - buffer.length + hd.dlen))) =
          ⟨m, ⟨(buffer ++ probe (8 - buffer.length + hd.dlen)).drop RESPONSE_HDRLEN, some hd, 0,
            none⟩, none⟩ := by
        simp only [Cursor.readHeader, Cursor.feed, hread, hhd]
      have hidle := (h.feed (probe (8 - buffer.length + hd.dlen))).turn (hturn hd.dlen)
      rw [hcur] at hidle
      rw [decode, hw]
      simp only [parse_of_some (hturn hd.dlen), hcur]
      refine parse_noticed hidle rfl hs rfl ?_
      simp only [List.length_drop, List.length_append, length_probe, RESPONSE_HDRLEN]
      omega

/-- The run in which nothing but the reply is sent in the clear. -/
theorem reply_inClear {m : SessionMachine} {reply : Bytes} {core : MachineState}
    (hup : Upgrade m reply core) :
    ∃ chunks, InClear m reply chunks ∧ (atUpgrade m chunks).framer 0 = {} := by
  have hframer : ∀ chunks, InClear m reply chunks → chunks.flatten = reply →
      (atUpgrade m chunks).framer 0 = {} := by
    intro chunks hc hflat
    have hparse := receiveReads_parse chunks m hup.idle hup.stopped hc.ne_nil hc.quiet
    rw [hflat, hup.reads] at hparse
    exact (congrArg Cursor.framer hparse).symm
  by_cases hreply : reply = []
  · have hc : InClear m reply [] := ⟨by simp, ⟨[], by simp [hreply]⟩, rfl⟩
    exact ⟨[], hc, hframer [] hc (by simp [hreply])⟩
  · have hdec : decode m.core (m.framer 0) reply =
        parse (Cursor.feed ⟨m.core, m.framer 0, none⟩ reply) := by
      apply decode_eq_parse_of
      intro hbuffer hheader hzero hlen
      cases hread : headerFields reply with
      | ok hd =>
        refine ⟨hd, rfl, fun _ => ?_⟩
        rw [hup.idle.machine.owes]
        exact Int.le_of_eq hzero.symm
      | error e =>
        -- The loop would have refused this header too.
        have hturn := Cursor.turn_of_header (c := Cursor.feed ⟨m.core, m.framer 0, none⟩ reply)
          rfl hzero hheader (by simpa [Cursor.feed, hbuffer] using hlen)
        have hcur : Cursor.readHeader (Cursor.feed ⟨m.core, m.framer 0, none⟩ reply) =
            ⟨m.core, (Cursor.feed ⟨m.core, m.framer 0, none⟩ reply).framer,
              some (.protocol e)⟩ := by
          simp [Cursor.readHeader, Cursor.feed, hbuffer, hread]
        have hreads := hup.reads
        rw [parse_of_some hturn, hcur, parse_of_none (Cursor.turn_of_raised (by simp))] at hreads
        cases congrArg Cursor.raised hreads
    have hquiet : (receiveReads m (readsOf 0 [reply])).2.2 = [] := by
      have hraised : (m.receiveLog 0 reply).2.2 = none := by
        simp [SessionMachine.receiveLog, hreply, hdec, hup.reads]
      simp [receiveReads_cons, hraised, readsOf, receiveReads]
    have hc : InClear m reply [reply] := ⟨by simpa using hreply, ⟨[], by simp⟩, hquiet⟩
    exact ⟨[reply], hc, hframer [reply] hc (by simp)⟩

/-- One read after the upgrade. -/
theorem upgraded_read (core : MachineState) (f : Framer) {data : Bytes} (hd : data ≠ []) :
    (receiveReads (upgraded core f) (readsOf 0 [data])).2.1.core =
        (decode (upgraded core f).core f data).2.machine ∧
      (receiveReads (upgraded core f) (readsOf 0 [data])).2.2 =
        (decode (upgraded core f).core f data).2.raised.toList := by
  have hframer : (upgraded core f).framer 0 = f := by
    simp [upgraded, SessionMachine.framer, Assoc.get_cons]
  simp [readsOf, receiveReads, SessionMachine.receiveLog, hd, hframer]

/-- What follows `tls_established` is independent of the bytes received in the clear
after the reply exactly when they left nothing in the framer. -/
theorem tls_boundary_iff {m : SessionMachine} {reply : Bytes} {core : MachineState}
    (hup : Upgrade m reply core) {chunks : List Bytes} (hc : InClear m reply chunks) :
    (∀ chunks', InClear m reply chunks' → (atUpgrade m chunks').framer 0 = {} →
      ∀ post, produced (atUpgrade m chunks) post = produced (atUpgrade m chunks') post) ↔
    (atUpgrade m chunks).framer 0 = {} := by
  constructor
  · intro h
    by_contra hf
    obtain ⟨chunks', hc', hf'⟩ := reply_inClear hup
    obtain ⟨_, hidle, hcur, hstop⟩ := atUpgrade_eq hup hc
    have hidle0 : { core with events := [] }.Idle := ⟨hidle.pending, hidle.retired⟩
    have hlogin : AwaitsLogin (upgraded core ((atUpgrade m chunks).framer 0)).core :=
      tlsEstablished_awaitsLogin hup.tls
    obtain ⟨n, hpos, hn, hnoticed⟩ := decode_probe_noticed hlogin
      ⟨tlsEstablished_idle hidle0, hcur.trailer, hcur.trailerFor, hcur.header⟩
      (turn_eq_none_iff.mp hstop) hf
    have hne : probe n ≠ [] := by
      intro hnil
      have hlen := congrArg List.length hnil
      simp at hlen
      omega
    have hsame := h chunks' hc' hf' [probe n]
    rw [produced_eq hup hc, produced_eq hup hc', hf'] at hsame
    obtain ⟨hcoreA, hraisedA⟩ := upgraded_read core ((atUpgrade m chunks).framer 0) hne
    obtain ⟨hcoreB, hraisedB⟩ := upgraded_read core {} hne
    obtain ⟨hsilent, hquiet⟩ := decode_probe (upgraded core {}).core hn
    rw [hcoreA, hraisedA, hcoreB, hraisedB, hsilent, hquiet] at hsame
    obtain ⟨hcore, hraised⟩ := Prod.mk.inj hsame
    obtain hstate | hevents | hr := hnoticed
    · exact hstate (congrArg MachineState.state hcore)
    · exact hevents (congrArg MachineState.events hcore)
    · exact hr (by simpa using hraised)
  · intro hf chunks' hc' hf' post
    rw [produced_eq hup hc, produced_eq hup hc', hf, hf']

/-- A client that wants TLS, after the handshake reply. -/
def wantingTls : SessionMachine :=
  (SessionMachine.of (.new bareEnv "server".toList 1094 {} [] true)).run
    [.start, .receiveData 0 (bringUpReplies.headD [])]

/-- The `kXR_protocol` reply that offers TLS, and a forged login reply, cut short by one
byte, behind it. -/
def offersTls : Bytes := headerBytes ⟨1, kXR_ok, 8⟩ ++ [0, 0, 5, 32, 128, 0, 0, 0]

@[inherit_doc offersTls]
def forgedLogin : Bytes := headerBytes ⟨2, kXR_ok, 16⟩ ++ List.replicate 15 66

/-- The session id of the forged reply is believed once any one byte has come over
TLS; without the forged bytes that byte does nothing. -/
theorem forged_login_believed_after_tls :
    (receiveReads wantingTls (readsOf 0 [offersTls ++ forgedLogin])).2.2 = [] ∧
      (receiveReads wantingTls (readsOf 0 [offersTls])).2.2 = [] ∧
      (atUpgrade wantingTls [offersTls ++ forgedLogin]).core.state = .tls ∧
      (produced (atUpgrade wantingTls [offersTls ++ forgedLogin]) [[66]]).1.state = .ready ∧
      (produced (atUpgrade wantingTls [offersTls ++ forgedLogin]) [[66]]).1.sessionId =
        List.replicate 16 66 ∧
      (produced (atUpgrade wantingTls [offersTls]) [[66]]).1.state = .login := by
  refine ⟨by decide, by decide, by decide, by decide, by decide, by decide⟩

/-- A whole `kXR_attn` behind the reply leaves nothing in the framer. -/
def noticeFrame : Bytes := headerBytes ⟨0, kXR_attn, 4⟩ ++ [0, 0, 0, 1]

theorem notice_in_clear_is_harmless :
    produced (atUpgrade wantingTls [offersTls ++ noticeFrame]) [[66]] =
      produced (atUpgrade wantingTls [offersTls]) [[66]] := by
  have hcursor : ∀ c : Cursor, c.framer = {} → c.raised = none → c = ⟨c.machine, {}, none⟩ := by
    rintro ⟨_, _, _⟩ rfl rfl
    rfl
  have hup : Upgrade wantingTls offersTls
      (parse (Cursor.feed ⟨wantingTls.core, wantingTls.framer 0, none⟩ offersTls)).2.machine :=
    ⟨⟨⟨by decide, by decide⟩, by decide, by decide, fun h hh => (by cases hh)⟩, rfl,
      hcursor _ (by decide) (by decide), by decide⟩
  exact (tls_boundary_iff hup ⟨by decide, ⟨noticeFrame, by decide⟩, by decide⟩).mpr (by decide)
    [offersTls] ⟨by decide, ⟨[], by decide⟩, by decide⟩ (by decide) [[66]]

end XrdClient.Proto
