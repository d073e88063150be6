/-
  Session/Lead.lean --- one thread reads a link for everyone waiting on it.

  Source: `session/sync.py`, `Session._events_for`, `_lead`, `_pump`,
  `_route_event`, `_close_path`, `_fail_all`, and `_await`'s clean-up.

  Every request has a mailbox.  Whoever finds the link without a reader takes a
  turn at reading it, feeds the machine and files the events in the mailboxes.
  A parser's exception passes through the turn: it is raised in the reader, and
  nothing is filed.  `isolated_iff` says exactly when that does no harm.

  A box is a list of what was filed in it; the boxes are told apart by the
  stream they are for.  The copy of an error that `_echo` makes is the error.
-/
import XrdClient.Proto.World

set_option autoImplicit false

namespace XrdClient

open XrdClient.Lib
open XrdClient.Proto

/-- What is filed in a mailbox. -/
inductive Mail where
  | event (e : Event)
  /-- `Failed(sid, None, _echo(error))`: the session tells a waiter of a failure
  that another thread saw. -/
  | echo (error : SessionError)
  /-- `Failed(None, None, error)`, for the thread that saw it. -/
  | lost (error : SessionError)
  deriving DecidableEq

/-- What was filed fails the waiter that finds it. -/
def Mail.isFailure : Mail → Bool
  | .event (.failed _ _ _) | .echo _ | .lost _ => true
  | .event _ => false

/-- A session, as far as reading is concerned. -/
structure Session where
  machine : SessionMachine
  inbox : Assoc Nat (List Mail) := []
  notices : List AttnInfo := []
  /-- The data paths that are bound. -/
  paths : List Nat := []

namespace Session

/-- The mailbox of a stream. -/
def box (s : Session) (sid : Nat) : List Mail := (s.inbox.get sid).getD []

/-- `box.append(...)`, for a box that is made when it is not there. -/
def file (s : Session) (sid : Nat) (mail : Mail) : Session :=
  { s with inbox := s.inbox.set sid (s.box sid ++ [mail]) }

/-- `_fail_all`: a copy of the error in every mailbox but the reader's. -/
def failAll (s : Session) (error : SessionError) (own : Nat) : Session :=
  { s with inbox := s.inbox.map fun p =>
      (p.1, if p.1 = own then p.2 else p.2 ++ [.echo error]) }

/-- `_session_lost`. -/
def sessionLost (s : Session) (error : SessionError) (own : Nat) : Session :=
  (s.file own (.lost error)).failAll error own

/-- `_close_path`: fail the requests routed over it, then have the machine forget
it. -/
def closePath (s : Session) (pathid : Nat) (error : SessionError) (own : Nat) : Session :=
  let lost := SessionMachine.streamsOn s.machine.core pathid
  let inbox :=
    if pathid ∈ s.paths then
      s.inbox.map fun p =>
        (p.1, if p.1 ∈ lost ∧ p.1 ≠ own then p.2 ++ [.echo error] else p.2)
    else s.inbox
  { s with
    machine := s.machine.forgetPath pathid
    inbox := inbox
    paths := s.paths.filter (· ≠ pathid) }

/-- `_route_event`: file one event where it belongs. -/
def routeEvent (own : Nat) (s : Session) (e : Event) : Session :=
  match e.stream with
  | some sid => s.file sid (.event e)
  | none =>
      match e with
      | .attention info => { s with notices := s.notices ++ [info] }
      | .pathLost pathid => s.closePath pathid (.pathClosed pathid) own
      | .disconnected _ => s.sessionLost .closedByPeer own
      | .failed _ _ error => s.sessionLost error own
      | _ => s

/-- `_pump` on bytes that arrived: feed the machine and drain it. -/
def pump (s : Session) (pathid : Nat) (data : Bytes) : Except Raised (List Event) × Session :=
  match s.machine.receiveData data pathid with
  | (m, some e) => (.error e, { s with machine := m })
  | (m, none) =>
      (.ok m.core.events, { s with machine := { m with core := { m.core with events := [] } } })

/-- `_lead`: one turn as the link's reader.  What the machine raised is neither a
connection error nor a timeout, so nobody else is told of it. -/
def lead (s : Session) (pathid own : Nat) (data : Bytes) : Option Raised × Session :=
  match s.pump pathid data with
  | (.error e, s) => (some e, s)
  | (.ok events, s) => (none, events.foldl (routeEvent own) s)

/-- `_forget(sid, box, abandon=True)`. -/
def forget (s : Session) (sid : Nat) : Session :=
  if s.inbox.has sid then
    { s with
      inbox := s.inbox.del sid
      machine := { s.machine with core := s.machine.core.abandon sid } }
  else s

/-- A turn as `_await` takes it: what is raised in it ends the reader's request. -/
def turn (s : Session) (pathid own : Nat) (data : Bytes) : Option Raised × Session :=
  match s.lead pathid own data with
  | (some e, s) => (some e, s.forget own)
  | (none, s) => (none, s)

/-- What a turn filed for a stream. -/
def newMail (s : Session) (result : Option Raised × Session) (sid : Nat) : List Mail :=
  (result.2.box sid).drop (s.box sid).length

end Session

/-! ## Filing -/

namespace Session

theorem box_file (s : Session) (sid other : Nat) (mail : Mail) :
    (s.file sid mail).box other = s.box other ++ if other = sid then [mail] else [] := by
  simp only [file, box, Assoc.get_set]
  split
  · rename_i h
    simp [h]
  · simp

/-- An event that is a notice or about a stream. -/
def Plain (e : Event) : Prop := (∃ info, e = .attention info) ∨ ∃ sid, e.stream = some sid

/-- The events about a stream, as they are filed. -/
def mailFor (sid : Nat) (events : List Event) : List Mail :=
  (events.filter fun e => e.stream = some sid).map .event

theorem box_routeEvent (own : Nat) (s : Session) {e : Event} (h : Plain e) (sid : Nat) :
    (routeEvent own s e).box sid = s.box sid ++ mailFor sid [e] := by
  obtain ⟨info, rfl⟩ | ⟨other, he⟩ := h
  · simp [routeEvent, Event.stream, box, mailFor]
  · simp only [routeEvent, he, box_file, mailFor]
    by_cases hs : sid = other
    · simp [hs, he]
    · simp [hs, he, Ne.symm hs]

theorem box_routeEvents (own sid : Nat) : ∀ (events : List Event) (s : Session),
    (∀ e ∈ events, Plain e) →
    (events.foldl (routeEvent own) s).box sid = s.box sid ++ mailFor sid events := by
  intro events
  induction events with
  | nil => intro s _; simp [mailFor]
  | cons e events ih =>
    intro s h
    rw [List.foldl_cons, ih _ fun e' he' => h e' (List.mem_cons_of_mem _ he'),
      box_routeEvent own s (h e (by simp)), List.append_assoc]
    simp only [mailFor, ← List.map_append, ← List.filter_append, List.singleton_append]

end Session

/-! ## The replies in the bytes received -/

/-- The units that are complete within the first `n` bytes. -/
def complete : Nat → List Decoded → List Decoded
  | _, [] => []
  | n, u :: us => if u.wire.length ≤ n then u :: complete (n - u.wire.length) us else []

theorem complete_prefix : ∀ (n : Nat) (us : List Decoded), complete n us <+: us := by
  intro n us
  induction us generalizing n with
  | nil => exact List.prefix_refl _
  | cons u us ih =>
    unfold complete
    split
    · exact (List.prefix_cons_inj u).mpr (ih _)
    · exact List.nil_prefix

/-- A prefix that fits is among the complete units. -/
theorem prefix_complete : ∀ {vs us : List Decoded} {n : Nat}, vs <+: us → wireLength vs ≤ n →
    vs <+: complete n us := by
  intro vs
  induction vs with
  | nil => intro us n _ _; exact List.nil_prefix
  | cons v vs ih =>
    intro us n hp hlen
    obtain ⟨ws, rfl⟩ := hp
    rw [wireLength_cons] at hlen
    rw [List.cons_append, complete, if_pos (by omega)]
    exact (List.prefix_cons_inj v).mpr (ih (List.prefix_append _ _) (by omega))

/-- Once the next unit does not fit, these are the complete ones. -/
theorem complete_append : ∀ {us vs : List Decoded} {n k : Nat}, k + wireLength us = n →
    (∀ v ws, vs = v :: ws → k < v.wire.length) → complete n (us ++ vs) = us := by
  intro us
  induction us with
  | nil =>
    intro vs n k hk hnext
    cases vs with
    | nil => rfl
    | cons v ws =>
      have hlt := hnext v ws rfl
      simp only [wireLength_nil, Nat.add_zero] at hk
      rw [List.nil_append, complete, if_neg (by omega)]
  | cons u us ih =>
    intro vs n k hk hnext
    rw [wireLength_cons] at hk
    have hn : n - u.wire.length = k + wireLength us := by omega
    rw [List.cons_append, complete, if_pos (by omega), hn, ih rfl hnext]

/-- A reply that whatever parses its body rejects. -/
def Malformed (m : MachineState) (us : List Decoded) (u : Decoded) : Prop :=
  ∃ vs ws, us = vs ++ u :: ws ∧ ¬ Accepted (replay m vs) u

/-- A well-formed reply among those received. -/
def Answered (m : MachineState) (us : List Decoded) (u : Decoded) : Prop :=
  ∃ vs ws, us = vs ++ u :: ws ∧ Accepted (replay m vs) u ∧ answers (replay m vs) u = true

/-- A machine that is up stays up, whatever it is sent. -/
theorem replay_ready (us : List Decoded) : ∀ {m : MachineState}, m.state = .ready →
    (replay m us).state = .ready := by
  induction us with
  | nil => intro m h; exact h
  | cons u us ih =>
    intro m h
    refine ih ?_
    have hready : MachineState.inBringup m.state = false := by rw [h]; rfl
    obtain hsame | ⟨_, _, hsame, _⟩ | ⟨_, _, _, hsame, _⟩ | ⟨_, _, hsame, _⟩ :=
      deliver_outcome m u hready
    · rw [hsame.state, h]
    · rw [hsame.state, MachineState.release_state, h]
    · rw [hsame.state]
      exact h
    · rw [hsame.state]
      exact h

/-- Replies add notices and events about streams only. -/
theorem replay_plain (us : List Decoded) : ∀ {m : MachineState}, m.state = .ready →
    (∀ e ∈ m.events, Session.Plain e) → ∀ e ∈ (replay m us).events, Session.Plain e := by
  induction us with
  | nil => intro m _ h; exact h
  | cons u us ih =>
    intro m hready h
    obtain ⟨es, hes, hplain⟩ := deliver_events m u (by rw [hready]; rfl)
    refine ih (replay_ready [u] hready) fun e he => ?_
    rw [hes] at he
    obtain hold | hnew := List.mem_append.mp he
    · exact h e hold
    · exact (hplain e hnew).imp id fun hs => ⟨_, hs.1⟩

/-- What is due to be reported is for one stream exactly when that holds of what is
due already and of every well-formed reply. -/
theorem due_only_iff (own : Nat) : ∀ (us : List Decoded) {m : MachineState}, m.state = .ready →
    ((∀ e ∈ (replay m us).events, ∀ sid, e.stream = some sid → sid = own) ↔
      (∀ e ∈ m.events, ∀ sid, e.stream = some sid → sid = own) ∧
        ∀ u, Answered m us u → u.stream = own) := by
  intro us
  induction us with
  | nil =>
    intro m _
    refine ⟨fun h => ⟨h, ?_⟩, And.left⟩
    rintro u ⟨vs, ws, hus, _⟩
    simp at hus
  | cons v us ih =>
    intro m hready
    have hready' : (deliver m v).1.state = .ready := replay_ready [v] hready
    rw [replay_cons, ih hready']
    have hsplit : (∀ u, Answered m (v :: us) u → u.stream = own) ↔
        ((Accepted m v ∧ answers m v = true) → v.stream = own) ∧
          ∀ u, Answered (deliver m v).1 us u → u.stream = own := by
      constructor
      · intro h
        refine ⟨fun hv => h v ⟨[], us, rfl, hv⟩, ?_⟩
        rintro u ⟨vs, ws, hus, hu⟩
        exact h u ⟨v :: vs, ws, by simp [hus], hu⟩
      · rintro ⟨hv, hrest⟩ u ⟨vs, ws, hus, hu⟩
        cases vs with
        | nil =>
          obtain ⟨rfl, rfl⟩ := List.cons.inj hus
          exact hv hu
        | cons x vs =>
          obtain ⟨rfl, hus'⟩ := List.cons.inj hus
          exact hrest u ⟨vs, ws, hus', hu⟩
    rw [hsplit]
    obtain ⟨hacc, hans, e, hev, he⟩ | ⟨hno, es, hev, hnotice⟩ :=
      deliver_answers m v (by rw [hready]; rfl)
    · rw [hev]
      simp only [List.mem_append, List.mem_singleton, hacc, hans, and_self, true_implies]
      constructor
      · rintro ⟨hev, hrest⟩
        exact ⟨fun e' he' => hev e' (.inl he'), hev e (.inr rfl) _ he, hrest⟩
      · rintro ⟨hold, hv, hrest⟩
        refine ⟨?_, hrest⟩
        rintro e' (he' | rfl) sid hsid
        · exact hold e' he' sid hsid
        · rw [he] at hsid
          obtain rfl := Option.some.inj hsid
          exact hv
    · rw [hev]
      constructor
      · rintro ⟨hev, hrest⟩
        exact ⟨fun e' he' => hev e' (List.mem_append_left _ he'), fun h => absurd h hno, hrest⟩
      · rintro ⟨hold, _, hrest⟩
        refine ⟨fun e' he' sid hsid => ?_, hrest⟩
        obtain hmem | hmem := List.mem_append.mp he'
        · exact hold e' hmem sid hsid
        · obtain ⟨info, rfl⟩ := hnotice e' hmem
          cases hsid

namespace Session

/-- The replies in what has been received on a link and not been decoded yet. -/
def received (s : Session) (pathid : Nat) (data : Bytes) (left : Left) : List Decoded :=
  complete ((s.machine.framer pathid).held + data.length) left.units

/-- Bytes arrive on a link of a session that is up.  The link stands somewhere in
a sequence of frames, and each status block with data is a reply to a stream
that is waiting or was given up on. -/
structure Reads (s : Session) (pathid : Nat) (data rest : Bytes) (left : Left) : Prop where
  ready : s.machine.core.state = .ready
  arrived : data ≠ []
  aligned : Aligned (s.machine.framer pathid) left (data ++ rest)
  replies : Each Expected s.machine.core (s.received pathid data left)
  plain : ∀ e ∈ s.machine.core.events, Plain e

section Turn

variable {s : Session} {pathid own : Nat} {data rest : Bytes} {left : Left}

/-- What the decoder takes: all the replies there are, if it accepts them all, and
else it raises. -/
theorem Reads.decoded (h : s.Reads pathid data rest left) :
    (Each Accepted s.machine.core (s.received pathid data left) ∧
        ∃ m, s.machine.receiveData data pathid = (m, none) ∧
          m.core = replay s.machine.core (s.received pathid data left)) ∨
      (¬ Each Accepted s.machine.core (s.received pathid data left) ∧
        ∃ m e, s.machine.receiveData data pathid = (m, some e)) := by
  have hwithin : Within Expected s.machine.core left.units
      ((s.machine.framer pathid).held + data.length) := by
    intro vs ws hus hlen
    have hpre : vs <+: s.received pathid data left := prefix_complete ⟨ws, hus.symm⟩ hlen
    obtain ⟨xs, hxs⟩ := hpre
    have hall := h.replies
    rw [← hxs, each_append] at hall
    exact hall.1
  obtain ⟨left', hrec⟩ := receiveLog_received s.machine pathid h.arrived h.aligned
    (receiveLog_expected s.machine pathid h.aligned (hwithin.foreseen _))
  rcases hres : s.machine.receiveLog pathid data with ⟨log, m, raised⟩
  rw [hres] at hrec
  have hdata : s.machine.receiveData data pathid = (m, raised) := by
    rw [SessionMachine.receiveData, hres]
  have hlog : log <+: s.received pathid data left := by
    refine prefix_complete ⟨left'.units, hrec.units.symm⟩ ?_
    have hheld := hrec.held
    simp only at hheld
    omega
  obtain ⟨more, hmore⟩ := hlog
  have hstopped := hrec.stopped
  cases raised with
  | none =>
    have hall : s.received pathid data left = log := by
      unfold received
      rw [hrec.units]
      exact complete_append hrec.held (hrec.next rfl)
    rw [hall]
    exact .inl ⟨hstopped, m, hdata, hrec.core⟩
  | some e =>
    refine .inr ⟨fun hacc => ?_, m, e, hdata⟩
    obtain ⟨us, u, hus, _, hraised⟩ := hstopped
    rw [← hmore, each_append] at hacc
    have hlast := hacc.1
    simp only at hus
    rw [hus, each_append] at hlast
    have hnone : (deliver (replay s.machine.core us) u).2 = none := hlast.2.1
    rw [hnone] at hraised
    cases hraised

/-- A waiter learns of a failure: it is the reader and the turn raised, or a failure
was filed for it. -/
def Fails (s : Session) (own : Nat) (result : Option Raised × Session) (sid : Nat) : Prop :=
  (sid = own ∧ result.1 ≠ none) ∨
    ∃ mail ∈ s.newMail result sid, mail.isFailure = true

/-- A turn keeps a malformed reply to the stream it is for: a waiter whose reply is
malformed learns of it; the reader is not failed for another's; and whatever the
replies received report to other streams is filed there, now. -/
structure Isolated (s : Session) (pathid own : Nat) (data : Bytes) (us : List Decoded) :
    Prop where
  blamed : ∀ u, Malformed s.machine.core us u → s.inbox.has u.stream = true →
    s.Fails own (s.turn pathid own data) u.stream
  spared : (s.turn pathid own data).1 ≠ none →
    ∃ u, Malformed s.machine.core us u ∧ u.stream = own
  delivered : ∀ sid, sid ≠ own → s.newMail (s.turn pathid own data) sid =
    mailFor sid (replay s.machine.core us).events

theorem box_forget (s : Session) {sid own : Nat} (h : sid ≠ own) :
    (s.forget own).box sid = s.box sid := by
  unfold forget
  split
  · simp only [box, Assoc.get_del, if_neg h]
  · rfl

/-- The turn when every reply is accepted. -/
theorem Reads.turn_of_accepted (h : s.Reads pathid data rest left) (own : Nat)
    (hacc : Each Accepted s.machine.core (s.received pathid data left)) :
    (s.turn pathid own data).1 = none ∧ ∀ sid, s.newMail (s.turn pathid own data) sid =
      mailFor sid (replay s.machine.core (s.received pathid data left)).events := by
  obtain ⟨_, m, hdata, hcore⟩ | ⟨hno, _⟩ := h.decoded
  · have hplain := replay_plain (s.received pathid data left) h.ready h.plain
    rw [← hcore] at hplain ⊢
    have hturn : s.turn pathid own data = (none, m.core.events.foldl (routeEvent own)
        { s with machine := { m with core := { m.core with events := [] } } }) := by
      simp only [turn, lead, pump, hdata]
    rw [hturn]
    refine ⟨rfl, fun sid => ?_⟩
    simp only [newMail, box_routeEvents own sid m.core.events _ hplain]
    exact List.drop_left
  · exact absurd hacc hno

/-- The turn when some reply is not: it raises, and files nothing. -/
theorem Reads.turn_of_malformed (h : s.Reads pathid data rest left) (own : Nat)
    (hacc : ¬ Each Accepted s.machine.core (s.received pathid data left)) :
    (s.turn pathid own data).1 ≠ none ∧ ∀ sid, sid ≠ own →
      s.newMail (s.turn pathid own data) sid = [] := by
  obtain ⟨hyes, _⟩ | ⟨_, m, e, hdata⟩ := h.decoded
  · exact absurd hyes hacc
  · have hturn : s.turn pathid own data = (some e, { s with machine := m }.forget own) := by
      simp only [turn, lead, pump, hdata]
    rw [hturn]
    refine ⟨by simp, fun sid hs => ?_⟩
    simp only [newMail, box_forget _ hs]
    exact List.drop_length

/-- A turn isolates exactly when nothing received is malformed, or the reader's own
reply is and nothing received is for any other stream that is being waited for. -/
theorem isolated_iff (h : s.Reads pathid data rest left) :
    s.Isolated pathid own data (s.received pathid data left) ↔
      Each Accepted s.machine.core (s.received pathid data left) ∨
      ((∃ u, Malformed s.machine.core (s.received pathid data left) u ∧ u.stream = own) ∧
        (∀ u, Malformed s.machine.core (s.received pathid data left) u →
          s.inbox.has u.stream = true → u.stream = own) ∧
        (∀ e ∈ s.machine.core.events, ∀ sid, e.stream = some sid → sid = own) ∧
        ∀ u, Answered s.machine.core (s.received pathid data left) u → u.stream = own) := by
  rw [← due_only_iff own (s.received pathid data left) h.ready]
  by_cases hacc : Each Accepted s.machine.core (s.received pathid data left)
  · obtain ⟨hnone, hmail⟩ := h.turn_of_accepted own hacc
    refine iff_of_true ⟨?_, fun hraised => absurd hnone hraised, fun sid _ => hmail sid⟩ (.inl hacc)
    rintro u ⟨vs, ws, hus, hbad⟩ _
    rw [hus, each_append] at hacc
    exact absurd hacc.2.1 hbad
  · obtain ⟨hraised, hmail⟩ := h.turn_of_malformed own hacc
    constructor
    · intro hiso
      refine .inr ⟨hiso.spared hraised, fun u hu hbox => ?_, fun e he sid hsid => ?_⟩
      · by_contra hne
        obtain ⟨hown, _⟩ | ⟨mail, hmem, _⟩ := hiso.blamed u hu hbox
        · exact hne hown
        · rw [hmail _ hne] at hmem
          cases hmem
      · by_contra hne
        -- An event that is due to another stream is not filed.
        have hdue := hiso.delivered sid hne
        rw [hmail sid hne] at hdue
        have hmem : Mail.event e ∈ mailFor sid
            (replay s.machine.core (s.received pathid data left)).events :=
          List.mem_map.mpr ⟨e, List.mem_filter.mpr ⟨he, by simpa using hsid⟩, rfl⟩
        rw [← hdue] at hmem
        cases hmem
    · rintro (hyes | ⟨hown, honly, hdue⟩)
      · exact absurd hyes hacc
      · refine ⟨fun u hu hbox => .inl ⟨honly u hu hbox, hraised⟩, fun _ => hown, ?_⟩
        intro sid hne
        have hnone : mailFor sid
            (replay s.machine.core (s.received pathid data left)).events = [] := by
          simp only [mailFor, List.map_eq_nil_iff, List.filter_eq_nil_iff, decide_eq_true_eq]
          exact fun e he hsid => hne (hdue e he sid hsid)
        rw [hmail sid hne, hnone]

end Turn

/-- Requests wait on streams 4 and 5. -/
def twoWaiting : Session where
  machine := .of { MachineState.bare .ready with
    pending := [(4, { request := statRequest, parts := [] }),
      (5, { request := statRequest, parts := [] })] }
  inbox := [(4, []), (5, [])]

/-- A redirect on stream 5 that is too short to be one. -/
def shortRedirect : Frame :=
  .plain 5 kXR_redirect [0, 0] ⟨by decide, by decide, by decide⟩ (by decide)

theorem twoWaiting_reads (fr : Frame) (hdata : fr.trailer = []) :
    twoWaiting.Reads 0 fr.wire [] (.frames [fr]) := by
  have hnone : declares fr.header fr.body = 0 := by rw [fr.trailer_length, hdata]; rfl
  refine ⟨rfl, ?_, ⟨⟨rfl, rfl, rfl⟩, by simp [Left.bytes]; rfl⟩, ?_, fun e he => by cases he⟩
  · simp [Frame.wire, headerBytes, beBytes]
  · have hunits : (Left.frames [fr]).units = [.frame fr.header fr.body] := by
      simp [Left.units, Frame.units, Frame.data, hdata]
    obtain ⟨more, hpre⟩ := complete_prefix
      ((twoWaiting.machine.framer 0).held + fr.wire.length) (Left.frames [fr]).units
    have hall : Each Expected twoWaiting.machine.core (Left.frames [fr]).units := by
      rw [hunits]
      exact ⟨.inl hnone, trivial⟩
    rw [← hpre, each_append] at hall
    exact hall.1

/-- The redirect for stream 5 fails the request on stream 4, which happened to be
reading, and stream 5 is left waiting. -/
theorem reader_fails_for_another : twoWaiting.Reads 0 shortRedirect.wire [] (.frames [shortRedirect]) ∧
    (twoWaiting.turn 0 4 shortRedirect.wire).1 ≠ none ∧
    (twoWaiting.turn 0 4 shortRedirect.wire).2.inbox = [(5, [])] ∧
    ¬ twoWaiting.Isolated 0 4 shortRedirect.wire
      (twoWaiting.received 0 shortRedirect.wire (.frames [shortRedirect])) := by
  refine ⟨twoWaiting_reads _ rfl, by decide, by decide, fun h => ?_⟩
  have hbad : Malformed twoWaiting.machine.core
      (twoWaiting.received 0 shortRedirect.wire (.frames [shortRedirect]))
      (.frame shortRedirect.header shortRedirect.body) :=
    ⟨[], [], by decide, by decide⟩
  obtain ⟨hown, _⟩ | ⟨mail, hmem, _⟩ := h.blamed _ hbad (by decide)
  · exact absurd hown (by decide)
  · have hnone : twoWaiting.newMail (twoWaiting.turn 0 4 shortRedirect.wire)
        (Decoded.frame shortRedirect.header shortRedirect.body).stream = [] := by decide
    rw [hnone] at hmem
    cases hmem

/-- Read by the thread it is for, the same reply harms nobody. -/
theorem malformed_reply_to_reader_is_isolated :
    twoWaiting.Reads 0 shortRedirect.wire [] (.frames [shortRedirect]) ∧
    twoWaiting.Isolated 0 5 shortRedirect.wire
      (twoWaiting.received 0 shortRedirect.wire (.frames [shortRedirect])) := by
  have hreads := twoWaiting_reads shortRedirect rfl
  have hus : twoWaiting.received 0 shortRedirect.wire (.frames [shortRedirect]) =
      [.frame shortRedirect.header shortRedirect.body] := by decide
  have honly : ∀ {u}, u ∈ twoWaiting.received 0 shortRedirect.wire (.frames [shortRedirect]) →
      u.stream = 5 := by
    intro u hu
    rw [hus] at hu
    obtain rfl := List.mem_singleton.mp hu
    decide
  refine ⟨hreads, (isolated_iff hreads).mpr (.inr ⟨?_, ?_, (fun e he => by cases he), ?_⟩)⟩
  · exact ⟨_, ⟨[], [], hus, by decide⟩, by decide⟩
  · rintro u ⟨vs, ws, hvs, _⟩ _
    exact honly (hvs ▸ by simp)
  · rintro u ⟨vs, ws, hvs, _⟩
    exact honly (hvs ▸ by simp)

end Session

end XrdClient
