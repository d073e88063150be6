/-
  Proto/Endings.lean --- every request ends once.

  `Books` follow a run of a session machine: which request an id was last given
  to, what the machine reported about it, and which requests the caller gave up
  itself (released, abandoned, or forgot with their path).

  Everything rests on one fact about a single unit off the wire, `deliver_report`:
  it reports nothing about a stream, or something about a stream that is pending,
  and the stream stays pending exactly when that was not the last of it.
-/
import XrdClient.Lib.Log
import XrdClient.Proto.Pool

set_option autoImplicit false

namespace XrdClient.Proto

open XrdClient.Lib

/-- The last event of a request. -/
def Event.isLast : Event → Bool
  | .completed _ _ _ _ | .failed _ _ _ => true
  | _ => false

/-! ## What one unit reports -/

/-- What a unit for stream `sid` reports, and what becomes of the stream. -/
inductive Report (m : MachineState) (sid : Nat) (m' : MachineState) : Prop where
  | quiet (es : List Event) (events : m'.events = m.events ++ es)
      (about : ∀ e ∈ es, e.stream = none)
      (pending : ∀ s, m'.pending.has s = m.pending.has s)
  | told (e : Event) (events : m'.events = m.events ++ [e]) (about : e.stream = some sid)
      (last : e.isLast = false) (found : m.pending.has sid = true)
      (pending : ∀ s, m'.pending.has s = m.pending.has s)
  | ended (e : Event) (events : m'.events = m.events ++ [e]) (about : e.stream = some sid)
      (last : e.isLast = true) (found : m.pending.has sid = true)
      (pending : ∀ s, m'.pending.has s = (decide (s ≠ sid) && m.pending.has s))

namespace MachineState

variable {m : MachineState} {sid : Nat} {p : Pending}

theorem release_has (h : m.pending.has sid = true) (s : Nat) :
    (m.release sid).pending.has s = (decide (s ≠ sid) && m.pending.has s) := by
  rw [release, if_pos h]
  exact has_del m sid s

theorem setPending_has (h : m.pending.has sid = true) (p' : Pending) (s : Nat) :
    (m.pending.set sid p').has s = m.pending.has s := by
  rw [has_set]
  by_cases hs : s = sid
  · simp [hs, h]
  · simp [hs]

theorem report_refl (m : MachineState) (sid : Nat) : Report m sid m :=
  .quiet [] (by simp) (by simp) fun _ => rfl

/-- The record goes, and the last event with it. -/
theorem report_release (h : m.pending.has sid = true) {e : Event} (habout : e.stream = some sid)
    (hlast : e.isLast = true) : Report m sid ((m.release sid).emit e) :=
  .ended e (by rw [emit, release_events]) habout hlast h (release_has h)

/-- The record stays, whatever it has taken in. -/
theorem report_emit (h : m.pending.has sid = true) (p' : Pending) {e : Event}
    (habout : e.stream = some sid) (hlast : e.isLast = false) :
    Report m sid ({ m with pending := m.pending.set sid p' }.emit e) :=
  .told e rfl habout hlast h (setPending_has h p')

theorem report_emit_same (h : m.pending.has sid = true) {e : Event}
    (habout : e.stream = some sid) (hlast : e.isLast = false) : Report m sid (m.emit e) :=
  .told e rfl habout hlast h fun _ => rfl

theorem withinCap_report (h : m.pending.has sid = true) (extra : Nat) :
    m.withinCap sid p extra = (true, m) ∨
      ∃ m', m.withinCap sid p extra = (false, m') ∧ Report m sid m' := by
  unfold withinCap
  split
  · exact .inl rfl
  · exact .inr ⟨_, rfl, report_release h rfl rfl⟩

theorem onStatusData_report (data : Bytes) : Report m sid (m.onStatusData sid data) := by
  unfold onStatusData
  split
  · exact report_refl m sid
  next p hp =>
  have hhas : m.pending.has sid = true := Assoc.has_eq_true.mpr ⟨p, hp⟩
  split
  · exact report_refl m sid
  obtain hw | ⟨m', hw, hreport⟩ := withinCap_report (p := p) hhas data.length
  · simp only [hw]
    split
    · exact report_release hhas rfl rfl
    · exact report_emit hhas _ rfl rfl
  · simp only [hw]
    exact hreport

/-- A report by a machine that differs in the record of the stream only. -/
theorem report_of_set (h : m.pending.has sid = true) {p' : Pending} {m' : MachineState}
    (hreport : Report { m with pending := m.pending.set sid p' } sid m') : Report m sid m' := by
  have hsame := setPending_has h p'
  cases hreport with
  | quiet es events about pending =>
    exact .quiet es events about fun s => (pending s).trans (hsame s)
  | told e events about last found pending =>
    exact .told e events about last h fun s => (pending s).trans (hsame s)
  | ended e events about last found pending =>
    refine .ended e events about last h fun s => (pending s).trans ?_
    exact congrArg _ (hsame s)

theorem respond_report (status : Nat) (block : Bytes) (f : Framer)
    (hp : m.pending.get sid = some p) : Report m sid (m.respond sid status block p f).1 := by
  have h : m.pending.has sid = true := Assoc.has_eq_true.mpr ⟨p, hp⟩
  unfold respond
  split_ifs
  · unfold responseOk
    obtain hw | ⟨m', hw, hreport⟩ := withinCap_report (p := p) h block.length
    · simp only [hw]
      exact report_release h rfl rfl
    · simp only [hw]
      exact hreport
  · unfold responseChunk
    obtain hw | ⟨m', hw, hreport⟩ := withinCap_report (p := p) h block.length
    · simp only [hw]
      exact report_emit h _ rfl rfl
    · simp only [hw]
      exact hreport
  · unfold responseError
    split
    · exact report_refl m sid
    · exact report_release h rfl rfl
  · unfold responseRedirect
    split
    · exact report_refl m sid
    · exact report_emit_same h rfl rfl
  · unfold responseWait
    split
    · exact report_refl m sid
    · exact report_emit_same h rfl rfl
  · unfold responseWaitresp
    split
    · exact report_refl m sid
    · exact report_emit_same h rfl rfl
  · unfold responseStatus
    split
    · exact report_refl m sid
    next info _ =>
    dsimp only
    split
    · exact .quiet [] (by simp) (by simp) (setPending_has h _)
    · exact report_of_set h (onStatusData_report [])
  · exact report_release h rfl rfl

/-- **One unit off the wire**, once bring-up is over. -/
theorem deliver_report (m : MachineState) (u : Decoded) (hready : inBringup m.state = false) :
    Report m u.stream (deliver m u).1 := by
  cases u with
  | trailer sid data => exact onStatusData_report data
  | frame h body =>
    cases he : effective h.sid h.status body with
    | none =>
      obtain ⟨es, hevents, hnotices⟩ := notice_events he
      refine .quiet es hevents (fun e hmem => ?_) fun s => ?_
      · obtain ⟨info, rfl⟩ := hnotices e hmem
        rfl
      · rw [(deliver_of_notice he).pending]
    | some e =>
      obtain ⟨sid, status, block⟩ := e
      have hstream : (Decoded.frame h body).stream = sid := by simp [Decoded.stream, streamOf, he]
      rw [hstream, deliver_of_effective he]
      simp only [route, hready, Bool.false_eq_true, if_false]
      cases hp : m.pending.get sid with
      | some p => exact respond_report status block {} hp
      | none =>
        dsimp only
        split
        · refine .quiet [] (by simp [retiredReply_events]) (by simp) fun s => ?_
          obtain hsame | ⟨hfreed, -⟩ := m.retiredReply_cases sid status block {}
          · rw [hsame.pending]
          · rw [hfreed.pending]
            rfl
        · exact report_refl m sid

/-! ## One record for each stream -/

/-- The table of pending streams is a dictionary. -/
def Keyed (m : MachineState) : Prop := (m.pending.map Prod.fst).Nodup

theorem keyed_of_pending {m' : MachineState} (h : m'.pending = m.pending) (hm : m.Keyed) :
    m'.Keyed := by
  unfold Keyed
  rw [h]
  exact hm

theorem release_keyed (hm : m.Keyed) (sid : Nat) : (m.release sid).Keyed := by
  unfold release
  split
  · exact Assoc.nodup_del hm sid
  · exact hm

theorem abandon_keyed (hm : m.Keyed) (sid : Nat) : (m.abandon sid).Keyed := by
  unfold abandon
  split
  · exact Assoc.nodup_del hm sid
  · exact hm

theorem setPending_keyed (hm : m.Keyed) (sid : Nat) (p : Pending) :
    { m with pending := m.pending.set sid p }.Keyed :=
  Assoc.nodup_set hm sid p

theorem releases_keyed (sids : List Nat) (hm : m.Keyed) : (sids.foldl release m).Keyed := by
  induction sids generalizing m with
  | nil => exact hm
  | cons sid sids ih => exact ih (release_keyed hm sid)

theorem deliver_state (u : Decoded) (hready : inBringup m.state = false) :
    (deliver m u).1.state = m.state := by
  cases deliver_outcome m u hready with
  | kept streams => exact streams.state
  | ended p found streams cause => exact streams.state.trans (release_state m u.stream)
  | noted p p' found streams status => exact streams.state
  | freed retired lost streams final => exact streams.state

theorem deliver_keyed (hm : m.Keyed) (u : Decoded) (hready : inBringup m.state = false) :
    (deliver m u).1.Keyed := by
  cases deliver_outcome m u hready with
  | kept streams => exact keyed_of_pending streams.pending hm
  | ended p found streams cause => exact keyed_of_pending streams.pending (release_keyed hm _)
  | noted p p' found streams status =>
    exact keyed_of_pending streams.pending (setPending_keyed hm _ p')
  | freed retired lost streams final => exact keyed_of_pending streams.pending hm

/-- Nothing off the wire makes a stream pending. -/
theorem deliver_pending_nil (h : m.pending = []) (u : Decoded) : (deliver m u).1.pending = [] := by
  by_cases hready : inBringup m.state = true
  · cases u with
    | trailer sid data => simp [deliver, onStatusData, h]
    | frame hd body =>
      have hroute : ∀ sid status block f, (m.route sid status block f).1.pending = [] := by
        intro sid status block f
        rw [route, if_pos hready]
        exact (congrArg (fun t => t.1) (m.bringup_table status block)).trans h
      simp only [deliver, dispatch]
      split
      · split
        · exact h
        · exact h
        · exact hroute _ _ _ _
      · exact hroute _ _ _ _
  · cases deliver_outcome m u (by simpa using hready) with
    | kept streams => exact streams.pending.trans h
    | ended p found streams cause => simp [h] at found
    | noted p p' found streams status => simp [h] at found
    | freed retired lost streams final => exact streams.pending.trans h

end MachineState

/-! ## The books of a run -/

/-- What a run has come to, request by request. -/
structure Books where
  /-- The request an id was last given to. -/
  owner : Assoc Nat Nat := []
  /-- The number of the next request. -/
  next : Nat := 0
  /-- Each event about a stream, and the request its id was last given to. -/
  told : List (Nat × Event) := []
  /-- The requests the caller gave up itself. -/
  gaveUp : List Nat := []

namespace Books

/-- The events that are about the stream of a request, with the request. -/
def tag (owner : Assoc Nat Nat) (es : List Event) : List (Nat × Event) :=
  es.filterMap fun e => (e.stream.bind owner.get).map fun k => (k, e)

/-- The events a call makes the machine report. -/
def said (m : SessionMachine) : Op → List Event
  | .nextEvent | .drain => []
  | op => (m.step op).1.core.events.drop m.core.events.length

/-- The streams a call gives up. -/
def dropped (m : SessionMachine) : Op → List Nat
  | .release sid | .abandon sid => if m.core.pending.has sid then [sid] else []
  | .forgetPath pathid => SessionMachine.streamsOn m.core pathid
  | _ => []

/-- The stream a call submits a request on. -/
def submitted (m : SessionMachine) : Op → Option Nat
  | .submit request path arriveOnPath =>
      match (m.core.submit request path arriveOnPath).1 with
      | .ok sid => some sid
      | .error _ => none
  | _ => none

/-- The books after a call. -/
def note (b : Books) (m : SessionMachine) (op : Op) : Books where
  told := b.told ++ tag b.owner (said m op)
  gaveUp := b.gaveUp ++ (dropped m op).filterMap b.owner.get
  owner := match submitted m op with
    | some sid => b.owner.set sid b.next
    | none => b.owner
  next := match submitted m op with
    | some _ => b.next + 1
    | none => b.next

/-- A call, and what the books make of it. -/
def step (w : SessionMachine × Books) (op : Op) : SessionMachine × Books :=
  ((w.1.step op).1, w.2.note w.1 op)

/-- A run and its books. -/
def run (w : SessionMachine × Books) (ops : List Op) : SessionMachine × Books := ops.foldl step w

/-- The events of one request, in order. -/
def eventsOf (b : Books) (k : Nat) : List Event := Log.entries b.told k

/-! ### What the books keep to -/

@[simp] theorem tag_nil (owner : Assoc Nat Nat) : tag owner [] = [] := rfl

@[simp] theorem tag_no_owner (es : List Event) : tag [] es = [] := by
  simp [tag, Assoc.get_nil]

theorem tag_append (owner : Assoc Nat Nat) (es fs : List Event) :
    tag owner (es ++ fs) = tag owner es ++ tag owner fs := List.filterMap_append

theorem mem_tag {owner : Assoc Nat Nat} {es : List Event} {k : Nat} {e : Event} :
    (k, e) ∈ tag owner es ↔ e ∈ es ∧ ∃ s, e.stream = some s ∧ owner.get s = some k := by
  unfold tag
  rw [List.mem_filterMap]
  constructor
  · rintro ⟨e', hmem, heq⟩
    obtain ⟨k', hk', hpair⟩ := Option.map_eq_some_iff.mp heq
    obtain ⟨rfl, rfl⟩ := Prod.mk.inj hpair
    obtain ⟨s, hs, hget⟩ := Option.bind_eq_some_iff.mp hk'
    exact ⟨hmem, s, hs, hget⟩
  · rintro ⟨hmem, s, hs, hget⟩
    exact ⟨e, hmem, by simp [hs, hget]⟩

/-- No request holds two ids. -/
def OneId (owner : Assoc Nat Nat) : Prop :=
  ∀ s s' k, owner.get s = some k → owner.get s' = some k → s = s'

theorem entries_tag {owner : Assoc Nat Nat} (hone : OneId owner) {s k : Nat}
    (hk : owner.get s = some k) (es : List Event) :
    Log.entries (tag owner es) k = es.filter fun e => e.stream = some s := by
  induction es with
  | nil => rfl
  | cons e es ih =>
    have hcons : tag owner (e :: es) = tag owner [e] ++ tag owner es := tag_append owner [e] es
    rw [hcons, Log.entries_append, ih, List.filter_cons]
    by_cases hs : e.stream = some s
    · have htag : tag owner [e] = [(k, e)] := by simp [tag, hs, hk]
      simp [htag, Log.entries, hs]
    · have hnone : Log.entries (tag owner [e]) k = [] := by
        refine Log.entries_eq_nil fun e' hmem => ?_
        obtain ⟨hmem, s', hs', hget⟩ := mem_tag.mp hmem
        obtain rfl := List.mem_singleton.mp hmem
        exact hs (by rw [hs', hone s' s k hget hk])
      simp [hnone, hs]

/-- The books of a machine. -/
structure Sound (m : MachineState) (b : Books) : Prop where
  pooled : m.Pooled
  keyed : m.Keyed
  /-- Requests are submitted once bring-up is over. -/
  up : b.next = 0 ∨ m.state = .ready ∨ m.state = .closed
  begun : b.next = 0 → b.owner = [] ∧ b.told = []
  ready : ∀ s, m.pending.has s = true → m.state = .ready
  owned : ∀ s, m.pending.has s = true → ∃ k, k < b.next ∧ b.owner.get s = some k ∧
    Log.Running Event.isLast b.told k
  oneId : OneId b.owner
  below : ∀ s k, b.owner.get s = some k → k < b.next
  logged : ∀ k e, (k, e) ∈ b.told → k < b.next
  settled : ∀ k, k < b.next → k ∉ b.gaveUp →
    (∃ s, m.pending.has s = true ∧ b.owner.get s = some k) ∨ Log.Ended Event.isLast b.told k

variable {m m' : MachineState} {b : Books}

/-- **Events are reported, and some streams go with their last event.** -/
theorem Sound.report (h : Sound m b) {es : List Event} (gone : Nat → Prop) (hpooled : m'.Pooled)
    (hkeyed : m'.Keyed) (hup : m'.state = m.state ∨ m'.state = .closed)
    (hready : ∀ s, m'.pending.has s = true → m'.state = .ready)
    (hpending : ∀ s, m'.pending.has s = true ↔ m.pending.has s = true ∧ ¬ gone s)
    (habout : ∀ e ∈ es, ∀ s, e.stream = some s → m.pending.has s = true)
    (hgoing : ∀ s, m.pending.has s = true → gone s →
      ∃ e, (es.filter fun e => e.stream = some s) = [e] ∧ e.isLast = true)
    (hstaying : ∀ e ∈ es, ∀ s, e.stream = some s → ¬ gone s → e.isLast = false) :
    Sound m' { b with told := b.told ++ tag b.owner es } := by
  refine ⟨hpooled, hkeyed, ?_, ?_, hready, ?_, h.oneId, h.below, ?_, ?_⟩
  · rcases h.up with hzero | hstate | hstate
    · exact .inl hzero
    · exact .inr (hup.imp (fun heq => heq.trans hstate) id)
    · exact .inr (.inr (hup.elim (fun heq => heq.trans hstate) id))
  · intro hzero
    obtain ⟨howner, htold⟩ := h.begun hzero
    exact ⟨howner, by simp [howner, htold]⟩
  · intro s hs
    obtain ⟨hpend, hstays⟩ := (hpending s).mp hs
    obtain ⟨k, hk, hget, hrun⟩ := h.owned s hpend
    refine ⟨k, hk, hget, hrun.append fun e hmem => ?_⟩
    obtain ⟨hmem, s', hs', hget'⟩ := mem_tag.mp hmem
    obtain rfl := h.oneId s' s k hget' hget
    exact hstaying e hmem s' hs' hstays
  · intro k e hmem
    rcases List.mem_append.mp hmem with hmem | hmem
    · exact h.logged k e hmem
    · obtain ⟨-, s, -, hget⟩ := mem_tag.mp hmem
      exact h.below s k hget
  · intro k hk hkept
    rcases h.settled k hk hkept with ⟨s, hs, hget⟩ | hended
    · by_cases hgone : gone s
      · obtain ⟨e, hes, hlast⟩ := hgoing s hs hgone
        obtain ⟨k', -, hget', hrun⟩ := h.owned s hs
        obtain rfl : k' = k := Option.some.inj (hget'.symm.trans hget)
        exact .inr (hrun.finish ((entries_tag h.oneId hget es).trans hes) hlast)
      · exact .inl ⟨s, (hpending s).mpr ⟨hs, hgone⟩, hget⟩
    · refine .inr (hended.append fun e hmem => ?_)
      obtain ⟨hmem, s, hs, hget⟩ := mem_tag.mp hmem
      obtain ⟨k', -, hget', hrun⟩ := h.owned s (habout e hmem s hs)
      obtain rfl : k' = k := Option.some.inj (hget'.symm.trans hget)
      exact hended.not_running hrun

/-- Nothing is reported about a stream, and none goes. -/
theorem Sound.quiet (h : Sound m b) {es : List Event} (hpooled : m'.Pooled) (hkeyed : m'.Keyed)
    (hstate : m'.state = m.state) (hpending : ∀ s, m'.pending.has s = m.pending.has s)
    (habout : ∀ e ∈ es, e.stream = none) :
    Sound m' { b with told := b.told ++ tag b.owner es } := by
  have hno : ∀ e ∈ es, ∀ s, e.stream ≠ some s := by
    intro e he s hs
    rw [habout e he] at hs
    cases hs
  refine h.report (fun _ => False) hpooled hkeyed (.inl hstate) ?_ ?_
    (fun e he s hs => absurd hs (hno e he s)) (fun _ _ hgone => hgone.elim)
    fun e he s hs => absurd hs (hno e he s)
  · intro s hs
    rw [hstate]
    exact h.ready s (by rwa [← hpending])
  · intro s
    rw [hpending]
    simp

/-- One unit, with what it reports. -/
theorem Sound.unit (h : Sound m b) {sid : Nat} (hpooled : m'.Pooled) (hkeyed : m'.Keyed)
    (hstate : m'.state = m.state) (hreport : Report m sid m') :
    ∃ es, m'.events = m.events ++ es ∧ Sound m' { b with told := b.told ++ tag b.owner es } := by
  cases hreport with
  | quiet es events about pending =>
    exact ⟨es, events, h.quiet hpooled hkeyed hstate pending about⟩
  | told e events about last found pending =>
    refine ⟨[e], events, h.report (fun _ => False) hpooled hkeyed (.inl hstate) ?_ ?_ ?_
      (fun _ _ hgone => hgone.elim) ?_⟩
    · intro s hs
      rw [hstate]
      exact h.ready s (by rwa [← pending])
    · intro s
      rw [pending]
      simp
    · intro e' he' s hs
      obtain rfl := List.mem_singleton.mp he'
      rw [about] at hs
      exact Option.some.inj hs ▸ found
    · intro e' he' _ _ _
      rw [List.mem_singleton.mp he']
      exact last
  | ended e events about last found pending =>
    refine ⟨[e], events, h.report (fun s => s = sid) hpooled hkeyed (.inl hstate) ?_ ?_ ?_
      ?_ ?_⟩
    · intro s hs
      rw [pending, Bool.and_eq_true] at hs
      rw [hstate]
      exact h.ready s hs.2
    · intro s
      rw [pending, Bool.and_eq_true, decide_eq_true_eq]
      exact And.comm
    · intro e' he' s hs
      obtain rfl := List.mem_singleton.mp he'
      rw [about] at hs
      exact Option.some.inj hs ▸ found
    · rintro s _ rfl
      exact ⟨e, by simp [about], last⟩
    · intro e' he' s hs hne
      obtain rfl := List.mem_singleton.mp he'
      rw [about] at hs
      exact absurd (Option.some.inj hs).symm hne

/-- Bytes that arrive once bring-up is over. -/
theorem Sound.decode (h : Sound m b) (hready : MachineState.inBringup m.state = false) (f : Framer)
    (data : Bytes) : ∃ es, (decode m f data).2.machine.events = m.events ++ es ∧
      Sound (decode m f data).2.machine { b with told := b.told ++ tag b.owner es } := by
  have hall := MachineState.decode_invariant
    (I := fun core => core.state = m.state ∧ ∃ es, core.events = m.events ++ es ∧
      Sound core { b with told := b.told ++ tag b.owner es }) ?_ f data
    ⟨rfl, [], by simp, by simpa using h⟩
  · exact hall.2
  rintro core u ⟨hstate, es, hevents, hsound⟩
  have hup : MachineState.inBringup core.state = false := by rw [hstate]; exact hready
  have hsame := MachineState.deliver_state u hup
  obtain ⟨more, hmore, hsound'⟩ := hsound.unit
    ((MachineState.deliver_kept hsound.pooled u).pooled hsound.pooled)
    (MachineState.deliver_keyed hsound.keyed u hup) hsame (MachineState.deliver_report core u hup)
  refine ⟨hsame.trans hstate, es ++ more, by rw [hmore, hevents, List.append_assoc], ?_⟩
  rwa [List.append_assoc, ← tag_append] at hsound'

/-- Before the first request there is nothing to keep books of. -/
theorem Sound.before (hzero : b.next = 0) (howner : b.owner = []) (htold : b.told = [])
    (hpooled : m.Pooled) (hpending : m.pending = []) : Sound m b := by
  have hnone : ∀ s, m.pending.has s = false := by
    intro s
    rw [hpending]
    rfl
  refine ⟨hpooled, by simp [MachineState.Keyed, hpending], .inl hzero, fun _ => ⟨howner, htold⟩, ?_,
    ?_, ?_, ?_, ?_, ?_⟩
  · intro s hs
    simp [hnone] at hs
  · intro s hs
    simp [hnone] at hs
  · intro s s' k hs
    simp [howner] at hs
  · intro s k hs
    simp [howner] at hs
  · intro k e hmem
    simp [htold] at hmem
  · intro k hk
    omega

theorem Sound.pending_nil (h : Sound m b) (hzero : b.next = 0) : m.pending = [] := by
  refine List.eq_nil_iff_forall_not_mem.mpr fun p hp => ?_
  obtain ⟨k, hk, -⟩ := h.owned p.1 (Assoc.has_of_mem hp)
  omega

/-- The caller gives streams up. -/
theorem Sound.drop (h : Sound m b) {sids : List Nat} (hpooled : m'.Pooled) (hkeyed : m'.Keyed)
    (hstate : m'.state = m.state)
    (hpending : ∀ s, m'.pending.has s = true ↔ m.pending.has s = true ∧ s ∉ sids) :
    Sound m' { b with gaveUp := b.gaveUp ++ sids.filterMap b.owner.get } := by
  refine ⟨hpooled, hkeyed, ?_, h.begun, ?_, ?_, h.oneId, h.below, h.logged, ?_⟩
  · rw [hstate]
    exact h.up
  · intro s hs
    rw [hstate]
    exact h.ready s ((hpending s).mp hs).1
  · intro s hs
    exact h.owned s ((hpending s).mp hs).1
  · intro k hk hkept
    simp only [List.mem_append, not_or] at hkept
    refine (h.settled k hk hkept.1).imp ?_ id
    rintro ⟨s, hs, hget⟩
    refine ⟨s, (hpending s).mpr ⟨hs, fun hmem => hkept.2 ?_⟩, hget⟩
    exact List.mem_filterMap.mpr ⟨s, hmem, hget⟩

/-- A request is submitted on an id that nobody waits on. -/
theorem Sound.submit (h : Sound m b) {sid : Nat} (hpooled : m'.Pooled) (hkeyed : m'.Keyed)
    (hready : m.state = .ready) (hstate : m'.state = m.state) (hfresh : m.pending.has sid = false)
    (hpending : ∀ s, m'.pending.has s = (decide (s = sid) || m.pending.has s)) :
    Sound m' { b with owner := b.owner.set sid b.next, next := b.next + 1 } := by
  have hget : ∀ s, (b.owner.set sid b.next).get s = if s = sid then some b.next else b.owner.get s :=
    fun s => Assoc.get_set b.owner sid s b.next
  have hother : ∀ s, m'.pending.has s = true → s ≠ sid → m.pending.has s = true := by
    intro s hs hne
    rw [hpending] at hs
    simpa [hne] using hs
  refine ⟨hpooled, hkeyed, .inr (.inl (hstate.trans hready)), fun hno => by simp at hno, ?_, ?_, ?_,
    ?_, ?_, ?_⟩
  · intro s _
    exact hstate.trans hready
  · intro s hs
    by_cases hsid : s = sid
    · refine ⟨b.next, Nat.lt_succ_self _, by rw [hget, if_pos hsid], fun e he => ?_⟩
      exact absurd (h.logged _ e (Log.mem_entries.mp he)) (Nat.lt_irrefl _)
    · obtain ⟨k, hk, howner, hrun⟩ := h.owned s (hother s hs hsid)
      exact ⟨k, Nat.lt_succ_of_lt hk, by rw [hget, if_neg hsid, howner], hrun⟩
  · intro s s' k hs hs'
    rw [hget] at hs hs'
    split at hs
    · next heq =>
      split at hs'
      · next heq' => rw [heq, heq']
      · have := h.below s' k hs'
        simp only [Option.some.injEq] at hs
        omega
    · split at hs'
      · have := h.below s k hs
        simp only [Option.some.injEq] at hs'
        omega
      · exact h.oneId s s' k hs hs'
  · intro s k hs
    rw [hget] at hs
    split at hs
    · rw [← Option.some.inj hs]
      exact Nat.lt_succ_self _
    · exact Nat.lt_succ_of_lt (h.below s k hs)
  · intro k e hmem
    exact Nat.lt_succ_of_lt (h.logged k e hmem)
  · intro k hk hkept
    by_cases hnew : k = b.next
    · exact .inl ⟨sid, by simp [hpending], by rw [hget, if_pos rfl, hnew]⟩
    · have hold : k < b.next := Nat.lt_of_le_of_ne (Nat.le_of_lt_succ hk) hnew
      refine (h.settled k hold hkept).imp ?_ id
      rintro ⟨s, hs, howner⟩
      have hne : s ≠ sid := by
        rintro rfl
        rw [hfresh] at hs
        cases hs
      exact ⟨s, by simp [hpending, hs], by rw [hget, if_neg hne, howner]⟩

end Books

/-! ## What a call changes -/

namespace MachineState

/-- What the books look at. -/
def view (m : MachineState) : State × Assoc Nat Pending × List Event :=
  (m.state, m.pending, m.events)

theorem acquireSid_view (m : MachineState) : m.acquireSid.2.view = m.view := by
  unfold acquireSid
  split
  · rfl
  · dsimp only
    split <;> rfl

theorem leaseLoop_view : ∀ (count : Nat) (m : MachineState) (leased : List Nat),
    (leaseLoop count m leased).2.view = m.view := by
  intro count
  induction count with
  | zero => intro m leased; rfl
  | succ count ih =>
    intro m leased
    have hview := m.acquireSid_view
    unfold leaseLoop
    split
    · next heq =>
      rw [heq] at hview
      exact hview
    · next heq =>
      rw [heq] at hview
      rw [ih]
      exact hview

theorem giveBacks_view (owed : Nat → Bool) (sids : List Nat) (m : MachineState) :
    (sids.foldl (giveBack owed) m).view = m.view := by
  induction sids generalizing m with
  | nil => rfl
  | cons sid sids ih =>
    rw [List.foldl_cons, ih]
    unfold giveBack
    dsimp only
    split <;> rfl

theorem frame_view (m : MachineState) (request : Request) (sid : Nat) :
    (m.frame request sid).2.view = m.view := by
  unfold frame
  split
  · rfl
  split
  · rfl
  split
  · rfl
  · split <;> rfl

theorem send_events (m : MachineState) (request : Request) (sid : Nat) (path : Text)
    (arriveOnPath : Bool) : (m.send request sid path arriveOnPath).1.events = m.events := by
  have hframe : (m.frame request sid).2.events = m.events :=
    congrArg (fun v => v.2.2) (m.frame_view request sid)
  unfold send
  split
  · next heq =>
    rw [heq] at hframe
    exact hframe
  · next heq =>
    rw [heq] at hframe
    dsimp only
    split_ifs <;> exact hframe

theorem submit_events (m : MachineState) (request : Request) (path : Text)
    (arriveOnPath : Bool) : (m.submit request path arriveOnPath).2.events = m.events := by
  have hacq : m.acquireSid.2.events = m.events := congrArg (fun v => v.2.2) m.acquireSid_view
  unfold submit
  split
  · rfl
  split
  · next heq =>
    rw [heq] at hacq
    exact hacq
  · next sid m₁ heq =>
    rw [heq] at hacq
    have hsend := m₁.send_events request sid path arriveOnPath
    split
    · next hs =>
      rw [hs] at hsend
      exact hsend.trans hacq
    · next hs =>
      rw [hs] at hsend
      exact hsend.trans hacq

end MachineState

namespace Books

variable {m : SessionMachine} {b : Books}

theorem note_eq {op : Op} (es : List Event) (hsaid : said m op = es) (hdropped : dropped m op = [])
    (hsubmitted : submitted m op = none) :
    b.note m op = { b with told := b.told ++ tag b.owner es } := by
  simp [note, hsaid, hdropped, hsubmitted]

/-- A call that leaves alone what the books look at. -/
theorem sound_of_view (h : Sound m.core b) {op : Op} {core : MachineState} (hpooled : core.Pooled)
    (hview : core.view = m.core.view) (hsaid : said m op = []) (hdropped : dropped m op = [])
    (hsubmitted : submitted m op = none) : Sound core (b.note m op) := by
  simp only [MachineState.view, Prod.mk.injEq] at hview
  obtain ⟨hstate, hpending, -⟩ := hview
  rw [note_eq [] hsaid hdropped hsubmitted]
  refine h.quiet hpooled (MachineState.keyed_of_pending hpending h.keyed) hstate (fun s => ?_)
    (by simp)
  rw [hpending]

theorem said_of_view {op : Op} (hop : said m op = (m.step op).1.core.events.drop m.core.events.length)
    (hview : (m.step op).1.core.view = m.core.view) : said m op = [] := by
  have hevents : (m.step op).1.core.events = m.core.events := congrArg (fun v => v.2.2) hview
  rw [hop, hevents, List.drop_length]

/-! ## Calls -/

theorem releases_has : ∀ (sids : List Nat) (core : MachineState) (s : Nat),
    (sids.foldl MachineState.release core).pending.has s = true ↔
      core.pending.has s = true ∧ s ∉ sids := by
  intro sids
  induction sids with
  | nil => simp
  | cons sid sids ih =>
    intro core s
    rw [List.foldl_cons, ih]
    by_cases hp : core.pending.has sid = true
    · rw [MachineState.release_has hp, Bool.and_eq_true, decide_eq_true_eq, List.mem_cons]
      tauto
    · have hsame : core.release sid = core := if_neg hp
      rw [hsame, List.mem_cons]
      have hne : core.pending.has s = true → s ≠ sid := by
        rintro hs rfl
        exact hp hs
      tauto

theorem releases_events : ∀ (sids : List Nat) (core : MachineState),
    (sids.foldl MachineState.release core).events = core.events := by
  intro sids
  induction sids with
  | nil => intro core; rfl
  | cons sid sids ih =>
    intro core
    rw [List.foldl_cons, ih, release_events]

theorem releases_state : ∀ (sids : List Nat) (core : MachineState),
    (sids.foldl MachineState.release core).state = core.state := by
  intro sids
  induction sids with
  | nil => intro core; rfl
  | cons sid sids ih =>
    intro core
    rw [List.foldl_cons, ih, MachineState.release_state]

/-- Events play no part in releasing. -/
theorem releases_setEvents : ∀ (sids : List Nat) (core : MachineState) (es : List Event),
    sids.foldl MachineState.release { core with events := es } =
      { sids.foldl MachineState.release core with events := es } := by
  intro sids
  induction sids with
  | nil => intro core es; rfl
  | cons sid sids ih =>
    intro core es
    have hone : MachineState.release { core with events := es } sid =
        { core.release sid with events := es } := by
      unfold MachineState.release
      dsimp only
      split <;> rfl
    rw [List.foldl_cons, List.foldl_cons, hone, ih]

/-- The streams of some entries each fail once. -/
theorem failures_filter {d : Assoc Nat Pending} (hkeys : (d.map Prod.fst).Nodup) {s : Nat}
    (hs : d.has s = true) (error : SessionError) (rest : List Event)
    (hrest : ∀ e ∈ rest, e.stream = none) :
    ∃ e, ((d.map fun p => Event.failed (some p.1) (some p.2.request) error) ++ rest).filter
      (fun e => e.stream = some s) = [e] ∧ e.isLast = true := by
  obtain ⟨p, hp⟩ := Assoc.has_eq_true.mp hs
  have hnone : (rest.filter fun e => e.stream = some s) = [] := by
    refine List.filter_eq_nil_iff.mpr fun e he hes => ?_
    simp [hrest e he] at hes
  have hone := Assoc.filter_key hkeys hp
  refine ⟨.failed (some s) (some p.request) error, ?_, rfl⟩
  rw [List.filter_append, hnone, List.append_nil, List.filter_map]
  have hcomp : ((fun e : Event => decide (e.stream = some s)) ∘
      fun p : Nat × Pending => Event.failed (some p.1) (some p.2.request) error)
      = fun p => decide (p.1 = s) := by
    funext q
    simp [Event.stream]
  rw [hcomp, hone]
  rfl

theorem stream_failures {d : Assoc Nat Pending} {error : SessionError} {rest : List Event}
    (hrest : ∀ e ∈ rest, e.stream = none) {e : Event} {s : Nat}
    (he : e ∈ (d.map fun p => Event.failed (some p.1) (some p.2.request) error) ++ rest)
    (hs : e.stream = some s) : s ∈ d.map Prod.fst := by
  rcases List.mem_append.mp he with he | he
  · obtain ⟨p, hp, rfl⟩ := List.mem_map.mp he
    exact List.mem_map.mpr ⟨p, hp, Option.some.inj hs⟩
  · rw [hrest e he] at hs
    cases hs

theorem has_of_mem_keys {d : Assoc Nat Pending} {s : Nat} (h : s ∈ d.map Prod.fst) :
    d.has s = true := by
  obtain ⟨p, hp, rfl⟩ := List.mem_map.mp h
  exact Assoc.has_of_mem hp

/-- The control link ends: every pending request fails. -/
theorem sound_onEof (h : Sound m.core b) :
    ∃ es, m.onEof.core.events = m.core.events ++ es ∧
      Sound m.onEof.core { b with told := b.told ++ tag b.owner es } := by
  have hpooled := (SessionMachine.onEof_leaves h.pooled).1
  unfold SessionMachine.onEof at hpooled ⊢
  split
  · exact ⟨[], by simp, by simpa using h⟩
  · next hup =>
    rw [if_neg hup] at hpooled
    refine ⟨_, List.append_assoc _ _ _, h.report (fun _ => True) hpooled List.nodup_nil (.inr rfl)
      (fun s hs => ?_) (fun s => ?_) (fun e he s hs => ?_) (fun s hs _ => ?_)
      fun e _ s _ hno => absurd trivial hno⟩
    · cases hs
    · simp [Assoc.has]
    · exact has_of_mem_keys (stream_failures (by simp [Event.stream]) he hs)
    · exact failures_filter h.keyed hs .closedByPeer _ (by simp [Event.stream])

/-- A data path ends: the requests on it fail. -/
theorem sound_onPathEof (h : Sound m.core b) (pathid : Nat) :
    ∃ es, (m.onPathEof pathid).core.events = m.core.events ++ es ∧
      Sound (m.onPathEof pathid).core { b with told := b.told ++ tag b.owner es } := by
  have hpooled := (SessionMachine.onPathEof_kept h.pooled pathid).pooled h.pooled
  have hkeys : ((m.core.pending.filter fun p => p.2.pathid = pathid).map Prod.fst).Nodup :=
    (List.filter_sublist.map Prod.fst).nodup h.keyed
  have hcore : (m.onPathEof pathid).core.view =
      (m.core.state, ((SessionMachine.streamsOn m.core pathid).foldl MachineState.release
          m.core).pending,
        m.core.events ++ ((m.core.pending.filter fun p => p.2.pathid = pathid).map
          fun p => .failed (some p.1) (some p.2.request) (.pathClosed pathid)) ++
            [.pathLost pathid]) := by
    unfold SessionMachine.onPathEof SessionMachine.forgetPath
    dsimp only
    rw [releases_setEvents]
    simp only [MachineState.view, MachineState.emit, releases_state]
    rfl
  simp only [MachineState.view, Prod.mk.injEq] at hcore
  obtain ⟨hstate, hpending, hevents⟩ := hcore
  have hhas : ∀ s, (m.onPathEof pathid).core.pending.has s = true ↔
      m.core.pending.has s = true ∧ s ∉ SessionMachine.streamsOn m.core pathid := by
    intro s
    rw [hpending]
    exact releases_has _ _ s
  refine ⟨_, by rw [hevents, List.append_assoc], h.report
    (fun s => s ∈ SessionMachine.streamsOn m.core pathid) hpooled
    (MachineState.keyed_of_pending hpending (MachineState.releases_keyed _ h.keyed)) (.inl hstate)
    (fun s hs => ?_) hhas (fun e he s hs => ?_) (fun s _ hmem => ?_) fun e he s hs hno => ?_⟩
  · rw [hstate]
    exact h.ready s ((hhas s).mp hs).1
  · have hmem := stream_failures (by simp [Event.stream]) he hs
    exact has_of_mem_keys ((List.filter_sublist.map Prod.fst).subset hmem)
  · exact failures_filter hkeys (has_of_mem_keys hmem) (.pathClosed pathid) _ (by simp [Event.stream])
  · exact absurd (stream_failures (by simp [Event.stream]) he hs) hno

/-- Bytes on a link, or its end. -/
theorem sound_receive (h : Sound m.core b) (pathid : Nat) (data : Bytes) :
    Sound (m.step (.receiveData pathid data)).1.core (b.note m (.receiveData pathid data)) := by
  have hpooled := (SessionMachine.step_leaves h.pooled (.receiveData pathid data) trivial).1
  have hnote : ∀ es, (m.step (.receiveData pathid data)).1.core.events = m.core.events ++ es →
      Sound (m.step (.receiveData pathid data)).1.core { b with told := b.told ++ tag b.owner es } →
      Sound (m.step (.receiveData pathid data)).1.core (b.note m (.receiveData pathid data)) := by
    intro es hevents hsound
    have hsaid : said m (.receiveData pathid data) = es := by
      show (m.step (.receiveData pathid data)).1.core.events.drop m.core.events.length = es
      rw [hevents, List.drop_left]
    rw [note_eq es hsaid rfl rfl]
    exact hsound
  by_cases hdata : data = []
  · subst hdata
    by_cases hpath : pathid = 0
    · subst hpath
      obtain ⟨es, hevents, hsound⟩ :=
        sound_onEof (m := { m with framers := m.framers.set 0 (m.framer 0) }) h
      exact hnote es hevents hsound
    · have hcore : (m.step (.receiveData pathid [])).1.core = (SessionMachine.onPathEof
          { m with framers := m.framers.set pathid (m.framer pathid) } pathid).core := by
        simp only [SessionMachine.step, SessionMachine.receiveData, SessionMachine.receiveLog,
          if_true, if_neg hpath]
      obtain ⟨es, hevents, hsound⟩ := sound_onPathEof
        (m := { m with framers := m.framers.set pathid (m.framer pathid) }) h pathid
      rw [← hcore] at hevents hsound
      exact hnote es hevents hsound
  · have hcore : (m.step (.receiveData pathid data)).1.core
        = (decode m.core (m.framer pathid) data).2.machine := by
      simp only [SessionMachine.step, SessionMachine.receiveData, SessionMachine.receiveLog,
        if_neg hdata]
    by_cases hbring : MachineState.inBringup m.core.state = true
    · -- no request yet
      have hzero : b.next = 0 := by
        rcases h.up with hzero | hstate | hstate
        · exact hzero
        · simp [hstate, MachineState.inBringup] at hbring
        · simp [hstate, MachineState.inBringup] at hbring
      obtain ⟨howner, htold⟩ := h.begun hzero
      refine .before hzero howner ?_ hpooled ?_
      · simp [note, howner, htold]
      · rw [hcore]
        exact MachineState.decode_invariant (I := fun core => core.pending = [])
          (fun core u hnil => MachineState.deliver_pending_nil hnil u) _ data
          (h.pending_nil hzero)
    · obtain ⟨es, hevents, hsound⟩ := h.decode (by simpa using hbring) (m.framer pathid) data
      rw [← hcore] at hevents hsound
      exact hnote es hevents hsound

/-- A call of bring-up does nothing later, and before it there are no requests. -/
theorem sound_bringUp (h : Sound m.core b) {op : Op} (hsubmitted : submitted m op = none)
    (hpooled : (m.step op).1.core.Pooled) (hpending : (m.step op).1.core.pending = m.core.pending)
    (hlater : m.core.state = .ready ∨ m.core.state = .closed →
      Sound (m.step op).1.core (b.note m op)) : Sound (m.step op).1.core (b.note m op) := by
  rcases h.up with hzero | hstate
  · obtain ⟨howner, htold⟩ := h.begun hzero
    refine .before ?_ ?_ ?_ hpooled (hpending.trans (h.pending_nil hzero))
    · simp [note, hsubmitted, hzero]
    · simp [note, hsubmitted, howner]
    · simp [note, howner, htold]
  · exact hlater hstate

theorem sound_submit (h : Sound m.core b) (request : Request) (path : Text) (arriveOnPath : Bool) :
    Sound (m.step (.submit request path arriveOnPath)).1.core
      (b.note m (.submit request path arriveOnPath)) := by
  have hpooled := (MachineState.submit_pooled h.pooled request path arriveOnPath).1
  have hevents := m.core.submit_events request path arriveOnPath
  have hsaid : said m (.submit request path arriveOnPath) = [] := by
    show (m.core.submit request path arriveOnPath).2.events.drop m.core.events.length = []
    rw [hevents, List.drop_length]
  have hcore : (m.step (.submit request path arriveOnPath)).1.core
      = (m.core.submit request path arriveOnPath).2 := rfl
  obtain ⟨sid, m₁, hok, htaken, p, -, hsame⟩ | ⟨e, herror, hsame⟩ :=
    MachineState.submit_cases h.pooled.apart request path arriveOnPath
  · have hready : m.core.state = .ready := by
      by_contra hno
      simp [MachineState.submit, hno] at hok
    have hpending : (m.core.submit request path arriveOnPath).2.pending
        = m.core.pending.set sid p := by
      rw [hsame.pending, htaken.pending]
    have hnote : b.note m (.submit request path arriveOnPath)
        = { b with owner := b.owner.set sid b.next, next := b.next + 1 } := by
      simp [note, hsaid, submitted, dropped, hok]
    rw [hnote, hcore]
    refine h.submit hpooled ?_ hready (hsame.state.trans htaken.state) ?_ fun s => ?_
    · exact MachineState.keyed_of_pending hpending (MachineState.setPending_keyed h.keyed sid p)
    · by_contra hp
      exact htaken.fresh (.inl (by simpa using hp))
    · rw [hpending]
      exact MachineState.has_set m.core sid s p
  · have hview : (m.core.submit request path arriveOnPath).2.view = m.core.view := by
      obtain hsame | ⟨sid, m₁, htaken, hsame⟩ := hsame
      · simp only [MachineState.view, hsame.state, hsame.pending, hevents]
      · simp only [MachineState.view, hsame.state, hsame.pending, htaken.state, htaken.pending,
          hevents]
    refine sound_of_view h hpooled hview hsaid rfl ?_
    simp [submitted, herror]

/-- The session is closed by its driver. -/
def Closes : Op → Prop
  | .close _ => True
  | _ => False

/-- **One call.** -/
theorem step_sound (h : Sound m.core b) (op : Op) (hheld : SessionMachine.Held m op)
    (hopen : ¬ Closes op) : Sound (m.step op).1.core (b.note m op) := by
  have hpooled := (SessionMachine.step_leaves h.pooled op hheld).1
  have hquiet : said m op = (m.step op).1.core.events.drop m.core.events.length →
      (m.step op).1.core.view = m.core.view → dropped m op = [] → submitted m op = none →
      Sound (m.step op).1.core (b.note m op) := fun hop hview =>
    sound_of_view h hpooled hview (said_of_view hop hview)
  have hdrop : ∀ sids, said m op = (m.step op).1.core.events.drop m.core.events.length →
      (m.step op).1.core.events = m.core.events → dropped m op = sids → submitted m op = none →
      Sound (m.step op).1.core { b with gaveUp := b.gaveUp ++ sids.filterMap b.owner.get } →
      Sound (m.step op).1.core (b.note m op) := by
    intro sids hop hevents hdropped hsubmitted hsound
    rw [hevents, List.drop_length] at hop
    simpa [note, hop, hdropped, hsubmitted] using hsound
  cases op with
  | start =>
    have hstart : m.core.state = .new → m.core.start.1.pending = m.core.pending := by
      intro hnew
      have hqueue := MachineState.queueEncoded_table (m.core.queue [HANDSHAKE])
        (protocolRequest (kXR_secreqs ||| kXR_ableTLS |||
          (if m.core.wantTls then kXR_wantTLS else 0))) SID_PROTOCOL
      simp only [MachineState.start, hnew, ne_eq, not_true_eq_false, if_false]
      split
      · next heq =>
        rw [heq] at hqueue
        exact congrArg (fun t => t.1) hqueue
      · next heq =>
        rw [heq] at hqueue
        exact congrArg (fun t => t.1) hqueue
    have hlater : m.core.state ≠ .new → m.core.start.1 = m.core := by
      intro hnew
      simp [MachineState.start, hnew]
    refine sound_bringUp h rfl hpooled ?_ fun hstate => ?_
    · by_cases hnew : m.core.state = .new
      · exact hstart hnew
      · exact congrArg MachineState.pending (hlater hnew)
    · refine hquiet rfl (congrArg MachineState.view (hlater ?_)) rfl rfl
      rcases hstate with hstate | hstate <;> simp [hstate]
  | submit request path arriveOnPath => exact sound_submit h request path arriveOnPath
  | resume sid =>
    refine hquiet rfl ?_ rfl rfl
    simp only [SessionMachine.step, SessionMachine.onCore, MachineState.resume]
    split
    · rfl
    · split <;> rfl
  | release sid =>
    by_cases hp : m.core.pending.has sid = true
    · refine hdrop [sid] rfl (release_events m.core sid) (if_pos hp) rfl
        (h.drop hpooled (MachineState.release_keyed h.keyed sid)
          (MachineState.release_state m.core sid) fun s => ?_)
      exact releases_has [sid] m.core s
    · have hsame : m.core.release sid = m.core := if_neg hp
      exact hquiet rfl (congrArg MachineState.view hsame) (if_neg hp) rfl
  | abandon sid =>
    by_cases hp : m.core.pending.has sid = true
    · refine hdrop [sid] rfl ?_ (if_pos hp) rfl
        (h.drop hpooled (MachineState.abandon_keyed h.keyed sid)
          (MachineState.abandon_state m.core sid) fun s => ?_)
      · simp only [SessionMachine.step, SessionMachine.onCore, MachineState.abandon]
        split <;> rfl
      · simp only [SessionMachine.step, SessionMachine.onCore, MachineState.abandon, if_pos hp]
        rw [MachineState.has_del, Bool.and_eq_true, decide_eq_true_eq, List.mem_singleton]
        exact And.comm
    · have hsame : m.core.abandon sid = m.core := if_neg hp
      exact hquiet rfl (congrArg MachineState.view hsame) (if_neg hp) rfl
  | close graceful => exact absurd trivial hopen
  | tlsEstablished =>
    refine sound_bringUp h rfl hpooled ?_ fun hstate => ?_
    · simp only [SessionMachine.step, SessionMachine.onCore, MachineState.tlsEstablished]
      split
      · rfl
      · exact congrArg (fun t => t.1)
          (MachineState.beginLogin_table { m.core with tlsActive := true })
    · have hsame : m.core.tlsEstablished.1 = m.core := by
        rcases hstate with hstate | hstate <;> simp [MachineState.tlsEstablished, hstate]
      exact hquiet rfl (congrArg MachineState.view hsame) rfl rfl
  | leaseSids count =>
    refine hquiet rfl ?_ rfl rfl
    simp only [SessionMachine.step, SessionMachine.onCore, MachineState.leaseSids]
    split
    · rfl
    · exact MachineState.leaseLoop_view count m.core []
  | releaseSids sids => exact hquiet rfl (MachineState.giveBacks_view _ sids m.core) rfl rfl
  | retireSids sids owed => exact hquiet rfl (MachineState.giveBacks_view _ sids m.core) rfl rfl
  | framePartsFor request sid =>
    refine hquiet rfl ?_ rfl rfl
    simp only [SessionMachine.step, SessionMachine.onCore, MachineState.framePartsFor]
    split
    · exact m.core.frame_view request sid
    · rfl
  | forgetPath pathid =>
    refine hdrop _ rfl ?_ rfl rfl (h.drop hpooled
      (MachineState.releases_keyed _ h.keyed) (releases_state _ m.core) (releases_has _ m.core))
    exact releases_events _ m.core
  | receiveData pathid data => exact sound_receive h pathid data
  | buffersToSend => exact hquiet rfl rfl rfl rfl
  | pathBuffersToSend pathid => exact hquiet rfl rfl rfl rfl
  | nextEvent =>
    rw [note_eq [] rfl rfl rfl]
    exact h.quiet hpooled h.keyed rfl (fun _ => rfl) (by simp)
  | drain =>
    rw [note_eq [] rfl rfl rfl]
    exact h.quiet hpooled h.keyed rfl (fun _ => rfl) (by simp)

/-! ## Runs -/

/-- The session is over. -/
def Over (m : MachineState) : Prop := m.state = .closed ∨ m.state = .failed

theorem not_bringup_of_over {m : MachineState} (h : Over m) :
    MachineState.inBringup m.state = false := by
  rcases h with h | h <;> simp [h, MachineState.inBringup]

theorem state_of_view {m m' : MachineState} (h : m'.view = m.view) : m'.state = m.state :=
  congrArg (fun v => v.1) h

/-- A session that is over stays so. -/
theorem step_over {m : SessionMachine} (h : Over m.core) (op : Op) : Over (m.step op).1.core := by
  have hsame : ∀ {core : MachineState}, core.state = m.core.state → Over core := by
    intro core heq
    rw [Over, heq]
    exact h
  have hnew : m.core.state ≠ .new := by
    rcases h with h | h <;> simp [h]
  have hready : m.core.state ≠ .ready := by
    rcases h with h | h <;> simp [h]
  have htls : m.core.state ≠ .tls := by
    rcases h with h | h <;> simp [h]
  cases op with
  | start =>
    refine hsame ?_
    simp [SessionMachine.step, SessionMachine.onCore, MachineState.start, hnew]
  | submit request path arriveOnPath =>
    refine hsame ?_
    simp [SessionMachine.step, SessionMachine.onCore, MachineState.submit, hready]
  | resume sid => exact hsame (MachineState.resume_streams m.core sid).state
  | release sid => exact hsame (MachineState.release_state m.core sid)
  | abandon sid => exact hsame (MachineState.abandon_state m.core sid)
  | close graceful =>
    refine .inl ?_
    simp [SessionMachine.step, SessionMachine.onCore, MachineState.close, hready]
  | tlsEstablished =>
    refine hsame ?_
    simp [SessionMachine.step, SessionMachine.onCore, MachineState.tlsEstablished, htls]
  | leaseSids count =>
    refine hsame ?_
    simp only [SessionMachine.step, SessionMachine.onCore, MachineState.leaseSids]
    split
    · rfl
    · exact state_of_view (MachineState.leaseLoop_view count m.core [])
  | releaseSids sids => exact hsame (state_of_view (MachineState.giveBacks_view _ sids m.core))
  | retireSids sids owed => exact hsame (state_of_view (MachineState.giveBacks_view _ sids m.core))
  | framePartsFor request sid =>
    exact hsame (MachineState.framePartsFor_streams m.core request sid).state
  | forgetPath pathid => exact hsame (releases_state _ m.core)
  | receiveData pathid data =>
    simp only [SessionMachine.step, SessionMachine.receiveData, SessionMachine.receiveLog]
    by_cases hdata : data = []
    · simp only [hdata, if_true]
      split
      · unfold SessionMachine.onEof
        split
        · exact h
        · exact .inl rfl
      · exact hsame (releases_state _ _)
    · simp only [if_neg hdata]
      refine MachineState.decode_invariant (I := Over) (fun core u hcore => ?_) _ data h
      rw [Over, MachineState.deliver_state u (not_bringup_of_over hcore)]
      exact hcore
  | buffersToSend => exact h
  | pathBuffersToSend pathid => exact h
  | nextEvent => exact h
  | drain => exact h

/-- The end of the control link ends the session. -/
theorem over_of_eof (m : SessionMachine) : Over (m.step (.receiveData 0 [])).1.core := by
  simp only [SessionMachine.step, SessionMachine.receiveData, SessionMachine.receiveLog, if_true,
    SessionMachine.onEof]
  split
  · next h => exact h
  · exact .inl rfl

theorem run_sound {ops : List Op} {m : SessionMachine} {b : Books} (h : Sound m.core b)
    (hheld : SessionMachine.EachCall SessionMachine.Held m ops) (hopen : ∀ op ∈ ops, ¬ Closes op) :
    Sound (run (m, b) ops).1.core (run (m, b) ops).2 := by
  induction ops generalizing m b with
  | nil => exact h
  | cons op ops ih =>
    exact ih (step_sound h op hheld.1 (hopen op (by simp))) hheld.2
      fun o ho => hopen o (by simp [ho])

theorem run_over {ops : List Op} {m : SessionMachine} {b : Books}
    (h : Over m.core ∨ Op.receiveData 0 [] ∈ ops) : Over (run (m, b) ops).1.core := by
  induction ops generalizing m b with
  | nil => exact h.resolve_right (by simp)
  | cons op ops ih =>
    refine ih ?_
    rcases h with h | h
    · exact .inl (step_over h op)
    · rcases List.mem_cons.mp h with rfl | h
      · exact .inl (over_of_eof m)
      · exact .inr h

/-- **Every request ends once.**  In any run of a session machine that its driver
does not close, whatever bytes and whatever ends of links it is fed, a request
that the caller does not give up itself gets at most one last event, nothing
follows that event, and once the control link has ended it has had one. -/
theorem one_ending_each (env : Env) (host : Text) (port : Nat) (config : Auth.Config)
    (username : Text) (wantTls : Bool) (bindTo : Bytes) (ops : List Op)
    (hheld : SessionMachine.EachCall SessionMachine.Held
      (SessionMachine.made env host port config username wantTls bindTo) ops)
    (hopen : ∀ op ∈ ops, ¬ Closes op) (k : Nat)
    (hk : k < (run (SessionMachine.made env host port config username wantTls bindTo, {}) ops).2.next)
    (hkept : k ∉ (run (SessionMachine.made env host port config username wantTls bindTo, {})
      ops).2.gaveUp) :
    let events := (run (SessionMachine.made env host port config username wantTls bindTo, {})
      ops).2.eventsOf k
    events.countP Event.isLast ≤ 1 ∧
      (∀ before e after, events = before ++ e :: after → e.isLast = true → after = []) ∧
      (Op.receiveData 0 [] ∈ ops → events.countP Event.isLast = 1) := by
  have hsound : Sound _ _ := run_sound (b := {}) (.before rfl rfl rfl
    (SessionMachine.made_pooled env host port config username wantTls bindTo).1 rfl) hheld hopen
  intro events
  rcases hsound.settled k hk hkept with ⟨s, hs, hget⟩ | hended
  · obtain ⟨k', -, hget', hrun⟩ := hsound.owned s hs
    obtain rfl : k' = k := Option.some.inj (hget'.symm.trans hget)
    refine ⟨Nat.le_trans (Nat.le_of_eq hrun.count) (Nat.zero_le 1), ?_, fun heof => ?_⟩
    · intro before e after heq hlast
      have hno : e.isLast = false := hrun e (by
        have hmem : e ∈ events := by simp [heq]
        exact hmem)
      rw [hlast] at hno
      cases hno
    · -- nothing is pending once the session is over
      have hready := hsound.ready s hs
      rcases run_over (b := {}) (.inr heof) with hstate | hstate
      · rw [hready] at hstate
        cases hstate
      · rw [hready] at hstate
        cases hstate
  · exact ⟨Nat.le_of_eq hended.count, fun before e after heq hlast =>
      hended.nothing_after heq hlast, fun _ => hended.count⟩

/-- A read that is answered, and then the end of the link. -/
def answered : List Op :=
  bringUp ++ [.submit (readRequest [0, 0, 0, 0] 0 4) [] false,
    .receiveData 0 (headerBytes ⟨4, kXR_ok, 4⟩ ++ [1, 2, 3, 4]), .receiveData 0 []]

/-- The read completed, and the end of the link did not fail it. -/
theorem answered_read_ends_once :
    (run (newMachine, {}) answered).2.next = 1 ∧
      ((run (newMachine, {}) answered).2.eventsOf 0).countP Event.isLast = 1 := by
  have hmade : newMachine = SessionMachine.made MachineState.bareEnv "server".toList 1094 {}
    "user".toList false [] := rfl
  have hheld : SessionMachine.EachCall SessionMachine.Held newMachine answered :=
    ⟨trivial, trivial, trivial, trivial, trivial, trivial, trivial, trivial⟩
  have hopen : ∀ op ∈ answered, ¬ Closes op := by
    simp [answered, bringUp, bringUpReplies, Closes]
  have hnext : (run (newMachine, {}) answered).2.next = 1 := by decide
  have hkept : 0 ∉ (run (newMachine, {}) answered).2.gaveUp := by decide
  have hk : 0 < (run (newMachine, {}) answered).2.next := by
    rw [hnext]
    exact Nat.zero_lt_one
  rw [hmade] at hheld hk hkept ⊢
  exact ⟨hmade ▸ hnext, (one_ending_each MachineState.bareEnv "server".toList 1094 {} "user".toList
    false [] answered hheld hopen 0 hk hkept).2.2 (by simp [answered])⟩

end Books

end XrdClient.Proto
