/-
  Proto/Streams.lean --- who holds each stream id.

  An id is pending (a request waits on it), retired (given up on while an answer
  may still come), leased (the bulk reader's) or free for reuse.  `places` counts
  where an id is held, and `Apart` says that none is held twice; every method
  that moves an id keeps it so.

  `deliver_frame` and `deliver_trailer` say what one reply can do to the table of
  ids once bring-up is over.  Everything proved about ids rests on these two and
  on the specifications of `_acquire_sid`, `release` and their like.
-/
import XrdClient.Proto.Sync
import XrdClient.Proto.Run

set_option autoImplicit false

namespace XrdClient.Proto

open XrdClient.Lib
open MachineState (effective)

namespace MachineState

/-! ## The table of ids -/

/-- How often an id is held, over all the places that hold ids. -/
def places (m : MachineState) (s : Nat) : Nat :=
  (m.pending.has s).toNat + m.retired.count s + m.leased.count s + m.free.count s

/-- No id is held twice. -/
def Apart (m : MachineState) : Prop := ∀ s, m.places s ≤ 1

/-- Somebody holds the id. -/
def Holding (m : MachineState) (s : Nat) : Prop :=
  m.pending.has s = true ∨ s ∈ m.retired ∨ s ∈ m.leased

instance (m : MachineState) (s : Nat) : Decidable (m.Holding s) :=
  inferInstanceAs (Decidable (_ ∨ _ ∨ _))

/-- The fields that say who holds an id, and the state of the connection. -/
structure SameStreams (m m' : MachineState) : Prop where
  state : m'.state = m.state
  pending : m'.pending = m.pending
  retired : m'.retired = m.retired
  leased : m'.leased = m.leased
  free : m'.free = m.free

theorem SameStreams.refl (m : MachineState) : SameStreams m m := ⟨rfl, rfl, rfl, rfl, rfl⟩

theorem SameStreams.trans {m m' m'' : MachineState} (h : SameStreams m m')
    (h' : SameStreams m' m'') : SameStreams m m'' :=
  ⟨h'.state.trans h.state, h'.pending.trans h.pending, h'.retired.trans h.retired,
    h'.leased.trans h.leased, h'.free.trans h.free⟩

theorem SameStreams.places {m m' : MachineState} (h : SameStreams m m') (s : Nat) :
    m'.places s = m.places s := by
  simp only [MachineState.places, h.pending, h.retired, h.leased, h.free]

theorem SameStreams.apart {m m' : MachineState} (h : SameStreams m m') (ha : m.Apart) :
    m'.Apart := by
  intro s
  rw [h.places]
  exact ha s

theorem SameStreams.holding {m m' : MachineState} (h : SameStreams m m') {s : Nat} :
    m'.Holding s ↔ m.Holding s := by
  simp only [Holding, h.pending, h.retired, h.leased]

theorem Apart.not_free {m : MachineState} (h : m.Apart) {s : Nat} (hs : m.Holding s) :
    s ∉ m.free := by
  intro hfree
  have h1 := h s
  have h2 : 0 < m.free.count s := List.count_pos_iff.mpr hfree
  unfold places at h1
  obtain hp | hr | hl := hs
  · rw [hp, Bool.toNat_true] at h1
    omega
  · have h3 : 0 < m.retired.count s := List.count_pos_iff.mpr hr
    omega
  · have h3 : 0 < m.leased.count s := List.count_pos_iff.mpr hl
    omega

/-- An id that is free is held by nobody. -/
theorem Apart.not_holding {m : MachineState} (h : m.Apart) {s : Nat} (hs : s ∈ m.free) :
    ¬ m.Holding s := fun hh => h.not_free hh hs

theorem places_eq_zero {m : MachineState} {s : Nat} (hh : ¬ m.Holding s) (hf : s ∉ m.free) :
    m.places s = 0 := by
  simp only [Holding, not_or, Bool.not_eq_true] at hh
  obtain ⟨hp, hr, hl⟩ := hh
  simp [places, hp, List.count_eq_zero.mpr hr, List.count_eq_zero.mpr hl,
    List.count_eq_zero.mpr hf]

theorem Apart.of_pending {m : MachineState} (h : m.Apart) {s : Nat}
    (hp : m.pending.has s = true) : s ∉ m.retired ∧ s ∉ m.leased ∧ s ∉ m.free := by
  have h1 := h s
  simp only [places, hp, Bool.toNat_true] at h1
  refine ⟨?_, ?_, ?_⟩ <;> refine fun hmem => ?_
  all_goals
    have h2 := List.count_pos_iff.mpr hmem
    omega

/-! ## Taking an id -/

/-- What `_acquire_sid` does: an id that was free, or the counter's, which nobody
holds. -/
theorem acquireSid_cases (m : MachineState) :
    (∃ sid m', m.acquireSid = (.ok sid, m') ∧ m'.state = m.state ∧ m'.pending = m.pending ∧
      m'.retired = m.retired ∧ m'.leased = m.leased ∧
      (m.free = sid :: m'.free ∨ (m.free = [] ∧ m'.free = [] ∧ ¬ m.Holding sid))) ∨
    (∃ e m', m.acquireSid = (.error e, m') ∧ SameStreams m m') := by
  unfold acquireSid
  cases hf : m.free with
  | cons sid free => exact .inl ⟨sid, _, rfl, rfl, rfl, rfl, rfl, .inl rfl⟩
  | nil =>
    dsimp only
    split
    · exact .inr ⟨_, _, rfl, rfl, rfl, rfl, rfl, by simp [hf]⟩
    · rename_i hfresh
      refine .inl ⟨_, _, rfl, rfl, rfl, rfl, rfl, .inr ⟨rfl, rfl, ?_⟩⟩
      intro hh
      obtain hp | hr | hl := hh
      · exact hfresh (.inl hp)
      · exact hfresh (.inr (.inr hr))
      · exact hfresh (.inr (.inl hl))

/-- An id that was taken: nobody held it, and it is not free any more. -/
structure Taken (m : MachineState) (sid : Nat) (m' : MachineState) : Prop where
  state : m'.state = m.state
  pending : m'.pending = m.pending
  retired : m'.retired = m.retired
  leased : m'.leased = m.leased
  fresh : ¬ m.Holding sid
  places : ∀ s, m'.places s + (if s = sid then 1 else 0) ≤ 1

theorem Taken.apart {m m' : MachineState} {sid : Nat} (h : Taken m sid m') : m'.Apart :=
  fun s => Nat.le_trans (Nat.le_add_right _ _) (h.places s)

theorem acquireSid_taken {m m' : MachineState} {sid : Nat} (ha : m.Apart)
    (h : m.acquireSid = (.ok sid, m')) : Taken m sid m' := by
  obtain ⟨sid', m'', heq, hstate, hpending, hretired, hleased, hfree⟩ | ⟨e, m'', heq, _⟩ :=
    m.acquireSid_cases
  · rw [h, Prod.mk.injEq, Except.ok.injEq] at heq
    obtain ⟨rfl, rfl⟩ := heq
    have hheld : ∀ s, m'.places s + m.free.count s = m.places s + m'.free.count s := by
      intro s
      simp only [MachineState.places, hpending, hretired, hleased]
      omega
    obtain hcons | ⟨hnil, hnil', hfresh⟩ := hfree
    · have hmem : sid ∈ m.free := by simp [hcons]
      refine ⟨hstate, hpending, hretired, hleased, ha.not_holding hmem, ?_⟩
      intro s
      have h1 := hheld s
      have h2 := ha s
      rw [hcons, List.count_cons] at h1
      by_cases hs : s = sid
      · subst hs
        simp only [beq_self_eq_true, if_true] at h1 ⊢
        omega
      · simp only [if_neg hs]
        have hb : (sid == s) = false := by simpa using fun e : sid = s => hs e.symm
        simp only [hb, Bool.false_eq_true, if_false] at h1
        omega
    · refine ⟨hstate, hpending, hretired, hleased, hfresh, ?_⟩
      intro s
      have h1 := hheld s
      have h2 := ha s
      rw [hnil, hnil'] at h1
      by_cases hs : s = sid
      · subst hs
        have h3 := places_eq_zero hfresh (by simp [hnil])
        simp only [if_true]
        omega
      · simp only [if_neg hs]
        omega
  · rw [h] at heq
    cases (Prod.mk.inj heq).1

/-! ## Moving an id -/

@[simp] theorem emit_state (m : MachineState) (e : Event) : (m.emit e).state = m.state := rfl
@[simp] theorem emit_pending (m : MachineState) (e : Event) : (m.emit e).pending = m.pending := rfl

theorem emit_streams (m : MachineState) (e : Event) : SameStreams m (m.emit e) :=
  ⟨rfl, rfl, rfl, rfl, rfl⟩

theorem has_del (m : MachineState) (sid s : Nat) :
    (m.pending.del sid).has s = (decide (s ≠ sid) && m.pending.has s) := by
  unfold Assoc.has
  rw [Assoc.get_del]
  by_cases hs : s = sid <;> simp [hs]

theorem has_set (m : MachineState) (sid s : Nat) (p : Pending) :
    (m.pending.set sid p).has s = (decide (s = sid) || m.pending.has s) := by
  unfold Assoc.has
  rw [Assoc.get_set]
  by_cases hs : s = sid <;> simp [hs]

theorem count_snoc (xs : List Nat) (sid s : Nat) :
    (xs ++ [sid]).count s = xs.count s + (if s = sid then 1 else 0) := by
  by_cases hs : s = sid
  · simp [hs]
  · simp [List.count_append, hs, Ne.symm hs]

theorem release_apart {m : MachineState} (h : m.Apart) (sid : Nat) : (m.release sid).Apart := by
  unfold release
  split
  · rename_i hp
    intro s
    have h1 := h s
    have hfree : (if FIRST_SID ≤ sid then m.free ++ [sid] else m.free).count s ≤
        m.free.count s + (if s = sid then 1 else 0) := by
      split
      · exact Nat.le_of_eq (count_snoc _ _ _)
      · exact Nat.le_add_right _ _
    simp only [places, has_del] at h1 ⊢
    by_cases hs : s = sid
    · subst hs
      simp only [hp, if_true, ne_eq, not_true_eq_false, decide_false, Bool.false_and,
        Bool.toNat_true, Bool.toNat_false] at h1 hfree ⊢
      omega
    · simp only [hs, if_false, ne_eq, not_false_eq_true, decide_true, Bool.true_and] at hfree ⊢
      omega
  · exact h

theorem release_holding {m : MachineState} {sid s : Nat} (hne : s ≠ sid) :
    (m.release sid).Holding s ↔ m.Holding s := by
  unfold release
  split
  · simp [Holding, has_del, hne]
  · exact Iff.rfl

theorem release_get {m : MachineState} {sid s : Nat} {p : Pending}
    (h : (m.release sid).pending.get s = some p) : m.pending.get s = some p ∧
      (m.pending.has sid = true → s ≠ sid) := by
  unfold release at h
  split at h
  · simp only [Assoc.get_del] at h
    split at h
    · cases h
    · rename_i hne
      exact ⟨h, fun _ => hne⟩
  · rename_i hno
    exact ⟨h, fun hp => absurd hp hno⟩

theorem release_state (m : MachineState) (sid : Nat) : (m.release sid).state = m.state := by
  unfold release
  split <;> rfl

theorem release_leased (m : MachineState) (sid : Nat) : (m.release sid).leased = m.leased := by
  unfold release
  split <;> rfl

/-- Held in the same places but for the record of one stream, which stays. -/
theorem setPending_holding {m : MachineState} {sid : Nat} (p : Pending)
    (h : m.pending.has sid = true) (s : Nat) :
    { m with pending := m.pending.set sid p }.Holding s ↔ m.Holding s := by
  by_cases hs : s = sid
  · subst hs
    simp [Holding, has_set, h]
  · simp [Holding, has_set, hs]

theorem setPending_apart {m : MachineState} {sid : Nat} (p : Pending)
    (h : m.pending.has sid = true) (ha : m.Apart) :
    { m with pending := m.pending.set sid p }.Apart := by
  intro s
  have h1 := ha s
  simp only [places, has_set] at h1 ⊢
  by_cases hs : s = sid
  · subst hs
    simpa [h] using h1
  · simpa [hs] using h1

/-! ## What one reply can do -/

/-- The reply ends the answer to its request, by the source's own test. -/
def finalReply (status : Nat) (block : Bytes) : Bool :=
  if status = kXR_status then
    match parseStatus block with
    | .ok info => info.isFinal
    | .error _ => false
  else decide (status ≠ kXR_oksofar ∧ status ≠ kXR_waitresp)

theorem finalReply_of_ne {status : Nat} (block : Bytes) (hstatus : status ≠ kXR_status)
    (hsofar : status ≠ kXR_oksofar) (hlater : status ≠ kXR_waitresp) :
    finalReply status block = true := by
  simp [finalReply, hstatus, hsofar, hlater]

/-- `extra` more bytes are more than the request asked for. -/
def exceeds (p : Pending) (extra : Nat) : Bool :=
  decide (p.cap ≠ 0 ∧ p.cap < p.buffer.length + extra)

/-- A partial reply brings more than its request asked for. -/
def overruns (m : MachineState) (sid status : Nat) (block : Bytes) : Bool :=
  match m.pending.get sid with
  | none => false
  | some p =>
      if status = kXR_oksofar then exceeds p block.length
      else if status = kXR_status then
        match parseStatus block with
        | .ok info => !info.isFinal && decide (info.dlen = 0) && exceeds p 0
        | .error _ => false
      else false

/-- A partial status block's data is more than its request asked for. -/
def dataOverruns (m : MachineState) (sid : Nat) (data : Bytes) : Bool :=
  match m.pending.get sid with
  | none => false
  | some p =>
      match p.status with
      | none => false
      | some info => !info.isFinal && exceeds p data.length

theorem withinCap_cases (m : MachineState) (sid : Nat) (p : Pending) (extra : Nat) :
    (m.withinCap sid p extra = (true, m) ∧ exceeds p extra = false) ∨
      (∃ m', m.withinCap sid p extra = (false, m') ∧ SameStreams (m.release sid) m' ∧
        exceeds p extra = true) := by
  unfold withinCap exceeds
  split
  · rename_i h
    refine .inl ⟨rfl, ?_⟩
    simp only [decide_eq_false_iff_not, not_and, Nat.not_lt]
    exact fun hc => h.resolve_left hc
  · rename_i h
    simp only [not_or, Nat.not_le] at h
    exact .inr ⟨_, rfl, emit_streams _ _, by simp [h.1, h.2]⟩

/-- The data behind a status block, at a record. -/
theorem onStatusData_cases {m : MachineState} {sid : Nat} {p : Pending} (data : Bytes)
    (hp : m.pending.get sid = some p) :
    (p.status = none ∧ m.onStatusData sid data = m) ∨
      ∃ info, p.status = some info ∧
        ((SameStreams (m.release sid) (m.onStatusData sid data) ∧
            (info.isFinal = true ∨ m.dataOverruns sid data = true)) ∨
          (info.isFinal = false ∧ SameStreams
            { m with pending := m.pending.set sid { p with buffer := p.buffer ++ data } }
            (m.onStatusData sid data))) := by
  unfold onStatusData dataOverruns
  simp only [hp]
  cases hs : p.status with
  | none => exact .inl ⟨rfl, rfl⟩
  | some info =>
    refine .inr ⟨info, rfl, ?_⟩
    obtain ⟨hw, _⟩ | ⟨m', hw, hrel, hex⟩ := m.withinCap_cases sid p data.length
    · simp only [hw]
      by_cases hf : info.isFinal = true
      · simp only [hf, if_true]
        exact .inl ⟨emit_streams _ _, .inl trivial⟩
      · simp only [hf, if_false, Bool.false_eq_true]
        exact .inr ⟨trivial, emit_streams _ _⟩
    · simp only [hw]
      refine .inl ⟨hrel, ?_⟩
      by_cases hf : info.isFinal = true
      · exact .inl hf
      · simp [hf, hex]

/-- What a reply does to the record it finds: nothing, or the answer is complete
and the record goes, or the record takes the reply in. -/
structure Noted (m : MachineState) (sid status : Nat) (block : Bytes) (p : Pending)
    (m' : MachineState) (p' : Pending) : Prop where
  streams : SameStreams { m with pending := m.pending.set sid p' } m'
  pathid : p'.pathid = p.pathid
  status : p'.status = p.status ∨ ∃ info, status = kXR_status ∧ parseStatus block = .ok info ∧
    p'.status = some info ∧ (info.isFinal = true → info.dlen ≠ 0)

@[inherit_doc Noted]
structure Ended (m : MachineState) (sid status : Nat) (block : Bytes) (m' : MachineState) :
    Prop where
  streams : SameStreams (m.release sid) m'
  cause : m.overruns sid status block = true ∨ (finalReply status block = true ∧
    status ≠ kXR_wait ∧ (status = kXR_status → ∃ info, parseStatus block = .ok info ∧
      info.dlen = 0))

theorem responseOk_ended (m : MachineState) (sid : Nat) (body : Bytes) (p : Pending) :
    SameStreams (m.release sid) (m.responseOk sid body p) := by
  unfold responseOk
  obtain ⟨hw, _⟩ | ⟨m', hw, hrel, _⟩ := m.withinCap_cases sid p body.length
  · rw [hw]
    exact emit_streams _ _
  · rw [hw]
    exact hrel

theorem responseChunk_cases {m : MachineState} {sid : Nat} {p : Pending} (body : Bytes)
    (hp : m.pending.get sid = some p) :
    Ended m sid kXR_oksofar body (m.responseChunk sid body p) ∨
      Noted m sid kXR_oksofar body p (m.responseChunk sid body p)
        { p with buffer := p.buffer ++ body } := by
  unfold responseChunk
  obtain ⟨hw, _⟩ | ⟨m', hw, hrel, hex⟩ := m.withinCap_cases sid p body.length
  · rw [hw]
    exact .inr ⟨emit_streams _ _, rfl, .inl rfl⟩
  · rw [hw]
    exact .inl ⟨hrel, .inl (by simp [overruns, hp, hex])⟩

theorem responseStatus_cases {m : MachineState} {sid : Nat} {p : Pending} (body : Bytes)
    (f : Framer) (hp : m.pending.get sid = some p) :
    SameStreams m (m.responseStatus sid body p f).1 ∨
      Ended m sid kXR_status body (m.responseStatus sid body p f).1 ∨
      ∃ p', Noted m sid kXR_status body p (m.responseStatus sid body p f).1 p' := by
  unfold responseStatus
  cases hparse : parseStatus body with
  | error e => exact .inl (.refl m)
  | ok info =>
    refine .inr ?_
    by_cases hd : info.dlen = 0
    · -- No data follows: the record takes the empty data at once.
      simp only [hd, ne_eq, not_true_eq_false, if_false]
      have hset : { m with pending := m.pending.set sid { p with status := some info } }.pending.get
          sid = some { p with status := some info } := Assoc.get_set_self _ _ _
      have hrel : SameStreams (m.release sid)
          ({ m with pending := m.pending.set sid { p with status := some info } }.release sid) := by
        have hhas : m.pending.has sid = true := Assoc.has_eq_true.mpr ⟨p, hp⟩
        have hhas' : (m.pending.set sid { p with status := some info }).has sid = true := by
          simp [has_set]
        simp only [release, hhas, hhas', if_true]
        exact ⟨rfl, by simp [Assoc.del_set], rfl, rfl, rfl⟩
      obtain ⟨hnone, _⟩ | ⟨info', hsome, hcase⟩ := onStatusData_cases [] hset
      · cases hnone
      · obtain rfl : info = info' := Option.some.inj hsome
        obtain ⟨hstreams, hcause⟩ | ⟨hsofar, hstreams⟩ := hcase
        · refine .inl ⟨hrel.trans hstreams, ?_⟩
          obtain hfin | hover := hcause
          · exact .inr ⟨by simp [finalReply, hparse, hfin], by decide, fun _ => ⟨info, hparse, hd⟩⟩
          · by_cases hfin : info.isFinal = true
            · exact .inr ⟨by simp [finalReply, hparse, hfin], by decide,
                fun _ => ⟨info, hparse, hd⟩⟩
            · refine .inl ?_
              simp only [dataOverruns, hset] at hover
              simpa [overruns, hp, hparse, hfin, hd, exceeds, kXR_status, kXR_oksofar] using hover
        · refine .inr ⟨{ p with status := some info, buffer := p.buffer ++ [] }, ?_, rfl,
            .inr ⟨info, rfl, hparse, rfl, by simp [hsofar]⟩⟩
          simpa using hstreams
    · simp only [ne_eq, hd, not_false_eq_true, if_true]
      exact .inr ⟨{ p with status := some info }, .refl _, rfl,
        .inr ⟨info, rfl, hparse, rfl, fun _ => hd⟩⟩

/-- What a reply to a pending stream does to the table. -/
theorem respond_cases {m : MachineState} {sid : Nat} {p : Pending} (status : Nat) (block : Bytes)
    (f : Framer) (hp : m.pending.get sid = some p) :
    SameStreams m (m.respond sid status block p f).1 ∨
      Ended m sid status block (m.respond sid status block p f).1 ∨
      ∃ p', Noted m sid status block p (m.respond sid status block p f).1 p' := by
  unfold respond
  split_ifs with hok hsofar herror hredirect hwait hlater hstatus
  · subst hok
    exact .inr (.inl ⟨responseOk_ended m sid block p, .inr
      ⟨finalReply_of_ne block (by decide) (by decide) (by decide), by decide,
        by simp [kXR_ok, kXR_status]⟩⟩)
  · subst hsofar
    exact .inr ((responseChunk_cases block hp).imp id fun h => ⟨_, h⟩)
  · subst herror
    unfold responseError
    cases parseError block with
    | error e => exact .inl (.refl m)
    | ok info =>
      exact .inr (.inl ⟨emit_streams _ _, .inr
        ⟨finalReply_of_ne block (by decide) (by decide) (by decide), by decide, by simp [kXR_error, kXR_status]⟩⟩)
  · unfold responseRedirect
    cases parseRedirect block with
    | error e => exact .inl (.refl m)
    | ok target => exact .inl (emit_streams _ _)
  · unfold responseWait
    cases parseWait block with
    | error e => exact .inl (.refl m)
    | ok wait => exact .inl (emit_streams _ _)
  · unfold responseWaitresp
    cases parseWaitresp block with
    | error e => exact .inl (.refl m)
    | ok later => exact .inl (emit_streams _ _)
  · subst hstatus
    exact responseStatus_cases block f hp
  · exact .inr (.inl ⟨emit_streams _ _, .inr
      ⟨finalReply_of_ne block hstatus hsofar hlater, hwait, fun h => absurd h hstatus⟩⟩)

/-- The id of a retired stream goes back to the pool. -/
def freed (m : MachineState) (sid : Nat) : MachineState :=
  { m with retired := m.retired.filter (· ≠ sid), free := m.free ++ [sid] }

/-- What a late reply to a retired stream does to the table. -/
theorem retiredReply_cases (m : MachineState) (sid status : Nat) (block : Bytes) (f : Framer) :
    SameStreams m (m.retiredReply sid status block f).1 ∨
      (SameStreams (m.freed sid) (m.retiredReply sid status block f).1 ∧
        finalReply status block = true) := by
  unfold retiredReply finalReply
  by_cases hstatus : status = kXR_status
  · simp only [hstatus, if_true]
    cases parseStatus block with
    | error e => exact .inl (.refl m)
    | ok info =>
      by_cases hf : info.isFinal = true
      · simp only [hf, if_true]
        exact .inr ⟨.refl _, trivial⟩
      · simp only [hf, if_false, Bool.false_eq_true]
        exact .inl (.refl m)
  · simp only [hstatus, if_false]
    by_cases hf : status ≠ kXR_oksofar ∧ status ≠ kXR_waitresp
    · rw [if_pos hf]
      exact .inr ⟨.refl _, by simpa using hf⟩
    · rw [if_neg hf]
      exact .inl (.refl m)

theorem freed_apart {m : MachineState} {sid : Nat} (h : m.Apart) (hr : sid ∈ m.retired) :
    (m.freed sid).Apart := by
  intro s
  have h1 := h s
  simp only [places, freed, count_snoc] at h1 ⊢
  by_cases hs : s = sid
  · subst hs
    have h2 : 0 < m.retired.count s := List.count_pos_iff.mpr hr
    have h3 : (m.retired.filter (· ≠ s)).count s = 0 := List.count_eq_zero.mpr (by simp)
    simp only [if_true]
    omega
  · have h3 : (m.retired.filter (· ≠ sid)).count s = m.retired.count s :=
      List.count_filter (by simpa using hs)
    simp only [hs, if_false]
    omega

theorem freed_holding {m : MachineState} {sid s : Nat} (hne : s ≠ sid) :
    (m.freed sid).Holding s ↔ m.Holding s := by
  simp [Holding, freed, hne]

/-! ## Requests and the bulk reader -/

theorem frame_streams (m : MachineState) (request : Request) (sid : Nat) :
    SameStreams m (m.frame request sid).2 := by
  unfold frame
  cases encodeParts request sid with
  | error e => exact .refl m
  | ok parts =>
    simp only
    cases m.signer with
    | none => exact .refl m
    | some signer =>
      simp only
      rcases signer.sign m.env.sigverSign parts.flatten with ⟨_ | ⟨seqno, signature, nodata⟩, signer'⟩
      · exact ⟨rfl, rfl, rfl, rfl, rfl⟩
      · simp only
        cases encodeSigver request.opcode seqno signature nodata sid with
        | error e => exact ⟨rfl, rfl, rfl, rfl, rfl⟩
        | ok sigver => exact ⟨rfl, rfl, rfl, rfl, rfl⟩

theorem framePartsFor_streams (m : MachineState) (request : Request) (sid : Nat) :
    SameStreams m (m.framePartsFor request sid).2 := by
  unfold framePartsFor
  split
  · exact frame_streams m request sid
  · exact .refl m

/-- `_send` raises without recording anything, or records the request. -/
theorem send_cases (m : MachineState) (request : Request) (sid : Nat) (path : Text)
    (arriveOnPath : Bool) :
    (∃ e, (m.send request sid path arriveOnPath).2 = some e ∧
        SameStreams m (m.send request sid path arriveOnPath).1) ∨
      ((m.send request sid path arriveOnPath).2 = none ∧ ∃ p : Pending, p.status = none ∧
        SameStreams { m with pending := m.pending.set sid p }
          (m.send request sid path arriveOnPath).1) := by
  have hframe := frame_streams m request sid
  unfold send
  rcases hf : m.frame request sid with ⟨_ | parts, m'⟩
  · rw [hf] at hframe
    exact .inl ⟨_, rfl, hframe⟩
  · rw [hf] at hframe
    have hset : ∀ p : Pending, SameStreams { m with pending := m.pending.set sid p }
        { m' with pending := m'.pending.set sid p } := fun p =>
      ⟨hframe.state, congrArg (·.set sid p) hframe.pending, hframe.retired, hframe.leased,
        hframe.free⟩
    refine .inr ⟨by dsimp only; split_ifs <;> rfl,
      { request := request, parts := parts, path := path, pathid := request.pathid
        pathBytes := request.pathData, cap := request.replyCap }, rfl, (hset _).trans ?_⟩
    dsimp only
    split_ifs <;> exact ⟨rfl, rfl, rfl, rfl, rfl⟩

/-- `submit` records the request on an id nobody held, or raises; an id it had
taken by then is lost. -/
theorem submit_cases {m : MachineState} (ha : m.Apart) (request : Request) (path : Text)
    (arriveOnPath : Bool) :
    (∃ sid m₁, (m.submit request path arriveOnPath).1 = .ok sid ∧ Taken m sid m₁ ∧
        ∃ p : Pending, p.status = none ∧ SameStreams { m₁ with pending := m₁.pending.set sid p }
          (m.submit request path arriveOnPath).2) ∨
      ∃ e, (m.submit request path arriveOnPath).1 = .error e ∧
        (SameStreams m (m.submit request path arriveOnPath).2 ∨
          ∃ sid m₁, Taken m sid m₁ ∧ SameStreams m₁ (m.submit request path arriveOnPath).2) := by
  unfold submit
  split
  · exact .inr ⟨_, rfl, .inl (.refl m)⟩
  · obtain ⟨sid, m₁, hacq, _⟩ | ⟨e, m₁, hacq, hsame⟩ := m.acquireSid_cases
    · have htaken := acquireSid_taken ha hacq
      rw [hacq]
      simp only
      obtain ⟨e, hraised, hsame⟩ | ⟨hnone, p, hp, hsame⟩ :=
        m₁.send_cases request sid path arriveOnPath
      · rcases hsend : m₁.send request sid path arriveOnPath with ⟨m₂, r⟩
        rw [hsend] at hraised hsame
        simp only at hraised
        subst hraised
        exact .inr ⟨e, rfl, .inr ⟨sid, m₁, htaken, hsame⟩⟩
      · rcases hsend : m₁.send request sid path arriveOnPath with ⟨m₂, r⟩
        rw [hsend] at hnone hsame
        simp only at hnone
        subst hnone
        exact .inl ⟨sid, m₁, rfl, htaken, p, hp, hsame⟩
    · rw [hacq]
      exact .inr ⟨e, rfl, .inl hsame⟩

theorem resume_streams (m : MachineState) (sid : Nat) : SameStreams m (m.resume sid).1 := by
  unfold resume
  split
  · exact .refl m
  · split <;> exact ⟨rfl, rfl, rfl, rfl, rfl⟩

/-- A new record on an id that was taken. -/
theorem Taken.setPending_apart {m m' : MachineState} {sid : Nat} (h : Taken m sid m')
    (p : Pending) : { m' with pending := m'.pending.set sid p }.Apart := by
  intro s
  have h1 := h.places s
  simp only [MachineState.places, has_set] at h1 ⊢
  by_cases hs : s = sid
  · subst hs
    have hno : m'.pending.has s = false := by
      rw [h.pending]
      by_contra hp
      exact h.fresh (.inl (by simpa using hp))
    simp only [hno, if_true, decide_true, Bool.true_or, Bool.toNat_true, Bool.toNat_false] at h1 ⊢
    omega
  · simp only [hs, if_false, decide_false, Bool.false_or] at h1 ⊢
    omega

/-- Ids given up: the others stay held, and no record appears. -/
structure GivenUp (m : MachineState) (lost : Nat → Prop) (m' : MachineState) : Prop where
  state : m'.state = m.state
  apart : m'.Apart
  records : ∀ s p, m'.pending.get s = some p → m.pending.get s = some p
  holding : ∀ s, m.Holding s → m'.Holding s ∨ lost s

theorem GivenUp.refl {m : MachineState} (h : m.Apart) (lost : Nat → Prop) : GivenUp m lost m :=
  ⟨rfl, h, fun _ _ hp => hp, fun _ hs => .inl hs⟩

theorem GivenUp.trans {m m' m'' : MachineState} {lost lost' : Nat → Prop}
    (h : GivenUp m lost m') (h' : GivenUp m' lost' m'') :
    GivenUp m (fun s => lost s ∨ lost' s) m'' := by
  refine ⟨h'.state.trans h.state, h'.apart, fun s p hp => h.records s p (h'.records s p hp), ?_⟩
  intro s hs
  obtain hs' | hlost := h.holding s hs
  · exact (h'.holding s hs').imp id .inr
  · exact .inr (.inl hlost)

theorem GivenUp.mono {m m' : MachineState} {lost lost' : Nat → Prop} (h : GivenUp m lost m')
    (hle : ∀ s, lost s → lost' s) : GivenUp m lost' m' :=
  ⟨h.state, h.apart, h.records, fun s hs => (h.holding s hs).imp id (hle s)⟩

theorem abandon_apart {m : MachineState} (h : m.Apart) (sid : Nat) : (m.abandon sid).Apart := by
  unfold abandon
  split
  · rename_i hp
    have hnot := (h.of_pending hp).1
    rw [if_neg hnot]
    intro s
    have h1 := h s
    simp only [places, has_del, count_snoc] at h1 ⊢
    by_cases hs : s = sid
    · subst hs
      simp only [hp, ne_eq, not_true_eq_false, decide_false, Bool.false_and, Bool.toNat_true,
        Bool.toNat_false, if_true] at h1 ⊢
      omega
    · simp only [ne_eq, hs, not_false_eq_true, decide_true, Bool.true_and, if_false] at h1 ⊢
      omega
  · exact h

theorem abandon_holding {m : MachineState} {sid s : Nat} (h : m.Holding s) :
    (m.abandon sid).Holding s := by
  unfold abandon
  split
  · by_cases hs : s = sid
    · subst hs
      refine .inr (.inl ?_)
      simp only
      split
      · assumption
      · simp
    · obtain hp | hr | hl := h
      · exact .inl (by simp [has_del, hs, hp])
      · refine .inr (.inl ?_)
        simp only
        split
        · exact hr
        · exact List.mem_append_left _ hr
      · exact .inr (.inr hl)
  · exact h

theorem abandon_get {m : MachineState} {sid s : Nat} {p : Pending}
    (h : (m.abandon sid).pending.get s = some p) : m.pending.get s = some p := by
  unfold abandon at h
  split at h
  · simp only [Assoc.get_del] at h
    split at h
    · cases h
    · exact h
  · exact h

theorem abandon_state (m : MachineState) (sid : Nat) : (m.abandon sid).state = m.state := by
  unfold abandon
  split <;> rfl

theorem Taken.lease {m m' : MachineState} {sid : Nat} (h : Taken m sid m') :
    GivenUp m (fun _ => False) { m' with leased := m'.leased ++ [sid] } := by
  refine ⟨h.state, ?_, fun s p hp => h.pending ▸ hp, ?_⟩
  · intro s
    have h1 := h.places s
    simp only [MachineState.places, count_snoc] at h1 ⊢
    omega
  · intro s hs
    obtain hp | hr | hl := hs
    · exact .inl (.inl (by rw [← hp]; exact congrArg (·.has s) h.pending))
    · exact .inl (.inr (.inl (by rw [← h.retired] at hr; exact hr)))
    · exact .inl (.inr (.inr (List.mem_append_left _ (by rw [← h.leased] at hl; exact hl))))

theorem SameStreams.givenUp {m m' : MachineState} (h : SameStreams m m') (ha : m.Apart)
    (lost : Nat → Prop) : GivenUp m lost m' :=
  ⟨h.state, h.apart ha, fun _ _ hp => h.pending ▸ hp, fun _ hs => .inl (h.holding.mpr hs)⟩

theorem leaseLoop_givenUp : ∀ (count : Nat) (m : MachineState) (leased : List Nat), m.Apart →
    GivenUp m (fun _ => False) (leaseLoop count m leased).2 := by
  intro count
  induction count with
  | zero => intro m leased h; exact .refl h _
  | succ count ih =>
    intro m leased h
    unfold leaseLoop
    obtain ⟨sid, m₁, hacq, _⟩ | ⟨e, m₁, hacq, hsame⟩ := m.acquireSid_cases
    · rw [hacq]
      have hlease := (acquireSid_taken h hacq).lease
      exact (hlease.trans (ih _ _ hlease.apart)).mono fun _ hs => hs.elim id id
    · rw [hacq]
      exact hsame.givenUp h _

theorem leaseSids_givenUp {m : MachineState} (h : m.Apart) (count : Nat) :
    GivenUp m (fun _ => False) (m.leaseSids count).2 := by
  unfold leaseSids
  split
  · exact .refl h _
  · exact leaseLoop_givenUp count m [] h

theorem giveBack_givenUp {m : MachineState} (h : m.Apart) (owed : Nat → Bool) {sid : Nat}
    (hl : sid ∈ m.leased) : GivenUp m (fun s => s = sid ∧ owed s = false) (giveBack owed m sid) := by
  have hcount : ∀ s, (m.leased.filter (· ≠ sid)).count s + (if s = sid then 1 else 0) ≤
      m.leased.count s := by
    intro s
    by_cases hs : s = sid
    · subst hs
      have h2 : 0 < m.leased.count s := List.count_pos_iff.mpr hl
      have h3 : (m.leased.filter (· ≠ s)).count s = 0 := List.count_eq_zero.mpr (by simp)
      simp only [if_true]
      omega
    · have h3 : (m.leased.filter (· ≠ sid)).count s = m.leased.count s :=
        List.count_filter (by simpa using hs)
      simp only [hs, if_false]
      omega
  have hheld : ∀ s, s ≠ sid → m.Holding s →
      m.pending.has s = true ∨ s ∈ m.retired ∨ s ∈ m.leased.filter (· ≠ sid) := by
    intro s hs hh
    exact hh.imp id (Or.imp id fun hl => List.mem_filter.mpr ⟨hl, by simpa using hs⟩)
  have hnot : sid ∉ m.retired := by
    intro hr
    have h1 := h sid
    have h2 : 0 < m.retired.count sid := List.count_pos_iff.mpr hr
    have h3 : 0 < m.leased.count sid := List.count_pos_iff.mpr hl
    unfold places at h1
    omega
  unfold giveBack
  dsimp only
  split
  · refine ⟨rfl, ?_, fun _ _ hp => hp, ?_⟩
    · intro s
      have h1 := h s
      have h2 := hcount s
      simp only [places, count_snoc] at h1 ⊢
      omega
    · intro s hs
      by_cases heq : s = sid
      · exact .inl (.inr (.inl (by simp [heq])))
      · exact .inl ((hheld s heq hs).imp id (Or.imp (List.mem_append_left _) id))
  · rename_i how
    refine ⟨rfl, ?_, fun _ _ hp => hp, ?_⟩
    · intro s
      have h1 := h s
      have h2 := hcount s
      simp only [places, count_snoc] at h1 ⊢
      omega
    · intro s hs
      by_cases heq : s = sid
      · exact .inr ⟨heq, by simpa [heq] using how⟩
      · exact .inl (hheld s heq hs)

theorem giveBack_leased (m : MachineState) (owed : Nat → Bool) (sid : Nat) :
    (giveBack owed m sid).leased = m.leased.filter (· ≠ sid) := by
  unfold giveBack
  dsimp only
  split <;> rfl

/-- The loops of `release_sids` and `retire_sids`. -/
theorem giveBacks_givenUp (owed : Nat → Bool) : ∀ (sids : List Nat) (m : MachineState), m.Apart →
    sids.Nodup → (∀ s ∈ sids, s ∈ m.leased) →
    GivenUp m (fun s => s ∈ sids ∧ owed s = false) (sids.foldl (giveBack owed) m) := by
  intro sids
  induction sids with
  | nil => intro m h _ _; exact .refl h _
  | cons sid sids ih =>
    intro m h hnodup hleased
    obtain ⟨hnew, hnodup⟩ := List.nodup_cons.mp hnodup
    have hone := giveBack_givenUp h owed (hleased sid (by simp))
    have hmore := ih _ hone.apart hnodup (by
      intro s hs
      rw [giveBack_leased]
      refine List.mem_filter.mpr ⟨hleased s (List.mem_cons_of_mem _ hs), ?_⟩
      have hne : s ≠ sid := fun e => hnew (e ▸ hs)
      simpa using hne)
    refine (hone.trans hmore).mono fun s hs => ?_
    obtain ⟨rfl, ho⟩ | ⟨hmem, ho⟩ := hs
    · exact ⟨by simp, ho⟩
    · exact ⟨List.mem_cons_of_mem _ hmem, ho⟩

theorem release_givenUp {m : MachineState} (h : m.Apart) (sid : Nat) :
    GivenUp m (fun s => s = sid) (m.release sid) := by
  refine ⟨release_state m sid, release_apart h sid, fun s p hp => (release_get hp).1, ?_⟩
  intro s hs
  by_cases heq : s = sid
  · exact .inr heq
  · exact .inl ((release_holding heq).mpr hs)

/-- The loop of `forget_path`. -/
theorem releases_givenUp : ∀ (sids : List Nat) (m : MachineState), m.Apart →
    GivenUp m (fun s => s ∈ sids) (sids.foldl release m) := by
  intro sids
  induction sids with
  | nil => intro m h; exact .refl h _
  | cons sid sids ih =>
    intro m h
    have hone := release_givenUp h sid
    refine (hone.trans (ih _ hone.apart)).mono fun s hs => ?_
    obtain rfl | hmem := hs
    · simp
    · exact List.mem_cons_of_mem _ hmem

theorem abandon_givenUp {m : MachineState} (h : m.Apart) (sid : Nat) :
    GivenUp m (fun _ => False) (m.abandon sid) :=
  ⟨abandon_state m sid, abandon_apart h sid, fun _ _ hp => abandon_get hp,
    fun _ hs => .inl (abandon_holding hs)⟩

end MachineState

end XrdClient.Proto
