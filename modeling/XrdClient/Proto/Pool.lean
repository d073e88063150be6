/-
  Proto/Pool.lean --- the pool of stream ids.

  Source: `proto/machine.py`, `_acquire_sid` and everything that moves an id.

  An id is free, pending, leased or retired, and never two of these: that holds
  of every state a caller can bring about.  The counter is another matter.  It
  looks at one id only, and takes it for proof that every id is in use; that is
  right as long as every id it ever gave out is still in one of the four places
  (`Accounted`).  Two calls lose an id: a `submit` whose request cannot be framed
  has taken one by then, and the end of the control link forgets every pending
  stream without freeing its id.
-/
import XrdClient.Proto.World

set_option autoImplicit false

namespace XrdClient.Proto

open XrdClient.Lib

/-- The field is 16 bits wide. -/
def LAST_SID : Nat := 0xFFFF

namespace MachineState

/-! ## Ids given out so far -/

/-- The machine knows where the id is. -/
def Known (m : MachineState) (s : Nat) : Prop := m.Holding s ∨ s ∈ m.free

/-- What a counter has given out: every id, once it has been all the way round,
or else those below it. -/
def Covers (next : Nat) (known : Nat → Prop) : Prop :=
  (∀ s, FIRST_SID ≤ s → s ≤ LAST_SID → known s) ∨
    (∀ s, FIRST_SID ≤ s → s < next → known s) ∧ ∀ s, known s → s < next

theorem Covers.congr {next : Nat} {known known' : Nat → Prop} (h : Covers next known)
    (hiff : ∀ s, known' s ↔ known s) : Covers next known' := by
  have heq : known' = known := funext fun s => propext (hiff s)
  rw [heq]
  exact h

/-- An id the counter lands on and finds in use: all of them are. -/
theorem Covers.all_of_next {next : Nat} {known : Nat → Prop} (h : Covers next known)
    (hnext : known next) : ∀ s, FIRST_SID ≤ s → s ≤ LAST_SID → known s := by
  obtain hall | ⟨_, hbelow⟩ := h
  · exact hall
  · exact absurd (hbelow next hnext) (Nat.lt_irrefl _)

/-- The counter, one further. -/
def succSid (next : Nat) : Nat := if LAST_SID < next + 1 then FIRST_SID else next + 1

theorem succSid_range {next : Nat} (h : FIRST_SID ≤ next) :
    FIRST_SID ≤ succSid next ∧ succSid next ≤ LAST_SID := by
  unfold succSid
  split
  · decide
  · omega

/-- An id the counter lands on is given out. -/
theorem Covers.advance {next : Nat} {known : Nat → Prop} (h : Covers next known)
    (hlast : next ≤ LAST_SID) : Covers (succSid next) fun s => known s ∨ s = next := by
  obtain hall | ⟨hbelow, honly⟩ := h
  · exact .inl fun s hfirst hs => .inl (hall s hfirst hs)
  · have hupto : ∀ s, FIRST_SID ≤ s → s ≤ next → known s ∨ s = next := by
      intro s hfirst hs
      rcases Nat.lt_or_eq_of_le hs with hlt | heq
      · exact .inl (hbelow s hfirst hlt)
      · exact .inr heq
    by_cases hwrap : LAST_SID < next + 1
    · -- the first time round ends here
      exact .inl fun s hfirst hs => hupto s hfirst (by omega)
    · refine .inr ⟨?_, ?_⟩
      · intro s hfirst hs
        rw [succSid, if_neg hwrap] at hs
        exact hupto s hfirst (by omega)
      · intro s hs
        rw [succSid, if_neg hwrap]
        rcases hs with hs | rfl
        · have := honly s hs
          omega
        · omega

/-- Every id ever given out is in one of its four places. -/
def Accounted (m : MachineState) : Prop := Covers m.nextSid m.Known

/-- The places are apart, and hold nothing but stream ids. -/
structure Pooled (m : MachineState) : Prop where
  apart : m.Apart
  range : ∀ s, m.Known s → FIRST_SID ≤ s ∧ s ≤ LAST_SID
  counter : FIRST_SID ≤ m.nextSid ∧ m.nextSid ≤ LAST_SID

/-! ## Moving ids -/

/-- Ids move from place to place, and none appears. -/
structure Shuffled (m m' : MachineState) : Prop where
  counter : m'.nextSid = m.nextSid
  apart : m.Apart → m'.Apart
  known : ∀ s, m'.Known s → m.Known s

/-- Ids move from place to place, and none is lost. -/
structure Kept (m m' : MachineState) : Prop extends Shuffled m m' where
  still : ∀ s, m.Known s → m'.Known s

theorem Shuffled.pooled {m m' : MachineState} (h : Shuffled m m') (hm : m.Pooled) : m'.Pooled :=
  ⟨h.apart hm.apart, fun s hs => hm.range s (h.known s hs), by rw [h.counter]; exact hm.counter⟩

theorem Kept.accounted {m m' : MachineState} (h : Kept m m') (hm : m.Accounted) :
    m'.Accounted := by
  unfold Accounted
  rw [h.counter]
  exact hm.congr fun s => ⟨h.known s, h.still s⟩

theorem Shuffled.trans {m m' m'' : MachineState} (h : Shuffled m m') (h' : Shuffled m' m'') :
    Shuffled m m'' :=
  ⟨h'.counter.trans h.counter, fun ha => h'.apart (h.apart ha), fun s hs => h.known s (h'.known s hs)⟩

theorem Kept.trans {m m' m'' : MachineState} (h : Kept m m') (h' : Kept m' m'') : Kept m m'' :=
  ⟨h.toShuffled.trans h'.toShuffled, fun s hs => h'.still s (h.still s hs)⟩

theorem Kept.refl (m : MachineState) : Kept m m := ⟨⟨rfl, id, fun _ => id⟩, fun _ => id⟩

theorem SameStreams.known {m m' : MachineState} (h : SameStreams m m') (s : Nat) :
    m'.Known s ↔ m.Known s := by
  unfold Known
  rw [h.holding, h.free]

theorem SameStreams.kept {m m' : MachineState} (h : SameStreams m m')
    (hcounter : m'.nextSid = m.nextSid) : Kept m m' :=
  ⟨⟨hcounter, h.apart, fun s => (h.known s).mp⟩, fun s => (h.known s).mpr⟩

/-- A request's stream that is dropped gives its id back. -/
theorem release_kept {m : MachineState} (hm : m.Pooled) (sid : Nat) : Kept m (m.release sid) := by
  unfold release
  split
  · rename_i hp
    have hfirst : FIRST_SID ≤ sid := (hm.range sid (.inl (.inl hp))).1
    have hknown : ∀ s, { m with
        pending := m.pending.del sid
        free := if FIRST_SID ≤ sid then m.free ++ [sid] else m.free }.Known s ↔ m.Known s := by
      intro s
      by_cases hs : s = sid
      · subst hs
        simp [Known, Holding, hfirst, hp]
      · simp [Known, Holding, has_del, hfirst, hs]
    refine ⟨⟨rfl, fun ha => ?_, fun s => (hknown s).mp⟩, fun s => (hknown s).mpr⟩
    have := release_apart ha sid
    rwa [release, if_pos hp] at this
  · exact .refl m

theorem abandon_kept (m : MachineState) (sid : Nat) : Kept m (m.abandon sid) := by
  have hknown : ∀ s, (m.abandon sid).Known s ↔ m.Known s := by
    intro s
    unfold abandon
    split
    · rename_i hp
      by_cases hs : s = sid
      · subst hs
        by_cases hr : s ∈ m.retired <;> simp [Known, Holding, hp, hr]
      · by_cases hr : sid ∈ m.retired <;> simp [Known, Holding, has_del, hr, hs]
    · exact Iff.rfl
  refine ⟨⟨?_, fun ha => abandon_apart ha sid, fun s => (hknown s).mp⟩, fun s => (hknown s).mpr⟩
  unfold abandon
  split <;> rfl

theorem freed_kept {m : MachineState} {sid : Nat} (hr : sid ∈ m.retired) : Kept m (m.freed sid) := by
  have hknown : ∀ s, (m.freed sid).Known s ↔ m.Known s := by
    intro s
    by_cases hs : s = sid
    · subst hs
      simp [Known, Holding, freed, hr]
    · simp [Known, Holding, freed, hs]
  exact ⟨⟨rfl, fun ha => freed_apart ha hr, fun s => (hknown s).mp⟩, fun s => (hknown s).mpr⟩

theorem setPending_kept {m : MachineState} {sid : Nat} (p : Pending)
    (h : m.pending.has sid = true) : Kept m { m with pending := m.pending.set sid p } := by
  have hknown : ∀ s, { m with pending := m.pending.set sid p }.Known s ↔ m.Known s := fun s =>
    or_congr (setPending_holding p h s) Iff.rfl
  exact ⟨⟨rfl, setPending_apart p h, fun s => (hknown s).mp⟩, fun s => (hknown s).mpr⟩

theorem giveBack_kept {m : MachineState} (ha : m.Apart) (owed : Nat → Bool) {sid : Nat}
    (hl : sid ∈ m.leased) : Kept m (giveBack owed m sid) := by
  have hknown : ∀ s, (giveBack owed m sid).Known s ↔ m.Known s := by
    intro s
    unfold giveBack
    by_cases hs : s = sid
    · subst hs
      by_cases how : owed s = true
      · by_cases hr : s ∈ m.retired <;> simp [Known, Holding, how, hr, hl]
      · simp [Known, Holding, how, hl]
    · by_cases how : owed sid = true
      · by_cases hr : sid ∈ m.retired <;> simp [Known, Holding, how, hr, hs]
      · simp [Known, Holding, how, hs]
  refine ⟨⟨?_, fun _ => (giveBack_givenUp ha owed hl).apart, fun s => (hknown s).mp⟩,
    fun s => (hknown s).mpr⟩
  unfold giveBack
  dsimp only
  split <;> rfl

/-- The loops of `release_sids` and `retire_sids`, given ids that were leased, once each. -/
theorem giveBacks_kept (owed : Nat → Bool) : ∀ (sids : List Nat) (m : MachineState), m.Apart →
    sids.Nodup → (∀ s ∈ sids, s ∈ m.leased) → Kept m (sids.foldl (giveBack owed) m) := by
  intro sids
  induction sids with
  | nil => intro m _ _ _; exact .refl m
  | cons sid sids ih =>
    intro m ha hnodup hleased
    obtain ⟨hnew, hnodup⟩ := List.nodup_cons.mp hnodup
    have hone := giveBack_kept ha owed (hleased sid (by simp))
    refine hone.trans (ih _ (hone.apart ha) hnodup ?_)
    intro s hs
    rw [giveBack_leased]
    refine List.mem_filter.mpr ⟨hleased s (List.mem_cons_of_mem _ hs), ?_⟩
    have hne : s ≠ sid := fun e => hnew (e ▸ hs)
    simpa using hne

/-- The loop of `forget_path`. -/
theorem releases_kept : ∀ (sids : List Nat) (m : MachineState), m.Pooled →
    Kept m (sids.foldl release m) := by
  intro sids
  induction sids with
  | nil => intro m _; exact .refl m
  | cons sid sids ih =>
    intro m hm
    have hone := release_kept hm sid
    exact hone.trans (ih _ (hone.pooled hm))

/-! ## Replies -/

@[simp] theorem emit_nextSid (m : MachineState) (e : Event) : (m.emit e).nextSid = m.nextSid := rfl

@[simp] theorem release_nextSid (m : MachineState) (sid : Nat) :
    (m.release sid).nextSid = m.nextSid := by
  unfold release
  split <;> rfl

theorem withinCap_nextSid (m : MachineState) (sid : Nat) (p : Pending) (extra : Nat) :
    (m.withinCap sid p extra).2.nextSid = m.nextSid := by
  unfold withinCap
  split
  · rfl
  · simp

theorem onStatusData_nextSid (m : MachineState) (sid : Nat) (data : Bytes) :
    (m.onStatusData sid data).nextSid = m.nextSid := by
  unfold onStatusData
  split
  · rfl
  rename_i p _
  split
  · rfl
  have hcap := m.withinCap_nextSid sid p data.length
  split
  · next heq =>
    rw [heq] at hcap
    exact hcap
  · next heq =>
    rw [heq] at hcap
    split
    · simpa using hcap
    · exact hcap

theorem respond_nextSid (m : MachineState) (sid status : Nat) (block : Bytes) (p : Pending)
    (f : Framer) : (m.respond sid status block p f).1.nextSid = m.nextSid := by
  have hcap := m.withinCap_nextSid sid p block.length
  unfold respond
  split_ifs
  · unfold responseOk
    split
    · next heq =>
      rw [heq] at hcap
      exact hcap
    · next heq =>
      rw [heq] at hcap
      simpa using hcap
  · unfold responseChunk
    split
    · next heq =>
      rw [heq] at hcap
      exact hcap
    · next heq =>
      rw [heq] at hcap
      exact hcap
  · unfold responseError
    split
    · rfl
    · simp
  · unfold responseRedirect
    split <;> rfl
  · unfold responseWait
    split <;> rfl
  · unfold responseWaitresp
    split <;> rfl
  · unfold responseStatus
    split
    · rfl
    · dsimp only
      split
      · rfl
      · exact onStatusData_nextSid _ sid []
  · simp [responseUnexpected]

theorem retiredReply_nextSid (m : MachineState) (sid status : Nat) (block : Bytes) (f : Framer) :
    (m.retiredReply sid status block f).1.nextSid = m.nextSid := by
  unfold retiredReply
  dsimp only
  split
  · split
    · rfl
    · dsimp only
      split <;> rfl
  · split <;> rfl

/-- The table of ids. -/
def table (m : MachineState) : Assoc Nat Pending × List Nat × List Nat × List Nat × Nat :=
  (m.pending, m.retired, m.leased, m.free, m.nextSid)

theorem kept_of_table {m m' : MachineState} (h : m'.table = m.table) : Kept m m' := by
  simp only [table, Prod.mk.injEq] at h
  obtain ⟨hpending, hretired, hleased, hfree, hcounter⟩ := h
  have hknown : ∀ s, m'.Known s ↔ m.Known s := by
    intro s
    simp only [Known, Holding, hpending, hretired, hleased, hfree]
  refine ⟨⟨hcounter, ?_, fun s => (hknown s).mp⟩, fun s => (hknown s).mpr⟩
  intro ha s
  have := ha s
  simpa only [places, hpending, hretired, hleased, hfree] using this

theorem queueEncoded_table (m : MachineState) (request : Request) (sid : Nat) :
    (m.queueEncoded request sid).1.table = m.table := by
  unfold queueEncoded
  split <;> rfl

theorem beginLogin_table (m : MachineState) : m.beginLogin.1.table = m.table := by
  unfold beginLogin
  split
  · exact queueEncoded_table { m with state := .bind } _ _
  · exact queueEncoded_table { m with state := .login } _ _

theorem afterProtocol_table (m : MachineState) : m.afterProtocol.1.table = m.table := by
  unfold afterProtocol
  dsimp only
  split
  · split <;> rfl
  · exact m.beginLogin_table

theorem ladderSpent_table (m : MachineState) : m.ladderSpent.table = m.table := by
  unfold ladderSpent
  split <;> rfl

theorem climb_table : ∀ (fuel : Nat) (m : MachineState) (l : Auth.Ladder),
    (climb fuel m l).1.table = m.table := by
  intro fuel
  induction fuel with
  | zero => intro m l; exact m.ladderSpent_table
  | succ fuel ih =>
    intro m l
    unfold climb
    split
    · rfl
    · exact ladderSpent_table { m with credentials := some _, authRejected := _ }
    · rename_i cred ladder why _
      dsimp only
      split
      · rename_i text _
        exact ih { m with
          credentials := some ladder, authRejected := why.set cred.name (.raised text) } ladder
      · split
        · rfl
        · exact queueEncoded_table { m with
            credentials := some ladder, authRejected := why, credential := some cred
            mechanism := cred.name } _ _

theorem nextCredential_table (m : MachineState) (sec : Text) :
    (m.nextCredential sec).1.table = m.table := by
  unfold nextCredential
  split
  · exact climb_table _ m _
  · exact climb_table _ { m with credentials := some _, authRejected := _ } _

theorem authStep_table (m : MachineState) (challenge : Bytes) :
    (m.authStep challenge).1.table = m.table := by
  unfold authStep
  split
  · rfl
  · dsimp only
    split
    · exact nextCredential_table { m with credential := some _, authRejected := _ } []
    · exact nextCredential_table { m with credential := some _, authRejected := _ } []
    · split
      · rfl
      · exact queueEncoded_table { m with credential := some _ } _ _

/-- Bring-up uses ids of its own. -/
theorem bringup_table (m : MachineState) (status : Nat) (body : Bytes) :
    (m.bringup status body).1.table = m.table := by
  unfold bringup
  split
  · unfold bringupError
    split
    · rfl
    · split
      · exact nextCredential_table { m with
          authRejected := _, authRefusal := some _, credential := none } []
      · rfl
  split
  · rfl
  unfold bringupReply
  split
  · rfl
  · split
    · rfl
    · rename_i info _
      exact afterProtocol_table ({ m with protocolInfo := info }.emit (.negotiated info))
  · split
    · rfl
    · rfl
  · dsimp only
    split
    · rfl
    · exact nextCredential_table { m with sessionId := _, offered := _, state := .auth } _
  · split
    · exact m.authStep_table body
    · rfl

/-- One unit off the wire, in any state. -/
theorem deliver_nextSid (m : MachineState) (u : Decoded) :
    (deliver m u).1.nextSid = m.nextSid := by
  have hroute : ∀ sid status block f, (m.route sid status block f).1.nextSid = m.nextSid := by
    intro sid status block f
    unfold route
    split
    · exact congrArg (fun t => t.2.2.2.2) (m.bringup_table status block)
    split
    · exact m.respond_nextSid sid status block _ f
    split
    · exact m.retiredReply_nextSid sid status block f
    · rfl
  cases u with
  | trailer sid data => exact m.onStatusData_nextSid sid data
  | frame h body =>
    simp only [deliver, dispatch]
    split
    · split
      · rfl
      · rfl
      · exact hroute _ _ _ _
    · exact hroute _ _ _ _

theorem kept_of_outcome {m m' : MachineState} {u : Decoded} (h : Outcome m u m') (hm : m.Pooled)
    (hcounter : m'.nextSid = m.nextSid) : Kept m m' := by
  cases h with
  | kept streams => exact streams.kept hcounter
  | ended p found streams cause =>
    exact (release_kept hm u.stream).trans (streams.kept (by simpa using hcounter))
  | noted p p' found streams status =>
    exact (setPending_kept p' (Assoc.has_eq_true.mpr ⟨p, found⟩)).trans (streams.kept hcounter)
  | freed retired lost streams final => exact (freed_kept retired).trans (streams.kept hcounter)

/-- A unit off the wire moves ids, and loses none. -/
theorem deliver_kept {m : MachineState} (hm : m.Pooled) (u : Decoded) : Kept m (deliver m u).1 := by
  have hcounter := m.deliver_nextSid u
  by_cases hready : inBringup m.state = true
  · cases u with
    | trailer sid data =>
      -- data is handed on in any state, and finds its stream as it does later
      have hlike : (deliver m (.trailer sid data)).1 = m.onStatusData sid data := rfl
      rw [hlike] at hcounter ⊢
      cases hp : m.pending.get sid with
      | none =>
        rw [onStatusData, hp]
        exact .refl m
      | some p =>
        have hhas : m.pending.has sid = true := Assoc.has_eq_true.mpr ⟨p, hp⟩
        obtain ⟨_, heq⟩ | ⟨info, _, ⟨hended, _⟩ | ⟨_, hnoted⟩⟩ := onStatusData_cases data hp
        · rw [heq]
          exact .refl m
        · exact (release_kept hm sid).trans (hended.kept (by simpa using hcounter))
        · exact (setPending_kept _ hhas).trans (hnoted.kept hcounter)
    | frame h body =>
      have hroute : ∀ sid status block f, Kept m (m.route sid status block f).1 := by
        intro sid status block f
        rw [route, if_pos hready]
        exact kept_of_table (m.bringup_table status block)
      simp only [deliver, dispatch]
      split
      · split
        · exact .refl m
        · exact (emit_streams m _).kept rfl
        · exact hroute _ _ _ _
      · exact hroute _ _ _ _
  · exact kept_of_outcome (deliver_outcome m u (by simpa using hready)) hm hcounter

/-- What every unit preserves, a read preserves, whatever its bytes are. -/
theorem decode_invariant {I : MachineState → Prop} (hunit : ∀ m u, I m → I (deliver m u).1)
    {m : MachineState} (f : Framer) (data : Bytes) (h : I m) : I (decode m f data).2.machine := by
  have hbody : ∀ (c : Cursor) (hd : Header), I c.machine → I (c.takeBody hd).2.machine := by
    intro c hd hc
    have := hunit c.machine (.frame hd (c.framer.buffer.take hd.dlen)) hc
    simp only [Cursor.takeBody]
    rw [dispatch_eq]
    exact this
  have hturn : ∀ c c' out, Cursor.turn c = some (out, c') → I c.machine → I c'.machine := by
    intro c c' out hturn hc
    obtain ⟨_, ⟨_, _, heq⟩ | ⟨_, _, _, _, heq⟩ | ⟨hd, _, _, _, heq⟩⟩ := Cursor.turn_cases hturn
    · have hc' : c' = c.takeTrailer.2 := congrArg Prod.snd heq
      rw [hc']
      unfold Cursor.takeTrailer
      dsimp only
      split
      · exact hc
      · exact hunit c.machine (.trailer _ _) hc
    · rw [heq]
      unfold Cursor.readHeader
      split
      · exact hc
      · exact hc
    · have hc' : c' = (c.takeBody hd).2 := congrArg Prod.snd heq
      rw [hc']
      exact hbody c hd hc
  unfold decode
  cases hw : wholeFrame m f data with
  | none => exact decodeLoop.run_invariant (I := fun c => I c.machine) hturn h
  | some result =>
    obtain ⟨_, _, _, _, ⟨e, _, rfl⟩ | ⟨hd, c, _, _, hfirst, hsecond, _⟩⟩ := wholeFrame_cases hw
    · exact h
    · exact hturn c _ _ hsecond (hturn _ c _ hfirst h)

/-! ## Taking an id -/

/-- What `_acquire_sid` does to the pool: the id it returns is in range, was
held by nobody, and is the only one the machine does not know about any more. -/
structure Acquired (m : MachineState) (sid : Nat) (m' : MachineState) : Prop
    extends Taken m sid m' where
  range : FIRST_SID ≤ sid ∧ sid ≤ LAST_SID
  counter : FIRST_SID ≤ m'.nextSid ∧ m'.nextSid ≤ LAST_SID
  known : ∀ s, m'.Known s → m.Known s
  covers : m.Accounted → Covers m'.nextSid fun s => m'.Known s ∨ s = sid

theorem acquireSid_acquired {m m' : MachineState} {sid : Nat} (hm : m.Pooled)
    (h : m.acquireSid = (.ok sid, m')) : Acquired m sid m' := by
  have htaken := acquireSid_taken hm.apart h
  unfold acquireSid at h
  cases hf : m.free with
  | cons oldest free =>
    simp only [hf, Prod.mk.injEq, Except.ok.injEq] at h
    obtain ⟨rfl, rfl⟩ := h
    have hmem : m.Known oldest := .inr (by simp [hf])
    refine ⟨htaken, hm.range oldest hmem, hm.counter, ?_, fun hacc => hacc.congr ?_⟩
    · intro s hs
      exact hs.imp id fun hfree => by simp [hf, hfree]
    · intro s
      simp only [Known, Holding, hf, List.mem_cons]
      tauto
  | nil =>
    simp only [hf] at h
    split at h
    · cases (Prod.mk.inj h).1
    · simp only [Prod.mk.injEq, Except.ok.injEq] at h
      obtain ⟨rfl, rfl⟩ := h
      have hsucc := succSid_range hm.counter.1
      refine ⟨htaken, hm.counter, hsucc, fun s hs => ?_, fun hacc => ?_⟩
      · simpa [Known, Holding, hf] using hs
      · refine (hacc.advance hm.counter.2).congr fun s => ?_
        simp [Known, Holding, hf]

/-- An exhausted pool: the id the counter lands on is held. -/
theorem acquireSid_exhausted {m m' : MachineState} {e : Raised}
    (h : m.acquireSid = (.error e, m')) :
    m.free = [] ∧ m.Holding m.nextSid ∧ e = .protocol .exhausted ∧
      m' = { m with nextSid := succSid m.nextSid } := by
  unfold acquireSid at h
  cases hf : m.free with
  | cons oldest free => simp [hf] at h
  | nil =>
    simp only [hf] at h
    split at h
    · rename_i hheld
      simp only [Prod.mk.injEq, Except.error.injEq] at h
      obtain ⟨rfl, rfl⟩ := h
      refine ⟨rfl, ?_, rfl, rfl⟩
      obtain hp | hl | hr := hheld
      · exact .inl hp
      · exact .inr (.inr hl)
      · exact .inr (.inl hr)
    · cases (Prod.mk.inj h).1

/-- **Exhausted means that every id is in use**, while every id is accounted for. -/
theorem holding_of_exhausted {m m' : MachineState} {e : Raised} (hacc : m.Accounted)
    (h : m.acquireSid = (.error e, m')) :
    ∀ s, FIRST_SID ≤ s → s ≤ LAST_SID → m.Holding s := by
  obtain ⟨hfree, hheld, -, -⟩ := acquireSid_exhausted h
  intro s hfirst hlast
  obtain hs | hs := hacc.all_of_next (.inl hheld) s hfirst hlast
  · exact hs
  · rw [hfree] at hs
    cases hs

/-- A failed acquisition moves the counter on, and nothing else. -/
theorem exhausted_pooled {m m' : MachineState} {e : Raised} (hm : m.Pooled)
    (h : m.acquireSid = (.error e, m')) : m'.Pooled ∧ (m.Accounted → m'.Accounted) := by
  have hall := fun hacc => holding_of_exhausted hacc h
  obtain ⟨hfree, hheld, -, rfl⟩ := acquireSid_exhausted h
  refine ⟨⟨hm.apart, hm.range, succSid_range hm.counter.1⟩, fun hacc => .inl ?_⟩
  intro s hfirst hlast
  exact .inl (hall hacc s hfirst hlast)

/-- A place is found for an id that was taken. -/
theorem Acquired.placed {m m' m'' : MachineState} {sid : Nat} (h : Acquired m sid m')
    (hm : m.Pooled) (ha : m''.Apart) (hcounter : m''.nextSid = m'.nextSid)
    (hknown : ∀ s, m''.Known s ↔ m'.Known s ∨ s = sid) :
    m''.Pooled ∧ (m.Accounted → m''.Accounted) := by
  refine ⟨⟨ha, fun s hs => ?_, by rw [hcounter]; exact h.counter⟩, fun hacc => ?_⟩
  · rcases (hknown s).mp hs with hs | rfl
    · exact hm.range s (h.known s hs)
    · exact h.range
  · unfold Accounted
    rw [hcounter]
    exact (h.covers hacc).congr hknown

/-- An id that was taken and has found no place is lost. -/
theorem Acquired.pooled {m m' : MachineState} {sid : Nat} (h : Acquired m sid m') (hm : m.Pooled) :
    m'.Pooled :=
  ⟨h.toTaken.apart, fun s hs => hm.range s (h.known s hs), h.counter⟩

theorem leaseLoop_pooled : ∀ (count : Nat) (m : MachineState) (leased : List Nat), m.Pooled →
    (leaseLoop count m leased).2.Pooled ∧
      (m.Accounted → (leaseLoop count m leased).2.Accounted) := by
  intro count
  induction count with
  | zero => intro m leased hm; exact ⟨hm, id⟩
  | succ count ih =>
    intro m leased hm
    unfold leaseLoop
    split
    · next heq => exact exhausted_pooled hm heq
    · next sid m₁ heq =>
      have hacq := acquireSid_acquired hm heq
      have hplaced : { m₁ with leased := m₁.leased ++ [sid] }.Pooled ∧
          (m.Accounted → { m₁ with leased := m₁.leased ++ [sid] }.Accounted) := by
        refine hacq.placed hm hacq.toTaken.lease.apart rfl fun s => ?_
        simp only [Known, Holding, List.mem_append, List.mem_singleton]
        tauto
      obtain ⟨hpooled, hacc⟩ := ih _ (leased ++ [sid]) hplaced.1
      exact ⟨hpooled, fun h => hacc (hplaced.2 h)⟩

theorem frame_nextSid (m : MachineState) (request : Request) (sid : Nat) :
    (m.frame request sid).2.nextSid = m.nextSid := by
  unfold frame
  split
  · rfl
  split
  · rfl
  split
  · rfl
  · split <;> rfl

theorem send_nextSid (m : MachineState) (request : Request) (sid : Nat) (path : Text)
    (arriveOnPath : Bool) : (m.send request sid path arriveOnPath).1.nextSid = m.nextSid := by
  have hframe := m.frame_nextSid request sid
  unfold send
  split
  · next heq =>
    rw [heq] at hframe
    exact hframe
  · next heq =>
    rw [heq] at hframe
    dsimp only
    split_ifs <;> exact hframe

/-- `_send` raises only what `_frame` raises. -/
theorem send_raised {m : MachineState} {request : Request} {sid : Nat} {path : Text}
    {arriveOnPath : Bool} {e : Raised} (h : (m.send request sid path arriveOnPath).2 = some e) :
    (m.frame request sid).1 = .error e := by
  unfold send at h
  split at h
  · next heq =>
    rw [heq]
    exact congrArg Except.error (Option.some.inj h)
  · dsimp only at h
    split_ifs at h

/-- The pool plays no part in framing. -/
theorem acquireSid_frame {m m' : MachineState} {sid : Nat} (h : m.acquireSid = (.ok sid, m'))
    (request : Request) : (m'.frame request sid).1 = (m.frame request sid).1 := by
  have hsame : m'.signer = m.signer ∧ m'.env = m.env := by
    unfold acquireSid at h
    split at h
    · simp only [Prod.mk.injEq] at h
      rw [← h.2]
      exact ⟨rfl, rfl⟩
    · dsimp only at h
      split at h
      · cases (Prod.mk.inj h).1
      · simp only [Prod.mk.injEq] at h
        rw [← h.2]
        exact ⟨rfl, rfl⟩
  unfold frame
  rw [hsame.1, hsame.2]
  split
  · rfl
  split
  · rfl
  split
  · rfl
  · split <;> rfl

/-- The request cannot be framed: its parameters are not sixteen bytes, or it (or
its signature) is too large. -/
def Unframeable (m : MachineState) (request : Request) : Prop :=
  ∃ sid e, (m.frame request sid).1 = .error e

theorem submit_pooled {m : MachineState} (hm : m.Pooled) (request : Request) (path : Text)
    (arriveOnPath : Bool) :
    (m.submit request path arriveOnPath).2.Pooled ∧
      (¬ (m.state = .ready ∧ m.Unframeable request) → m.Accounted →
        (m.submit request path arriveOnPath).2.Accounted) := by
  unfold submit
  split
  · exact ⟨hm, fun _ => id⟩
  rename_i hready
  split
  · next heq =>
    obtain ⟨hpooled, hacc⟩ := exhausted_pooled hm heq
    exact ⟨hpooled, fun _ => hacc⟩
  · next sid m₁ heq =>
    have hacq := acquireSid_acquired hm heq
    have hcounter := m₁.send_nextSid request sid path arriveOnPath
    obtain ⟨e, hraised, hsame⟩ | ⟨hnone, p, _, hsame⟩ := m₁.send_cases request sid path arriveOnPath
    · -- the id is taken, and nothing is recorded on it
      have hframe := (acquireSid_frame heq request).symm.trans (send_raised hraised)
      have hlost := (hsame.kept hcounter).pooled (hacq.pooled hm)
      split
      · next hsend =>
        rw [hsend] at hlost
        exact ⟨hlost, fun hno => absurd ⟨by simpa using hready, sid, e, hframe⟩ hno⟩
      · next hsend =>
        rw [hsend] at hraised
        cases hraised
    · have hset : { m₁ with pending := m₁.pending.set sid p }.Pooled ∧
          (m.Accounted → { m₁ with pending := m₁.pending.set sid p }.Accounted) := by
        refine hacq.placed hm (hacq.toTaken.setPending_apart p) rfl fun s => ?_
        simp only [Known, Holding, has_set, Bool.or_eq_true, decide_eq_true_eq]
        tauto
      have hkept := hsame.kept hcounter
      have hdone := And.intro (hkept.pooled hset.1) fun hacc => hkept.accounted (hset.2 hacc)
      split
      · next hsend =>
        rw [hsend] at hnone
        cases hnone
      · next hsend =>
        rw [hsend] at hdone
        exact ⟨hdone.1, fun _ => hdone.2⟩

end MachineState

namespace SessionMachine

open MachineState (Pooled Accounted Kept Unframeable)

/-! ## Calls and runs -/

/-- A caller gives back ids that it holds, each of them once. -/
def Held (m : SessionMachine) : Op → Prop
  | .releaseSids sids => sids.Nodup ∧ ∀ s ∈ sids, s ∈ m.core.leased
  | .retireSids sids _ => sids.Nodup ∧ ∀ s ∈ sids, s ∈ m.core.leased
  | _ => True

/-- The calls that lose ids: a request that cannot be framed has taken one by then,
the end of the control link forgets what is pending, and so does a goodbye. -/
def Loses (m : SessionMachine) : Op → Prop
  | .submit request _ _ => m.core.state = .ready ∧ m.core.Unframeable request
  | .receiveData pathid data =>
      pathid = 0 ∧ data = [] ∧ m.core.state ≠ .closed ∧ m.core.state ≠ .failed ∧
        m.core.pending ≠ []
  | .close graceful => m.core.state = .ready ∧ graceful = true ∧ m.core.sessionId ≠ []
  | _ => False

/-- What a call has to leave of the pool. -/
def Leaves (m : SessionMachine) (op : Op) (core : MachineState) : Prop :=
  core.Pooled ∧ (¬ Loses m op → m.core.Accounted → core.Accounted)

theorem Leaves.of_kept {m : SessionMachine} {op : Op} {core : MachineState} (hm : m.core.Pooled)
    (h : Kept m.core core) : Leaves m op core :=
  ⟨h.pooled hm, fun _ => h.accounted⟩

theorem close_leaves {m : SessionMachine} (hm : m.core.Pooled) (graceful : Bool) :
    Leaves m (.close graceful) (m.core.close graceful).1 := by
  have htable : ∀ core core' : MachineState, core'.table = core.table → core.Pooled →
      core'.Pooled := fun core core' h hcore => (MachineState.kept_of_table h).pooled hcore
  unfold MachineState.close
  split
  · rename_i hready
    refine ⟨?_, fun hno => absurd hready hno⟩
    split
    · next heq => exact (MachineState.exhausted_pooled hm heq).1
    · next sid core heq =>
      have hcore := (MachineState.acquireSid_acquired hm heq).pooled hm
      have hqueue := MachineState.queueEncoded_table core (endSessionRequest core.sessionId) sid
      split
      · next hq =>
        rw [hq] at hqueue
        exact htable _ _ hqueue hcore
      · next hq =>
        rw [hq] at hqueue
        exact htable _ _ hqueue hcore
  · exact .of_kept hm (MachineState.kept_of_table rfl)

theorem onEof_leaves {m : SessionMachine} (hm : m.core.Pooled) :
    Leaves m (.receiveData 0 []) m.onEof.core := by
  unfold onEof
  split
  · exact .of_kept hm (.refl m.core)
  rename_i hup
  obtain ⟨hclosed, hfailed⟩ := not_or.mp hup
  have hforgot : MachineState.Shuffled m.core { m.core with
      state := .closed
      pending := []
      events := m.core.events ++
        m.core.pending.map (fun p => .failed (some p.1) (some p.2.request) .closedByPeer) ++
        [.disconnected .byPeer] } := by
    refine ⟨rfl, fun ha s => ?_, fun s hs => ?_⟩
    · have := ha s
      have hnone : Assoc.has ([] : Assoc Nat Pending) s = false := rfl
      simp only [MachineState.places, hnone, Bool.toNat_false] at this ⊢
      omega
    · have hnone : Assoc.has ([] : Assoc Nat Pending) s = false := rfl
      simp only [MachineState.Known, MachineState.Holding, hnone, Bool.false_eq_true,
        false_or] at hs ⊢
      tauto
  refine ⟨hforgot.pooled hm, fun hno hacc => ?_⟩
  have hnil : m.core.pending = [] := by
    by_contra hpending
    exact hno ⟨rfl, rfl, hclosed, hfailed, hpending⟩
  refine (MachineState.kept_of_table ?_).accounted hacc
  simp [MachineState.table, hnil]

theorem forgetPath_kept {m : SessionMachine} (hm : m.core.Pooled) (pathid : Nat) :
    Kept m.core (m.forgetPath pathid).core :=
  (MachineState.releases_kept (streamsOn m.core pathid) m.core hm).trans
    (MachineState.kept_of_table rfl)

theorem onPathEof_kept {m : SessionMachine} (hm : m.core.Pooled) (pathid : Nat) :
    Kept m.core (m.onPathEof pathid).core := by
  have hevents : ∀ es, Kept m.core { m.core with events := es } := fun es =>
    MachineState.kept_of_table rfl
  have hforget : ∀ es, Kept m.core
      (forgetPath { m with core := { m.core with events := es } } pathid).core := fun es =>
    (hevents es).trans (forgetPath_kept (m := { m with core := { m.core with events := es } })
      ((hevents es).pooled hm) pathid)
  have hreport : ∀ core : MachineState, Kept m.core core → Kept m.core (core.emit (.pathLost pathid)) :=
    fun core h => h.trans (MachineState.kept_of_table rfl)
  exact hreport _ (hforget _)

/-- **One call**: the places stay apart, and no id is lost but by a call that loses ids. -/
theorem step_leaves {m : SessionMachine} (hm : m.core.Pooled) (op : Op) (hheld : Held m op) :
    Leaves m op (m.step op).1.core := by
  have htable : ∀ core : MachineState, core.table = m.core.table → Leaves m op core :=
    fun core h => .of_kept hm (MachineState.kept_of_table h)
  cases op with
  | start =>
    refine htable _ ?_
    simp only [step, onCore, MachineState.start]
    split
    · rfl
    · have hqueue := MachineState.queueEncoded_table (m.core.queue [HANDSHAKE])
        (protocolRequest (kXR_secreqs ||| kXR_ableTLS |||
          (if m.core.wantTls then kXR_wantTLS else 0))) SID_PROTOCOL
      split
      · next heq =>
        rw [heq] at hqueue
        exact hqueue
      · next heq =>
        rw [heq] at hqueue
        exact hqueue
  | submit request path arriveOnPath => exact MachineState.submit_pooled hm request path arriveOnPath
  | resume sid =>
    refine htable _ ?_
    simp only [step, onCore, MachineState.resume]
    split
    · rfl
    · split <;> rfl
  | release sid => exact .of_kept hm (MachineState.release_kept hm sid)
  | abandon sid => exact .of_kept hm (MachineState.abandon_kept m.core sid)
  | close graceful => exact close_leaves hm graceful
  | tlsEstablished =>
    refine htable _ ?_
    simp only [step, onCore, MachineState.tlsEstablished]
    split
    · rfl
    · exact MachineState.beginLogin_table { m.core with tlsActive := true }
  | leaseSids count =>
    simp only [step, onCore, MachineState.leaseSids]
    split
    · exact htable _ rfl
    · obtain ⟨hpooled, hacc⟩ := MachineState.leaseLoop_pooled count m.core [] hm
      exact ⟨hpooled, fun _ => hacc⟩
  | releaseSids sids =>
    exact .of_kept hm (MachineState.giveBacks_kept _ sids m.core hm.apart hheld.1 hheld.2)
  | retireSids sids owed =>
    exact .of_kept hm (MachineState.giveBacks_kept _ sids m.core hm.apart hheld.1 hheld.2)
  | framePartsFor request sid =>
    refine .of_kept hm ((MachineState.framePartsFor_streams m.core request sid).kept ?_)
    simp only [MachineState.framePartsFor]
    split
    · exact m.core.frame_nextSid request sid
    · rfl
  | forgetPath pathid => exact .of_kept hm (forgetPath_kept hm pathid)
  | receiveData pathid data =>
    simp only [step, receiveData, receiveLog]
    by_cases hdata : data = []
    · subst hdata
      by_cases hpath : pathid = 0
      · subst hpath
        exact onEof_leaves (m := { m with framers := m.framers.set 0 (m.framer 0) }) hm
      · simp only [if_true, if_neg hpath]
        exact .of_kept hm (onPathEof_kept (m := { m with framers := _ }) hm pathid)
    · simp only [if_neg hdata]
      have hboth := MachineState.decode_invariant
        (I := fun core => core.Pooled ∧ (m.core.Accounted → core.Accounted))
        (fun core u h => ⟨(MachineState.deliver_kept h.1 u).pooled h.1,
          fun hacc => (MachineState.deliver_kept h.1 u).accounted (h.2 hacc)⟩)
        (m.framer pathid) data ⟨hm, id⟩
      exact ⟨hboth.1, fun _ => hboth.2⟩
  | buffersToSend => exact htable _ rfl
  | pathBuffersToSend pathid => exact htable _ rfl
  | nextEvent => exact htable _ rfl
  | drain => exact htable _ rfl

theorem run_pooled {m : SessionMachine} {ops : List Op} (h : EachCall Held m ops)
    (hm : m.core.Pooled) : (m.run ops).core.Pooled :=
  run_invariant (I := fun m => m.core.Pooled) (fun _ op hheld hm => (step_leaves hm op hheld).1) h hm

theorem run_accounted {m : SessionMachine} {ops : List Op} (h : EachCall Held m ops)
    (hno : EachCall (fun m op => ¬ Loses m op) m ops) (hm : m.core.Pooled)
    (hacc : m.core.Accounted) : (m.run ops).core.Accounted := by
  induction ops generalizing m with
  | nil => exact hacc
  | cons op ops ih =>
    obtain ⟨hpooled, hleft⟩ := step_leaves hm op h.1
    exact ih h.2 hno.2 hpooled (hleft hno.1 hacc)

/-! ## The pool in every reachable state -/

/-- A machine as it is made, for a control connection or for a data path. -/
def made (env : Env) (host : Text) (port : Nat) (config : Auth.Config) (username : Text)
    (wantTls : Bool) (bindTo : Bytes) : SessionMachine :=
  .of { MachineState.new env host port config username wantTls with bindTo := bindTo }

theorem made_pooled (env : Env) (host : Text) (port : Nat) (config : Auth.Config) (username : Text)
    (wantTls : Bool) (bindTo : Bytes) :
    (made env host port config username wantTls bindTo).core.Pooled ∧
      (made env host port config username wantTls bindTo).core.Accounted := by
  have hnone : ∀ s, ¬ (made env host port config username wantTls bindTo).core.Known s := by
    intro s hs
    simp [made, of, MachineState.new, MachineState.Known, MachineState.Holding, Assoc.has] at hs
  refine ⟨⟨fun s => ?_, fun s hs => absurd hs (hnone s), ⟨Nat.le_refl 4, show 4 ≤ LAST_SID by decide⟩⟩, .inr ⟨fun s hfirst hs => ?_,
    fun s hs => absurd hs (hnone s)⟩⟩
  · simp [made, of, MachineState.new, MachineState.places, Assoc.has]
  · have : s < 4 := hs
    have : 4 ≤ s := hfirst
    omega

/-- What a pool of stream ids promises. -/
structure StreamIds (m : MachineState) : Prop where
  free_nodup : m.free.Nodup
  free_apart : ∀ s ∈ m.free, m.pending.has s = false ∧ s ∉ m.leased ∧ s ∉ m.retired
  pending_apart : ∀ s, m.pending.has s = true → s ∉ m.leased ∧ s ∉ m.retired
  leased_apart : ∀ s ∈ m.leased, s ∉ m.retired
  range : ∀ s, (s ∈ m.free ∨ m.pending.has s = true ∨ s ∈ m.leased ∨ s ∈ m.retired) →
    FIRST_SID ≤ s ∧ s ≤ LAST_SID
  acquired : ∀ sid m', m.acquireSid = (.ok sid, m') →
    m.pending.has sid = false ∧ sid ∉ m.leased ∧ sid ∉ m.retired

/-- `_acquire_sid` raises only when every id is pending, leased or retired. -/
def FullWhenExhausted (m : MachineState) : Prop :=
  ∀ e m', m.acquireSid = (.error e, m') → ∀ s, FIRST_SID ≤ s → s ≤ LAST_SID →
    m.pending.has s = true ∨ s ∈ m.leased ∨ s ∈ m.retired

theorem not_holding_iff (m : MachineState) (s : Nat) :
    ¬ m.Holding s ↔ m.pending.has s = false ∧ s ∉ m.leased ∧ s ∉ m.retired := by
  simp only [MachineState.Holding, not_or, Bool.not_eq_true]
  tauto

theorem streamIds_of_pooled {m : MachineState} (h : m.Pooled) : StreamIds m := by
  have hplaces := h.apart
  refine ⟨?_, ?_, ?_, ?_, ?_, ?_⟩
  · refine List.nodup_iff_count.mpr fun s => ?_
    have := hplaces s
    unfold MachineState.places at this
    omega
  · intro s hs
    exact (not_holding_iff m s).mp (h.apart.not_holding hs)
  · intro s hs
    obtain ⟨hretired, hleased, -⟩ := h.apart.of_pending hs
    exact ⟨hleased, hretired⟩
  · intro s hl hr
    have h1 := hplaces s
    have h2 : 0 < m.leased.count s := List.count_pos_iff.mpr hl
    have h3 : 0 < m.retired.count s := List.count_pos_iff.mpr hr
    unfold MachineState.places at h1
    omega
  · intro s hs
    refine h.range s ?_
    simp only [MachineState.Known, MachineState.Holding]
    tauto
  · intro sid m' hacq
    exact (not_holding_iff m sid).mp (MachineState.acquireSid_acquired h hacq).fresh

/-- **The pool of stream ids.**  After any calls on a new machine, by a caller that
gives back only ids it holds, the free list has no duplicates, the four places
are apart and hold ids in range only, and an id that is taken was in none of the
other three.  If no call has lost an id, `_acquire_sid` moreover raises only when
all the ids are in use. -/
theorem stream_ids_pooled (env : Env) (host : Text) (port : Nat) (config : Auth.Config)
    (username : Text) (wantTls : Bool) (bindTo : Bytes) (ops : List Op)
    (hheld : EachCall Held (made env host port config username wantTls bindTo) ops) :
    StreamIds ((made env host port config username wantTls bindTo).run ops).core ∧
      (EachCall (fun m op => ¬ Loses m op) (made env host port config username wantTls bindTo) ops →
        FullWhenExhausted ((made env host port config username wantTls bindTo).run ops).core) := by
  obtain ⟨hpooled, hacc⟩ := made_pooled env host port config username wantTls bindTo
  refine ⟨streamIds_of_pooled (run_pooled hheld hpooled), fun hno e m' hraised s hfirst hlast => ?_⟩
  have hholding := MachineState.holding_of_exhausted (run_accounted hheld hno hpooled hacc) hraised
  obtain hp | hr | hl := hholding s hfirst hlast
  · exact .inl hp
  · exact .inr (.inr hr)
  · exact .inr (.inl hl)

/-! ## Runs -/

theorem eachCall_of_forall {P : SessionMachine → Op → Prop} {ops : List Op}
    (h : ∀ op ∈ ops, ∀ m, P m op) (m : SessionMachine) : EachCall P m ops := by
  induction ops generalizing m with
  | nil => trivial
  | cons op ops ih => exact ⟨h op (by simp) m, ih (fun o ho => h o (by simp [ho])) _⟩

/-- A request with a payload of so many bytes. -/
def ofSize (size : Nat) : Request :=
  { opcode := kXR_login, params := List.replicate 16 0, payload := List.replicate size 0 }

theorem frame_tooLarge {size : Nat} (h : MAX_FRAME_PAYLOAD < size) (m : MachineState) (sid : Nat) :
    m.frame (ofSize size) sid = (.error (.protocol (.payloadTooLarge size)), m) := by
  have hencode : encodeParts (ofSize size) sid = .error (.protocol (.payloadTooLarge size)) := by
    simp [encodeParts, ofSize, h]
  rw [MachineState.frame, hencode]

/-- With nothing to reuse, the counter's id is given out if nobody holds it. -/
theorem acquireSid_counter {m : MachineState} (hfree : m.free = [])
    (hnot : ¬ m.Holding m.nextSid) :
    m.acquireSid = (.ok m.nextSid, { m with nextSid := MachineState.succSid m.nextSid }) := by
  obtain ⟨hp, hl, hr⟩ := (not_holding_iff m m.nextSid).mp hnot
  unfold MachineState.acquireSid
  simp only [hfree, hp, hl, hr, Bool.false_eq_true, or_self, if_false]
  rfl

/-- The counter gives out the ids it comes to, one after the other. -/
theorem leaseLoop_counter : ∀ (count : Nat) (m : MachineState) (leased : List Nat), m.free = [] →
    (∀ s, m.Holding s → s < m.nextSid) → m.nextSid + count ≤ LAST_SID →
    (MachineState.leaseLoop count m leased).2
      = { m with leased := m.leased ++ List.range' m.nextSid count
                 nextSid := m.nextSid + count } := by
  intro count
  induction count with
  | zero => intro m leased _ _ _; simp [MachineState.leaseLoop]
  | succ count ih =>
    intro m leased hfree hbelow hlast
    have hacq := acquireSid_counter hfree fun h => Nat.lt_irrefl _ (hbelow _ h)
    have hsucc : MachineState.succSid m.nextSid = m.nextSid + 1 := if_neg (by omega)
    rw [hsucc] at hacq
    simp only [MachineState.leaseLoop, hacq]
    rw [ih { m with leased := m.leased ++ [m.nextSid], nextSid := m.nextSid + 1 } _ hfree ?_ ?_]
    · simp [List.range'_succ, Nat.add_assoc, Nat.add_comm 1 count]
    · intro s hs
      rcases hs with hp | hr | hl
      · exact Nat.lt_succ_of_lt (hbelow s (.inl hp))
      · exact Nat.lt_succ_of_lt (hbelow s (.inr (.inl hr)))
      · rcases List.mem_append.mp hl with hl | hl
        · exact Nat.lt_succ_of_lt (hbelow s (.inr (.inr hl)))
        · rw [List.mem_singleton.mp hl]
          exact Nat.lt_succ_self _
    · show m.nextSid + 1 + count ≤ LAST_SID
      omega

/-- One id is leased, a request that cannot be framed takes the next and loses it,
and the rest are leased too. -/
def losing : List Op :=
  bringUp ++ [.leaseSids 1, .submit (ofSize (MAX_FRAME_PAYLOAD + 1)) [] false, .leaseSids 65529, .leaseSids 1]

/-- A machine that is ready, with these ids leased and no others in use. -/
def Leasing (m : MachineState) (leased : List Nat) (next : Nat) : Prop :=
  m.state = .ready ∧ m.table = ([], [], leased, [], next)

theorem Leasing.holding_iff {m : MachineState} {leased : List Nat} {next : Nat}
    (h : Leasing m leased next) (s : Nat) : m.Holding s ↔ s ∈ leased := by
  obtain ⟨-, htable⟩ := h
  simp only [MachineState.table, Prod.mk.injEq] at htable
  obtain ⟨hpending, hretired, hleased, -, -⟩ := htable
  simp [MachineState.Holding, hpending, hretired, hleased, Assoc.has]

theorem Leasing.lease {m : SessionMachine} {leased : List Nat} {next : Nat} (count : Nat)
    (h : Leasing m.core leased next) (hcount : ¬ count < 1) (hbelow : ∀ s ∈ leased, s < next)
    (hlast : next + count ≤ LAST_SID) :
    Leasing (m.step (.leaseSids count)).1.core (leased ++ List.range' next count)
      (next + count) := by
  have hheld := h.holding_iff
  obtain ⟨hready, htable⟩ := h
  simp only [MachineState.table, Prod.mk.injEq] at htable
  obtain ⟨hpending, hretired, hleased, hfree, hnext⟩ := htable
  have hloop := leaseLoop_counter count m.core [] hfree
    (fun s hs => by rw [hnext]; exact hbelow s ((hheld s).mp hs)) (by rw [hnext]; exact hlast)
  have hcore : (m.step (.leaseSids count)).1.core
      = (MachineState.leaseLoop count m.core []).2 := by
    simp only [step, onCore, MachineState.leaseSids, hcount, if_false]
  rw [hcore, hloop, Leasing, MachineState.table]
  simp only [hready, hpending, hretired, hleased, hfree, hnext, true_and]

theorem Leasing.lose {m : SessionMachine} {leased : List Nat} {next : Nat}
    (h : Leasing m.core leased next) (hnot : next ∉ leased) (hlast : next + 1 ≤ LAST_SID)
    (size : Nat) (hsize : MAX_FRAME_PAYLOAD < size) :
    Leasing (m.step (.submit (ofSize size) [] false)).1.core leased (next + 1) := by
  have hheld := h.holding_iff
  obtain ⟨hready, htable⟩ := h
  simp only [MachineState.table, Prod.mk.injEq] at htable
  obtain ⟨hpending, hretired, hleased, hfree, hnext⟩ := htable
  have hacq := acquireSid_counter hfree (by rw [hnext, hheld]; exact hnot)
  have hcore : (m.step (.submit (ofSize size) [] false)).1.core
      = { m.core with nextSid := MachineState.succSid m.core.nextSid } := by
    have hsubmit : (m.core.submit (ofSize size) [] false).2
        = { m.core with nextSid := MachineState.succSid m.core.nextSid } := by
      simp only [MachineState.submit, hready, ne_eq, not_true_eq_false, if_false, hacq,
        MachineState.send, frame_tooLarge hsize]
    exact hsubmit
  have hsucc : MachineState.succSid m.core.nextSid = next + 1 := by
    rw [hnext]
    exact if_neg (by omega)
  rw [hcore, Leasing, MachineState.table]
  simp only [hready, hpending, hretired, hleased, hfree, hsucc, true_and]

/-- The last id of the range, and the counter begins again. -/
theorem Leasing.wrap {m : SessionMachine} {leased : List Nat}
    (h : Leasing m.core leased LAST_SID) (hnot : LAST_SID ∉ leased) :
    Leasing (m.step (.leaseSids 1)).1.core (leased ++ [LAST_SID]) FIRST_SID := by
  have hheld := h.holding_iff
  obtain ⟨hready, htable⟩ := h
  simp only [MachineState.table, Prod.mk.injEq] at htable
  obtain ⟨hpending, hretired, hleased, hfree, hnext⟩ := htable
  have hacq := acquireSid_counter hfree (by rw [hnext, hheld]; exact hnot)
  have hcore : (m.step (.leaseSids 1)).1.core
      = { m.core with leased := m.core.leased ++ [m.core.nextSid]
                      nextSid := MachineState.succSid m.core.nextSid } := by
    have hlease : (m.core.leaseSids 1).2
        = { m.core with leased := m.core.leased ++ [m.core.nextSid]
                        nextSid := MachineState.succSid m.core.nextSid } := by
      simp only [MachineState.leaseSids, Nat.lt_irrefl, if_false, MachineState.leaseLoop, hacq]
    exact hlease
  have hsucc : MachineState.succSid LAST_SID = FIRST_SID := rfl
  rw [hcore, Leasing, MachineState.table]
  simp only [hready, hpending, hretired, hleased, hfree, hnext, hsucc, true_and]

theorem Leasing.exhausted {m : MachineState} {leased : List Nat} {next : Nat}
    (h : Leasing m leased next) (hheld : next ∈ leased) :
    ∃ m', m.acquireSid = (.error (.protocol .exhausted), m') := by
  obtain ⟨-, htable⟩ := h
  simp only [MachineState.table, Prod.mk.injEq] at htable
  obtain ⟨-, -, hleased, hfree, hnext⟩ := htable
  unfold MachineState.acquireSid
  simp only [hfree, hleased, hnext, hheld, true_or, or_true, if_true]
  exact ⟨_, rfl⟩

theorem losing_leasing {m : SessionMachine} (h : Leasing m.core [] 4) :
    Leasing (m.run [.leaseSids 1, .submit (ofSize (MAX_FRAME_PAYLOAD + 1)) [] false,
      .leaseSids 65529, .leaseSids 1]).core ([4] ++ List.range' 6 65529 ++ [LAST_SID]) FIRST_SID := by
  simp only [run_cons, run_nil]
  have h₁ : Leasing _ [4] 5 := h.lease 1 (by decide) (by simp) (by decide)
  have h₂ : Leasing _ [4] 6 := h₁.lose (by decide) (by decide) (MAX_FRAME_PAYLOAD + 1)
    (Nat.lt_succ_self _)
  have h₃ : Leasing _ ([4] ++ List.range' 6 65529) LAST_SID :=
    h₂.lease 65529 (by decide) (by decide) (by decide)
  refine h₃.wrap fun hmem => ?_
  rcases List.mem_append.mp hmem with hmem | hmem
  · simp [LAST_SID] at hmem
  · exact absurd (List.mem_range'_1.mp hmem).2 (by decide)

/-- The counter has come round to an id that is leased, and calls all of them
taken.  The next one is not. -/
theorem exhausted_with_an_id_to_spare :
    EachCall Held newMachine losing ∧
      ¬ FullWhenExhausted (newMachine.run losing).core := by
  constructor
  · refine eachCall_of_forall (fun op hop m => ?_) _
    simp only [losing, bringUp, bringUpReplies, List.map_cons, List.map_nil, List.cons_append,
      List.nil_append, List.mem_cons, List.not_mem_nil, or_false] at hop
    rcases hop with rfl | rfl | rfl | rfl | rfl | rfl | rfl | rfl <;> exact trivial
  · intro hfull
    have hready : Leasing (newMachine.run bringUp).core [] 4 := ⟨by decide, by decide⟩
    have hleasing : Leasing (newMachine.run losing).core
        ([4] ++ List.range' 6 65529 ++ [LAST_SID]) FIRST_SID := by
      have hrun : newMachine.run losing = ((newMachine.run bringUp).run
          [.leaseSids 1, .submit (ofSize (MAX_FRAME_PAYLOAD + 1)) [] false, .leaseSids 65529,
            .leaseSids 1]) := by
        simp only [run, losing, List.foldl_append]
      rw [hrun]
      exact losing_leasing hready
    obtain ⟨m', hraised⟩ := hleasing.exhausted (by simp [FIRST_SID])
    have hspare := hfull _ m' hraised 5 (by decide) (by decide)
    have hfive : 5 ∉ [4] ++ List.range' 6 65529 ++ [LAST_SID] := by
      simp only [List.mem_append, List.mem_range'_1, List.mem_singleton]
      decide
    obtain ⟨hp, hl, hr⟩ := (not_holding_iff _ 5).mp fun h => hfive ((hleasing.holding_iff 5).mp h)
    exact hspare.elim (fun h => Bool.noConfusion (h.symm.trans hp)) fun h => h.elim hl hr

/-- Two ids are leased, and one of them is given back. -/
def lending : List Op := bringUp ++ [.leaseSids 2, .releaseSids [4]]

/-- The pool after that: one id is free again, and one is still leased. -/
theorem stream_ids_pooled_after_lease :
    StreamIds (newMachine.run lending).core ∧ FullWhenExhausted (newMachine.run lending).core ∧
      (newMachine.run lending).core.free = [4] ∧ (newMachine.run lending).core.leased = [5] := by
  have hmade : newMachine =
    made MachineState.bareEnv "server".toList 1094 {} "user".toList false [] := rfl
  have hheld : EachCall Held newMachine lending :=
    ⟨trivial, trivial, trivial, trivial, trivial, ⟨by decide, by decide⟩, trivial⟩
  have hloses : EachCall (fun m op => ¬ Loses m op) newMachine lending :=
    ⟨id, fun h => absurd h.2.1 (by decide), fun h => absurd h.2.1 (by decide),
      fun h => absurd h.2.1 (by decide), id, id, trivial⟩
  rw [hmade] at hheld hloses
  have hids := stream_ids_pooled MachineState.bareEnv "server".toList 1094 {} "user".toList false []
    lending hheld
  have hfull := hids.2 hloses
  rw [← hmade] at hids hfull
  exact ⟨hids.1, hfull, by decide, by decide⟩

end SessionMachine

end XrdClient.Proto
