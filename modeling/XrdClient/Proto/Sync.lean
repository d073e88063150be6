/-
  Proto/Sync.lean --- whole streams, cut into reads any way at all.

  A driver hands over whatever a socket gave it.  Two results: on which streams
  the decoder stays in step with the frames, and that on those it does not
  matter where the reads were cut, on one link or on several interleaved.
-/
import XrdClient.Proto.Framing

set_option autoImplicit false

namespace XrdClient.Proto

open XrdClient.Lib
open MachineState (owes expecting)

/-! ## Reads, one after another -/

/-- A `receive_data` for each read.  `link` names the data path a read came off;
an exception is noted and the next read is made all the same. -/
def receiveReads (m : SessionMachine) :
    List (Nat × Bytes) → List (Nat × Decoded) × SessionMachine × List Raised
  | [] => ([], m, [])
  | (link, data) :: reads =>
      let (log, m', raised) := m.receiveLog link data
      let (log', m'', raised') := receiveReads m' reads
      (log.map (link, ·) ++ log', m'', raised.toList ++ raised')

/-- The reads of one link. -/
def readsOn {α : Type} (link : Nat) (reads : List (Nat × α)) : List α :=
  (reads.filter (·.1 = link)).map Prod.snd

/-- All reads on one link. -/
def readsOf (link : Nat) (chunks : List Bytes) : List (Nat × Bytes) := chunks.map (link, ·)

theorem readsOf_cons (link : Nat) (d : Bytes) (ds : List Bytes) :
    readsOf link (d :: ds) = (link, d) :: readsOf link ds := rfl

section Reads

variable {α : Type} {link : Nat}

@[simp] theorem readsOn_nil : readsOn link ([] : List (Nat × α)) = [] := rfl

@[simp] theorem readsOn_append (xs ys : List (Nat × α)) :
    readsOn link (xs ++ ys) = readsOn link xs ++ readsOn link ys := by
  simp [readsOn]

@[simp] theorem readsOn_map_self (xs : List α) : readsOn link (xs.map (link, ·)) = xs := by
  simp [readsOn, List.filter_map, Function.comp_def]

theorem readsOn_map_of_ne {other : Nat} (h : other ≠ link) (xs : List α) :
    readsOn link (xs.map (other, ·)) = [] := by
  simp [readsOn, List.filter_map, Function.comp_def, h]

theorem readsOn_cons_self (x : α) (xs : List (Nat × α)) :
    readsOn link ((link, x) :: xs) = x :: readsOn link xs := by
  simp [readsOn]

theorem readsOn_cons_of_ne {other : Nat} (h : other ≠ link) (x : α) (xs : List (Nat × α)) :
    readsOn link ((other, x) :: xs) = readsOn link xs := by
  simp [readsOn, h]

end Reads

theorem receiveReads_cons (m : SessionMachine) (link : Nat) (data : Bytes)
    (reads : List (Nat × Bytes)) :
    receiveReads m ((link, data) :: reads) =
      (((m.receiveLog link data).1.map (link, ·)) ++
          (receiveReads (m.receiveLog link data).2.1 reads).1,
        (receiveReads (m.receiveLog link data).2.1 reads).2.1,
        (m.receiveLog link data).2.2.toList ++
          (receiveReads (m.receiveLog link data).2.1 reads).2.2) := rfl

theorem receiveReads_append (m : SessionMachine) (xs ys : List (Nat × Bytes)) :
    receiveReads m (xs ++ ys) =
      ((receiveReads m xs).1 ++ (receiveReads (receiveReads m xs).2.1 ys).1,
        (receiveReads (receiveReads m xs).2.1 ys).2.1,
        (receiveReads m xs).2.2 ++ (receiveReads (receiveReads m xs).2.1 ys).2.2) := by
  induction xs generalizing m with
  | nil => simp [receiveReads]
  | cons x xs ih =>
    obtain ⟨link, data⟩ := x
    rw [List.cons_append, receiveReads_cons, receiveReads_cons, ih]
    simp [List.append_assoc]

/-! ## One read of an aligned link -/

/-- A read that found its link at `left` and left it at `left'`. -/
structure Received (m : SessionMachine) (link : Nat) (data rest : Bytes) (left : Left)
    (result : List Decoded × SessionMachine × Option Raised) (left' : Left) : Prop where
  held : (result.2.1.framer link).held + wireLength result.1 =
    (m.framer link).held + data.length
  units : left.units = result.1 ++ left'.units
  aligned : Aligned (result.2.1.framer link) left' rest
  core : result.2.1.core = replay m.core result.1
  framers : ∃ f, result.2.1.framers = m.framers.set link f
  stopped : Stopped m.core result.1 result.2.2
  /-- Short of an exception, the read takes all that is there. -/
  next : result.2.2 = none → ∀ u us, left'.units = u :: us →
    (result.2.1.framer link).held < u.wire.length
  done : result.2.2 = none → rest = [] → left' = .frames []

theorem Received.framer_of_ne {m : SessionMachine} {link : Nat} {data rest : Bytes}
    {left left' : Left} {result : List Decoded × SessionMachine × Option Raised}
    (h : Received m link data rest left result left') {other : Nat} (hne : other ≠ link) :
    result.2.1.framer other = m.framer other := by
  obtain ⟨f, hf⟩ := h.framers
  simp only [SessionMachine.framer, hf, Assoc.get_set_of_ne _ _ hne]

/-- Units that are all accepted raise nothing. -/
theorem Received.not_raised {m : SessionMachine} {link : Nat} {data rest : Bytes}
    {left left' : Left} {result : List Decoded × SessionMachine × Option Raised}
    (h : Received m link data rest left result left') (hacc : Each Accepted m.core result.1) :
    result.2.2 = none := by
  have hstopped := h.stopped
  cases hr : result.2.2 with
  | none => rfl
  | some e =>
    rw [hr] at hstopped
    obtain ⟨us, u, hlog, _, hraised⟩ := hstopped
    rw [hlog, each_append] at hacc
    have hnone : (deliver (replay m.core us) u).2 = none := hacc.2.1
    rw [hnone] at hraised
    cases hraised

theorem receiveLog_received (m : SessionMachine) (link : Nat) {left : Left} {data rest : Bytes}
    (hdata : data ≠ []) (ha : Aligned (m.framer link) left (data ++ rest))
    (hk : Each Expected m.core (m.receiveLog link data).1) :
    ∃ left', Received m link data rest left (m.receiveLog link data) left' := by
  have hlog : m.receiveLog link data =
      ((decode m.core (m.framer link) data).1,
        ⟨(decode m.core (m.framer link) data).2.machine,
          m.framers.set link (decode m.core (m.framer link) data).2.framer⟩,
        (decode m.core (m.framer link) data).2.raised) := by
    simp [SessionMachine.receiveLog, hdata]
  rw [hlog] at hk
  obtain ⟨left', hadv⟩ := decode_advanced m.core ha hk
  have hframer : (m.receiveLog link data).2.1.framer link =
      (decode m.core (m.framer link) data).2.framer := by
    simp [hlog, SessionMachine.framer]
  have hstop : (decode m.core (m.framer link) data).2.turn = none := by
    rw [decode_eq_parse m.core ha]
    exact decodeLoop.turn_run _
  refine ⟨left', ?_, ?_, ?_, ?_, ?_, ?_, ?_, ?_⟩
  · rw [hframer, hlog, hadv.held]
    simp only [Framer.held, Cursor.feed, List.length_append]
    omega
  · rw [hlog]
    exact hadv.units
  · rw [hframer]
    exact hadv.aligned
  · rw [hlog]
    exact hadv.machine
  · exact ⟨_, by rw [hlog]⟩
  · rw [hlog]
    exact hadv.stopped
  · rw [hframer, hlog]
    intro hr u us hu
    exact held_lt_of_turn hadv.aligned hr hstop hu
  · rw [hlog]
    intro hr hrest
    subst hrest
    exact turn_of_left hadv.aligned hr hstop

theorem receiveLog_expected (m : SessionMachine) (link : Nat) {left : Left} {data rest : Bytes}
    (ha : Aligned (m.framer link) left (data ++ rest))
    (hk : Foreseen Expected m.core left.units (m.receiveLog link data).1
      ((m.framer link).held + data.length)) :
    Each Expected m.core (m.receiveLog link data).1 := by
  unfold SessionMachine.receiveLog at hk ⊢
  split
  · trivial
  · rename_i hdata
    rw [if_neg hdata] at hk
    exact decode_expected m.core ha hk

/-! ## Staying in step -/

/-- After these reads the decoder is in step with the frames: it has decoded
exactly the first of their units, and it stands exactly where the rest of them
begins.  A framer in front of a header is never anywhere but in front of a
frame, and one that is owed data is never anywhere but in front of that data. -/
def InStep (m : SessionMachine) (link : Nat) (fs : List Frame) (chunks : List Bytes)
    (rest : Bytes) : Prop :=
  ∃ left, fs.flatMap Frame.units = readsOn link (receiveReads m (readsOf link chunks)).1 ++ left.units ∧
    Aligned ((receiveReads m (readsOf link chunks)).2.1.framer link) left rest

/-- Reads of a link on which every status block finds its stream. -/
theorem receiveReads_aligned (link : Nat) : ∀ (chunks : List Bytes) (m : SessionMachine)
    (left : Left) (rest : Bytes), (∀ d ∈ chunks, d ≠ []) →
    Aligned (m.framer link) left (chunks.flatten ++ rest) → Each Expected m.core left.units →
    ∃ left', left.units = readsOn link (receiveReads m (readsOf link chunks)).1 ++ left'.units ∧
      Aligned ((receiveReads m (readsOf link chunks)).2.1.framer link) left' rest := by
  intro chunks
  induction chunks with
  | nil =>
    intro m left rest _ ha _
    exact ⟨left, rfl, ha⟩
  | cons d ds ih =>
    intro m left rest hne ha hk
    rw [List.flatten_cons, List.append_assoc] at ha
    obtain ⟨left', hrec⟩ := receiveLog_received m link (hne d (by simp)) ha
      (receiveLog_expected m link ha ((hk.within _).foreseen _))
    rw [hrec.units, each_append, ← hrec.core] at hk
    obtain ⟨left'', hunits, haligned⟩ :=
      ih (m.receiveLog link d).2.1 left' rest (fun x hx => hne x (by simp [hx])) hrec.aligned hk.2
    refine ⟨left'', ?_, haligned⟩
    rw [hrec.units, hunits]
    simp [readsOf, receiveReads_cons]

/-- One frame, in one read. -/
theorem decode_frame (m : MachineState) (fr : Frame) :
    decode m {} (headerBytes fr.header ++ fr.body) =
      ([.frame fr.header fr.body],
        ⟨(deliver m (.frame fr.header fr.body)).1,
          expecting {} (m.owes fr.header.sid fr.header.status fr.body),
          (deliver m (.frame fr.header fr.body)).2⟩) := by
  have hread := headerFields_headerBytes fr.header_wf fr.body
  have hlen : (headerBytes fr.header ++ fr.body).length = RESPONSE_HDRLEN + fr.header.dlen := by
    simp [RESPONSE_HDRLEN, fr.body_length]
  have hdrop : (headerBytes fr.header ++ fr.body).drop RESPONSE_HDRLEN = fr.body := by
    simp [RESPONSE_HDRLEN]
  have hlong : ¬ (headerBytes fr.header ++ fr.body).length < 8 := by simp
  simp only [decode, wholeFrame, hread, hlen, hdrop]
  rw [if_neg (by simp [RESPONSE_HDRLEN])]
  rw [MachineState.dispatch_eq]
  simp [deliver]

/-- Its data, in one read. -/
theorem decode_trailer (m : MachineState) (fr : Frame) (hne : fr.trailer ≠ []) :
    decode m ⟨[], none, fr.trailer.length, some fr.sid⟩ fr.trailer =
      ([.trailer fr.sid fr.trailer], ⟨m.onStatusData fr.sid fr.trailer, {}, none⟩) := by
  have hturn : Cursor.turn ⟨m, ⟨fr.trailer, none, fr.trailer.length, some fr.sid⟩, none⟩ =
      some ([.trailer fr.sid fr.trailer], ⟨m.onStatusData fr.sid fr.trailer, {}, none⟩) := by
    simp [Cursor.turn, Cursor.takeTrailer, hne]
  have hstop : Cursor.turn ⟨m.onStatusData fr.sid fr.trailer, {}, none⟩ = none := by
    simp [Cursor.turn, RESPONSE_HDRLEN]
  have hwhole : wholeFrame m ⟨[], none, fr.trailer.length, some fr.sid⟩ fr.trailer = none := by
    simp [wholeFrame, hne]
  simp only [decode, hwhole, Cursor.feed, List.nil_append]
  rw [parse_of_some hturn, parse_of_none hstop]
  rfl

namespace Frame

/-- A frame as reads of one unit each. -/
def chunks (fr : Frame) : List Bytes :=
  (headerBytes fr.header ++ fr.body) :: (if fr.trailer = [] then [] else [fr.trailer])

theorem frame_ne_nil (fr : Frame) : headerBytes fr.header ++ fr.body ≠ [] := by
  intro h
  have hlen := congrArg List.length h
  simp at hlen

theorem chunks_ne_nil (fr : Frame) : ∀ d ∈ fr.chunks, d ≠ [] := by
  intro d hd
  unfold chunks at hd
  by_cases ht : fr.trailer = []
  · simp only [ht, if_true, List.mem_singleton] at hd
    rw [hd]
    exact fr.frame_ne_nil
  · simp only [ht, if_false, List.mem_cons, List.not_mem_nil, or_false] at hd
    obtain rfl | rfl := hd
    · exact fr.frame_ne_nil
    · exact ht

theorem flatten_chunks (fr : Frame) : fr.chunks.flatten = fr.wire := by
  unfold chunks wire
  by_cases ht : fr.trailer = [] <;> simp [ht]

end Frame

/-- The first read of a frame's chunks. -/
theorem receiveLog_frame (m : SessionMachine) (link : Nat) (fr : Frame)
    (hclean : m.framer link = {}) :
    m.receiveLog link (headerBytes fr.header ++ fr.body) =
      ([.frame fr.header fr.body],
        ⟨(deliver m.core (.frame fr.header fr.body)).1,
          m.framers.set link (expecting {} (m.core.owes fr.header.sid fr.header.status fr.body))⟩,
        (deliver m.core (.frame fr.header fr.body)).2) := by
  simp only [SessionMachine.receiveLog, fr.frame_ne_nil, if_false, hclean, decode_frame]

/-- A frame whose block finds its stream, read unit by unit: all of it is
decoded, and the link is between frames again. -/
theorem receiveReads_frame (m : SessionMachine) (link : Nat) (fr : Frame)
    (hclean : m.framer link = {}) (hexp : Expected m.core (.frame fr.header fr.body)) :
    readsOn link (receiveReads m (readsOf link fr.chunks)).1 = fr.units ∧
      (receiveReads m (readsOf link fr.chunks)).2.1.core = replay m.core fr.units ∧
      (receiveReads m (readsOf link fr.chunks)).2.1.framer link = {} := by
  unfold Frame.chunks Frame.units Frame.data
  by_cases ht : fr.trailer = []
  · have hd : declares fr.header fr.body = 0 := by rw [fr.trailer_length, ht]; rfl
    have hquiet := expecting_of_not_declares m.core hd (f := {}) rfl rfl
    simp only [ht, if_true, readsOf, List.map_cons, List.map_nil, receiveReads_cons, receiveReads,
      receiveLog_frame m link fr hclean, hquiet]
    simp [SessionMachine.framer, readsOn]
  · have hd : declares fr.header fr.body ≠ 0 := by
      rw [fr.trailer_length]
      simpa using ht
    have howes := owes_of_declares m.core hd
    rw [if_pos (hexp.resolve_left hd), fr.trailer_length] at howes
    have htrailer := decode_trailer (deliver m.core (.frame fr.header fr.body)).1 fr ht
    simp only [ht, if_false, readsOf, List.map_cons, List.map_nil, receiveReads_cons,
      receiveReads, receiveLog_frame m link fr hclean, howes]
    simp only [SessionMachine.receiveLog, ht, if_false, SessionMachine.framer, expecting,
      Assoc.get_set_self, Option.getD_some]
    simp only [Framer.expect] at htrailer ⊢
    simp only [Frame.sid] at htrailer ⊢
    rw [htrailer]
    simp [readsOn, deliver]

/-- After a block whose stream is not known, a framer that was told nothing is in
front of a header, and what comes next is data. -/
theorem not_in_step_of_not_expected (m : SessionMachine) (link : Nat) (fr : Frame)
    (fs : List Frame) (hclean : m.framer link = {})
    (hnot : ¬ Expected m.core (.frame fr.header fr.body)) :
    ¬ InStep m link (fr :: fs) [headerBytes fr.header ++ fr.body]
      (fr.trailer ++ fs.flatMap Frame.wire) := by
  rintro ⟨left, hunits, haligned⟩
  have hd : declares fr.header fr.body ≠ 0 := fun hd => hnot (.inl hd)
  have ht : fr.trailer ≠ [] := by
    intro ht
    rw [fr.trailer_length, ht] at hd
    exact hd rfl
  have howes := owes_of_declares m.core hd
  rw [if_neg (fun htracks => hnot (.inr htracks))] at howes
  simp only [readsOf, List.map_cons, List.map_nil, receiveReads_cons, receiveReads,
    receiveLog_frame m link fr hclean, howes] at hunits haligned
  simp only [List.flatMap_cons, Frame.units, Frame.data, ht, if_false, List.append_nil,
    readsOn_cons_self, readsOn_nil, List.cons_append, List.nil_append, List.cons.injEq,
    true_and] at hunits
  have hfields := haligned.fields
  simp only [SessionMachine.framer, Assoc.get_set_self, Option.getD_some, expecting] at hfields
  cases left with
  | frames gs =>
    cases gs with
    | nil => simp [Left.units] at hunits
    | cons g gs => simp [Left.units, Frame.units] at hunits
  | body g gs => simp [Framer.Matches] at hfields
  | trailer g gs =>
    obtain ⟨_, hneed, hne, _⟩ := hfields
    exact hne (List.eq_nil_of_length_eq_zero (by simpa using hneed.symm))

/-- The decoder stays in step with a stream of frames, however it is cut into
reads, exactly when every status block that announces data is for a stream that
is pending or retired by the time the block arrives. -/
theorem in_step_iff_expected (m : SessionMachine) (link : Nat) (fs : List Frame)
    (hclean : m.framer link = {}) :
    (∀ (chunks : List Bytes) (rest : Bytes), (∀ d ∈ chunks, d ≠ []) →
        chunks.flatten ++ rest = fs.flatMap Frame.wire → InStep m link fs chunks rest) ↔
      Each Expected m.core (fs.flatMap Frame.units) := by
  constructor
  · induction fs generalizing m with
    | nil => intro _; trivial
    | cons fr fs ih =>
      intro h
      have hexp : Expected m.core (.frame fr.header fr.body) := by
        by_contra hnot
        exact not_in_step_of_not_expected m link fr fs hclean hnot
          (h [headerBytes fr.header ++ fr.body] (fr.trailer ++ fs.flatMap Frame.wire)
            (by simpa using fr.frame_ne_nil) (by simp [Frame.wire]))
      obtain ⟨hlog, hcore, hframer⟩ := receiveReads_frame m link fr hclean hexp
      rw [List.flatMap_cons, each_append, ← hcore]
      constructor
      · unfold Frame.units Frame.data
        split
        · exact ⟨hexp, trivial⟩
        · exact ⟨hexp, trivial, trivial⟩
      · apply ih _ hframer
        intro chunks rest hne hflat
        obtain ⟨left, hunits, haligned⟩ := h (fr.chunks ++ chunks) rest
          (by
            intro d hd
            rcases List.mem_append.mp hd with hd | hd
            · exact fr.chunks_ne_nil d hd
            · exact hne d hd)
          (by rw [List.flatten_append, fr.flatten_chunks, List.append_assoc, hflat]; rfl)
        have happ : readsOf link (fr.chunks ++ chunks) =
            readsOf link fr.chunks ++ readsOf link chunks := by simp [readsOf]
        rw [happ, receiveReads_append] at hunits haligned
        simp only [readsOn_append, hlog, List.flatMap_cons, List.append_assoc,
          List.append_cancel_left_eq] at hunits
        exact ⟨left, hunits, haligned⟩
  · intro hk chunks rest hne hflat
    have ha : Aligned (m.framer link) (.frames fs) (chunks.flatten ++ rest) := by
      rw [hclean]
      exact ⟨⟨rfl, rfl, rfl⟩, by simpa [Left.bytes] using hflat⟩
    exact receiveReads_aligned link chunks m (.frames fs) rest hne ha hk

/-- A status block on stream 4 that announces eight bytes of data, and data that
reads as the header of an empty `kXR_ok` on stream 5. -/
def lateStatus : Frame where
  header := ⟨4, kXR_status, 16⟩
  body := [0, 0, 0, 0, 0, 4, 30, 0, 0, 0, 0, 0, 0, 0, 0, 8]
  trailer := [0, 5, 0, 0, 0, 0, 0, 0]
  header_wf := ⟨by decide, by decide, by decide⟩
  body_length := by decide
  trailer_length := by decide

/-- A `kXR_stat`. -/
def statRequest : Request := { opcode := 3017, params := List.replicate 16 0 }

/-- A machine with one request in flight. -/
def waitingOn (sid : Nat) : MachineState :=
  { MachineState.bare .ready with pending := [(sid, { request := statRequest, parts := [] })] }

/-- Nobody waits on stream 4, so its data is read as a header, and the request on
stream 5 is answered with it. -/
theorem data_of_unknown_stream_read_as_header :
    (SessionMachine.of (waitingOn 5)).framer 0 = {} ∧ (waitingOn 5).state = .ready ∧
      (receiveReads (.of (waitingOn 5)) (readsOf 0 [lateStatus.wire])).1 =
        [(0, .frame lateStatus.header lateStatus.body), (0, .frame ⟨5, kXR_ok, 0⟩ [])] ∧
      (receiveReads (.of (waitingOn 5)) (readsOf 0 [lateStatus.wire])).2.1.core.events =
        [.completed 5 statRequest [] none] ∧
      ¬ InStep (.of (waitingOn 5)) 0 [lateStatus] [lateStatus.wire] [] := by
  have hlog : (receiveReads (.of (waitingOn 5)) (readsOf 0 [lateStatus.wire])).1 =
      [(0, .frame lateStatus.header lateStatus.body), (0, .frame ⟨5, kXR_ok, 0⟩ [])] := by
    decide
  refine ⟨by decide, by decide, hlog, by decide, ?_⟩
  rintro ⟨left, hunits, _⟩
  rw [hlog] at hunits
  simp [readsOn, Frame.units, Frame.data, lateStatus] at hunits

theorem in_step_on_pending_stream :
    (SessionMachine.of (waitingOn 4)).framer 0 = {} ∧
      InStep (.of (waitingOn 4)) 0 [lateStatus] [lateStatus.wire] [] := by
  refine ⟨by decide, (in_step_iff_expected (.of (waitingOn 4)) 0 [lateStatus] (by decide)).mpr
    ⟨by decide, trivial, trivial⟩ [lateStatus.wire] [] (by decide) (by decide)⟩

/-! ## Where the reads are cut -/

/-- A unit that the framer is told about if it has to be, and that raises
nothing. -/
def Clean (m : MachineState) (u : Decoded) : Prop := Expected m u ∧ Accepted m u

instance (m : MachineState) (u : Decoded) : Decidable (Clean m u) :=
  inferInstanceAs (Decidable (_ ∧ _))

/-- A framer with nothing received and nothing owed is a new one. -/
theorem framer_of_done {f : Framer} (h : Aligned f (.frames []) []) : f = {} := by
  obtain ⟨⟨hheader, hzero, hfor⟩, hbytes⟩ := h
  cases f
  simp_all [Left.bytes]

/-- A whole stream, however it is cut: every unit is decoded and handled in
order, the link is between frames, and nothing is raised. -/
theorem receiveReads_whole (link : Nat) : ∀ (chunks : List Bytes) (m : SessionMachine)
    (left : Left), chunks ≠ [] → (∀ d ∈ chunks, d ≠ []) →
    Aligned (m.framer link) left chunks.flatten → Each Clean m.core left.units →
    receiveReads m (readsOf link chunks) =
      (left.units.map (link, ·), ⟨replay m.core left.units, m.framers.set link {}⟩, []) := by
  intro chunks
  induction chunks with
  | nil => intro m left hne; exact absurd rfl hne
  | cons d ds ih =>
    intro m left _ hne ha hk
    rw [List.flatten_cons] at ha
    obtain ⟨left', hrec⟩ := receiveLog_received m link (hne d (by simp)) ha
      (receiveLog_expected m link ha (((hk.imp fun _ _ h => h.1).within _).foreseen _))
    have hunits := hrec.units
    rw [hunits, each_append, ← hrec.core] at hk
    have hquiet := hrec.not_raised (hk.1.imp fun _ _ h => h.2)
    obtain ⟨f, hf⟩ := hrec.framers
    simp only [readsOf, List.map_cons, receiveReads_cons, hquiet, Option.toList_none,
      List.nil_append]
    cases ds with
    | nil =>
      have hdone := hrec.done hquiet rfl
      rw [hdone] at hunits
      have hframer := hrec.aligned
      rw [hdone] at hframer
      have hnew := framer_of_done hframer
      rw [SessionMachine.framer, hf, Assoc.get_set_self, Option.getD_some] at hnew
      rw [Left.units_done, List.append_nil] at hunits
      rw [hunits, ← hrec.core, ← hnew, ← hf]
      simp [receiveReads]
    | cons d' ds =>
      have hrest := ih (m.receiveLog link d).2.1 left' (by simp)
        (fun x hx => hne x (by simp [hx])) hrec.aligned hk.2
      rw [readsOf] at hrest
      rw [hrest, hf, hunits, hrec.core, replay_append]
      simp

/-- Every read of a run finds the link at units that are `P`.  `us` is what each
link has still to decode. -/
def EachRead (P : MachineState → Decoded → Prop) :
    SessionMachine → (Nat → List Decoded) → List (Nat × Bytes) → Prop
  | _, _, [] => True
  | m, us, (link, data) :: reads =>
      Within P m.core (us link) ((m.framer link).held + data.length) ∧
        EachRead P (m.receiveLog link data).2.1
          (Function.update us link ((us link).drop (m.receiveLog link data).1.length)) reads

/-- A link that was not read decoded nothing. -/
theorem readsOn_receiveReads_nil {link : Nat} : ∀ (reads : List (Nat × Bytes))
    (m : SessionMachine), readsOn link reads = [] → readsOn link (receiveReads m reads).1 = [] := by
  intro reads
  induction reads with
  | nil => intro m _; rfl
  | cons r reads ih =>
    obtain ⟨other, data⟩ := r
    intro m h
    by_cases hne : other = link
    · simp [readsOn, hne] at h
    · rw [readsOn_cons_of_ne hne] at h
      rw [receiveReads_cons, readsOn_append, readsOn_map_of_ne hne, List.nil_append]
      exact ih _ h

/-- Links read in any interleaving: each is decoded as its own frames. -/
theorem receiveReads_links : ∀ (reads : List (Nat × Bytes)) (m : SessionMachine)
    (left : Nat → Left), (∀ r ∈ reads, r.2 ≠ []) →
    (∀ link, Aligned (m.framer link) (left link) (readsOn link reads).flatten) →
    EachRead Clean m (fun link => (left link).units) reads →
    (receiveReads m reads).2.2 = [] ∧
      ∀ link, readsOn link reads ≠ [] → readsOn link (receiveReads m reads).1 = (left link).units := by
  intro reads
  induction reads with
  | nil =>
    intro m left _ _ _
    exact ⟨rfl, fun link h => absurd rfl h⟩
  | cons r reads ih =>
    obtain ⟨here, data⟩ := r
    intro m left hne ha hk
    have hhere := ha here
    rw [readsOn_cons_self, List.flatten_cons] at hhere
    have hdata : data ≠ [] := hne (here, data) (by simp)
    obtain ⟨left', hrec⟩ := receiveLog_received m here hdata hhere
      (receiveLog_expected m here hhere (Within.foreseen
        (fun vs ws hus hlen => (hk.1 vs ws hus hlen).imp fun _ _ h => h.1) _))
    have hunits := hrec.units
    have hquiet := hrec.not_raised ((hk.1 _ _ hunits (by rw [← hrec.held]; omega)).imp
      fun _ _ h => h.2)
    -- What each link has left once this read is done.
    have hrest : EachRead Clean (m.receiveLog here data).2.1
        (fun link => (Function.update left here left' link).units) reads := by
      have hk2 := hk.2
      simp only [hunits, List.drop_left] at hk2
      convert hk2 using 1
      funext link
      by_cases h : link = here
      · subst h; simp
      · simp [h]
    have halign : ∀ link, Aligned ((m.receiveLog here data).2.1.framer link)
        (Function.update left here left' link) (readsOn link reads).flatten := by
      intro link
      by_cases h : link = here
      · subst h
        simpa using hrec.aligned
      · have hother := ha link
        rw [readsOn_cons_of_ne (Ne.symm h)] at hother
        rw [hrec.framer_of_ne h, Function.update_of_ne h]
        exact hother
    obtain ⟨hraises, hlogs⟩ := ih _ _ (fun x hx => hne x (by simp [hx])) halign hrest
    rw [receiveReads_cons]
    refine ⟨by simp [hquiet, hraises], fun link hreads => ?_⟩
    by_cases h : link = here
    · subst h
      rw [readsOn_append, readsOn_map_self, hunits]
      by_cases hlast : readsOn link reads = []
      · rw [hrec.done hquiet (by rw [hlast]; rfl), readsOn_receiveReads_nil reads _ hlast]
        rfl
      · rw [hlogs link hlast, Function.update_self]
    · rw [readsOn_append, readsOn_map_of_ne (Ne.symm h), List.nil_append]
      rw [readsOn_cons_of_ne (Ne.symm h)] at hreads
      rw [hlogs link hreads, Function.update_of_ne h]

/-- Where the reads of a stream are cut does not matter to a machine that tracks
the stream of every status block and accepts every body: events, output and state
are the same; the fast path is the loop; and links that are read interleaved are
decoded each as its own frames. -/
theorem reads_cut_anywhere (m : SessionMachine) :
    (∀ (link : Nat) (left : Left) (chunks chunks' : List Bytes),
      (∀ d ∈ chunks, d ≠ []) → (∀ d ∈ chunks', d ≠ []) → chunks.flatten = chunks'.flatten →
      Aligned (m.framer link) left chunks.flatten → Each Clean m.core left.units →
      receiveReads m (readsOf link chunks) = receiveReads m (readsOf link chunks')) ∧
    (∀ (f : Framer) (left : Left) (data rest : Bytes), Aligned f left (data ++ rest) →
      decode m.core f data = parse (Cursor.feed ⟨m.core, f, none⟩ data)) ∧
    (∀ (reads : List (Nat × Bytes)) (left : Nat → Left), (∀ r ∈ reads, r.2 ≠ []) →
      (∀ link, Aligned (m.framer link) (left link) (readsOn link reads).flatten) →
      EachRead Clean m (fun link => (left link).units) reads →
      (receiveReads m reads).2.2 = [] ∧ ∀ link, readsOn link reads ≠ [] →
        readsOn link (receiveReads m reads).1 = (left link).units) := by
  refine ⟨?_, fun f left data rest ha => decode_eq_parse m.core ha,
    fun reads left => receiveReads_links reads m left⟩
  intro link left chunks chunks' hne hne' hflat ha hk
  by_cases hnil : chunks.flatten = []
  · have hempty : ∀ {xs : List Bytes}, (∀ d ∈ xs, d ≠ []) → xs.flatten = [] → xs = [] := by
      intro xs hxs hx
      cases xs with
      | nil => rfl
      | cons x xs => exact absurd (List.append_eq_nil_iff.mp hx).1 (hxs x (by simp))
    rw [hempty hne hnil, hempty hne' (hflat ▸ hnil)]
  · have hcons : ∀ {xs : List Bytes}, xs.flatten ≠ [] → xs ≠ [] := by
      intro xs hx h
      rw [h] at hx
      exact hx rfl
    rw [receiveReads_whole link chunks m left (hcons hnil) hne ha hk,
      receiveReads_whole link chunks' m left (hcons (hflat ▸ hnil)) hne' (hflat ▸ ha) hk]

/-- `lateStatus` with data that reads as no header at all. -/
def lateGarbage : Frame where
  header := ⟨4, kXR_status, 16⟩
  body := [0, 0, 0, 0, 0, 4, 30, 0, 0, 0, 0, 0, 0, 0, 0, 8]
  trailer := [255, 255, 255, 255, 255, 255, 255, 255]
  header_wf := ⟨by decide, by decide, by decide⟩
  body_length := by decide
  trailer_length := by decide

/-- Data nobody asked for, in the same read as its frame and in one of its own:
the buffered path keeps what it cannot read, the fast path drops it. -/
theorem reads_of_unknown_stream_differ :
    Aligned ((SessionMachine.of (.bare .ready)).framer 0) (.frames [lateGarbage])
        [lateGarbage.wire].flatten ∧
      [lateGarbage.wire].flatten = lateGarbage.chunks.flatten ∧
      Each Accepted (.bare .ready) (Left.frames [lateGarbage]).units ∧
      (receiveReads (.of (.bare .ready)) (readsOf 0 [lateGarbage.wire])).2.1.framers =
        [(0, { buffer := lateGarbage.trailer })] ∧
      (receiveReads (.of (.bare .ready)) (readsOf 0 lateGarbage.chunks)).2.1.framers =
        [(0, {})] := by
  refine ⟨⟨⟨rfl, rfl, rfl⟩, by decide⟩, by decide, ?_, by decide, by decide⟩
  exact ⟨by decide, by decide, trivial⟩

theorem reads_of_pending_stream_agree :
    receiveReads (.of (waitingOn 4)) (readsOf 0 [lateStatus.wire]) =
      receiveReads (.of (waitingOn 4)) (readsOf 0 lateStatus.chunks) := by
  refine (reads_cut_anywhere (.of (waitingOn 4))).1 0 (.frames [lateStatus]) _ _
    (by decide) (by decide) (by decide) ⟨⟨rfl, rfl, rfl⟩, by decide⟩ ?_
  exact ⟨by decide, by decide, trivial⟩

end XrdClient.Proto
