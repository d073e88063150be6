/-
  Proto/Framing.lean --- where the decode loop stands in a stream of frames.

  A server's side of one link is a list of `Frame`s.  A frame carries the proof
  that it is well formed, so every list of frames is a stream the protocol
  allows.  The data of a status block is not counted by the header in front of
  it; the loop has to be told to expect it, and whether it is told depends on
  the stream the block is for.

  `Left` is what of a stream a framer has still to decode and `Aligned` says that
  it stands there.  `turn_aligned` is the one lemma about a single turn; what
  `_parse` and `receive_data` do to an aligned framer follows from it.
-/
import XrdClient.Proto.Receive

set_option autoImplicit false

namespace XrdClient.Proto

open XrdClient.Lib
open MachineState (effective owes announces expecting)

/-! ## Well-formed frames -/

/-- The stream a frame comes down to. -/
def streamOf (h : Header) (body : Bytes) : Nat :=
  match effective h.sid h.status body with
  | some (sid, _, _) => sid
  | none => h.sid

/-- The length of the raw data a frame says will follow it: what its status
block declares, or nothing when it is no status block. -/
def declares (h : Header) (body : Bytes) : Int :=
  match effective h.sid h.status body with
  | some (_, status, block) =>
      if status = kXR_status ∧ 16 ≤ block.length then statusDlen block else 0
  | none => 0

/-- One well-formed response: the frame, and the data its status block declares. -/
structure Frame where
  header : Header
  body : Bytes
  trailer : Bytes
  header_wf : header.WellFormed
  body_length : body.length = header.dlen
  trailer_length : declares header body = trailer.length

namespace Frame

/-- A response without data. -/
def plain (sid status : Nat) (body : Bytes) (hwf : (Header.mk sid status body.length).WellFormed)
    (hdata : declares ⟨sid, status, body.length⟩ body = 0) : Frame where
  header := ⟨sid, status, body.length⟩
  body := body
  trailer := []
  header_wf := hwf
  body_length := rfl
  trailer_length := hdata

/-- The stream this frame answers. -/
def sid (fr : Frame) : Nat := streamOf fr.header fr.body

/-- The data, if there is any, as a unit of its own. -/
def data (fr : Frame) : List Decoded :=
  if fr.trailer = [] then [] else [.trailer fr.sid fr.trailer]

/-- What a decoder should take this response for. -/
def units (fr : Frame) : List Decoded := .frame fr.header fr.body :: fr.data

/-- Its bytes. -/
def wire (fr : Frame) : Bytes := headerBytes fr.header ++ fr.body ++ fr.trailer

end Frame

/-- The bytes of a unit. -/
def Decoded.wire : Decoded → Bytes
  | .frame h body => headerBytes h ++ body
  | .trailer _ data => data

/-- How many bytes a list of units takes up. -/
def wireLength (us : List Decoded) : Nat := (us.flatMap Decoded.wire).length

@[simp] theorem wireLength_nil : wireLength [] = 0 := rfl

@[simp] theorem wireLength_cons (u : Decoded) (us : List Decoded) :
    wireLength (u :: us) = u.wire.length + wireLength us := by
  simp [wireLength]

/-! ## A stream part-way through -/

/-- What of a link's frames a framer has still to decode. -/
inductive Left where
  /-- It stands in front of a header, or at the end. -/
  | frames (fs : List Frame)
  /-- It has read the header of `fr`. -/
  | body (fr : Frame) (fs : List Frame)
  /-- It has dispatched `fr`, and its data is owed. -/
  | trailer (fr : Frame) (fs : List Frame)

namespace Left

def units : Left → List Decoded
  | frames fs => fs.flatMap Frame.units
  | body fr fs => fr.units ++ fs.flatMap Frame.units
  | trailer fr fs => .trailer fr.sid fr.trailer :: fs.flatMap Frame.units

@[simp] theorem units_done : (frames []).units = [] := rfl

def bytes : Left → Bytes
  | frames fs => fs.flatMap Frame.wire
  | body fr fs => fr.body ++ fr.trailer ++ fs.flatMap Frame.wire
  | trailer fr fs => fr.trailer ++ fs.flatMap Frame.wire

end Left

/-- One more frame at the end. -/
def Left.push (fr : Frame) : Left → Left
  | .frames fs => .frames (fs ++ [fr])
  | .body fr' fs => .body fr' (fs ++ [fr])
  | .trailer fr' fs => .trailer fr' (fs ++ [fr])

theorem Left.units_push (left : Left) (fr : Frame) :
    (left.push fr).units = left.units ++ fr.units := by
  cases left <;> simp [Left.push, Left.units]

theorem Left.bytes_push (left : Left) (fr : Frame) :
    (left.push fr).bytes = left.bytes ++ fr.wire := by
  cases left <;> simp [Left.push, Left.bytes]

/-- The framer's fields, buffer aside, are those of one that stands at `left`. -/
def Framer.Matches (f : Framer) : Left → Prop
  | .frames _ => f.header = none ∧ f.needTrailer = 0 ∧ f.trailerFor = none
  | .body fr _ => f.header = some fr.header ∧ f.needTrailer = 0 ∧ f.trailerFor = none
  | .trailer fr _ =>
      f.header = none ∧ f.needTrailer = fr.trailer.length ∧ fr.trailer ≠ [] ∧
        f.trailerFor = some fr.sid

/-- The framer stands at `left`, with `rest` of it not received yet. -/
structure Aligned (f : Framer) (left : Left) (rest : Bytes) : Prop where
  fields : f.Matches left
  bytes : f.buffer ++ rest = left.bytes

theorem Aligned.push {f : Framer} {left : Left} {rest : Bytes} (h : Aligned f left rest)
    (fr : Frame) : Aligned f (left.push fr) (rest ++ fr.wire) := by
  constructor
  · have hfields := h.fields
    cases left <;> exact hfields
  · rw [← List.append_assoc, h.bytes, left.bytes_push]

/-- Frames with the same units are the same on the wire. -/
theorem Frame.eq_of_units {fr fr' : Frame} {us vs : List Decoded}
    (h : fr.units ++ us = fr'.units ++ vs) : fr.units = fr'.units ∧ fr.wire = fr'.wire := by
  simp only [Frame.units, List.cons_append, List.cons.injEq, Decoded.frame.injEq] at h
  obtain ⟨⟨hh, hb⟩, hdata⟩ := h
  have hlen : fr.trailer.length = fr'.trailer.length := by
    have h1 := fr.trailer_length
    have h2 := fr'.trailer_length
    rw [hh, hb, h2] at h1
    exact_mod_cast h1.symm
  have htrailer : fr.trailer = fr'.trailer := by
    by_cases ht : fr.trailer = []
    · rw [ht, List.length_nil] at hlen
      rw [ht, List.length_eq_zero_iff.mp hlen.symm]
    · have ht' : fr'.trailer ≠ [] := by
        intro e
        rw [e, List.length_nil] at hlen
        exact ht (List.length_eq_zero_iff.mp hlen)
      simp only [Frame.data, ht, ht', if_false, List.cons_append, List.cons.injEq,
        Decoded.trailer.injEq] at hdata
      exact hdata.1.2
  constructor
  · simp [Frame.units, Frame.data, Frame.sid, hh, hb, htrailer]
  · simp [Frame.wire, hh, hb, htrailer]

/-- A framer that holds nothing stands in front of the frame whose units are next. -/
theorem Aligned.head_of_idle {f : Framer} {left : Left} {rest : Bytes} (h : Aligned f left rest)
    (hidle : f = {}) {fr : Frame} (hfront : fr.units = left.units.take fr.units.length) :
    ∃ fs, left.units = fr.units ++ (Left.frames fs).units ∧
      rest = fr.wire ++ (Left.frames fs).bytes := by
  subst hidle
  have hall : fr.units ++ left.units.drop fr.units.length = left.units := by
    conv_rhs => rw [← List.take_append_drop fr.units.length left.units, ← hfront]
  obtain ⟨hfields, hbytes⟩ := h
  cases left with
  | body fr' fs => cases hfields.1
  | trailer fr' fs =>
    have hzero : (0 : Int) = fr'.trailer.length := hfields.2.1
    exact absurd (List.length_eq_zero_iff.mp (by omega)) hfields.2.2.1
  | frames fs =>
    cases fs with
    | nil => simp [Left.units, Frame.units] at hall
    | cons fr' fs =>
      obtain ⟨hunits, hwire⟩ := Frame.eq_of_units (hall.trans (by simp [Left.units] :
        (Left.frames (fr' :: fs)).units = fr'.units ++ (Left.frames fs).units))
      refine ⟨fs, by simp [Left.units, hunits], ?_⟩
      simpa [Left.bytes, hwire] using hbytes

/-- The bytes a framer holds of what it has not decoded. -/
def Framer.held (f : Framer) : Nat :=
  f.buffer.length + (match f.header with | none => 0 | some _ => RESPONSE_HDRLEN)

/-! ## Replaying what was decoded -/

/-- What handling one unit does to the machine. -/
def deliver (m : MachineState) : Decoded → MachineState × Option Raised
  | .frame h body => ((m.dispatch h.sid h.status body {}).1, (m.dispatch h.sid h.status body {}).2.2)
  | .trailer sid data => (m.onStatusData sid data, none)

/-- The machine after a list of units. -/
def replay (m : MachineState) (us : List Decoded) : MachineState :=
  us.foldl (fun m u => (deliver m u).1) m

@[simp] theorem replay_nil (m : MachineState) : replay m [] = m := rfl

@[simp] theorem replay_cons (m : MachineState) (u : Decoded) (us : List Decoded) :
    replay m (u :: us) = replay (deliver m u).1 us := rfl

theorem replay_append (m : MachineState) (us vs : List Decoded) :
    replay m (us ++ vs) = replay (replay m us) vs := by
  simp [replay, List.foldl_append]

section Each

variable {P Q : MachineState → Decoded → Prop}

/-- `P` holds of every unit and the machine it meets. -/
def Each (P : MachineState → Decoded → Prop) : MachineState → List Decoded → Prop
  | _, [] => True
  | m, u :: us => P m u ∧ Each P (deliver m u).1 us

theorem each_append {m : MachineState} {us vs : List Decoded} :
    Each P m (us ++ vs) ↔ Each P m us ∧ Each P (replay m us) vs := by
  induction us generalizing m with
  | nil => simp [Each]
  | cons u us ih => simp [Each, ih, and_assoc]

theorem Each.imp (h : ∀ m u, P m u → Q m u) {m : MachineState} {us : List Decoded} :
    Each P m us → Each Q m us := by
  induction us generalizing m with
  | nil => intro _; trivial
  | cons u us ih =>
    intro hs
    exact ⟨h m u hs.1, ih hs.2⟩

/-- `P` holds of every unit that is complete within the first `n` bytes. -/
def Within (P : MachineState → Decoded → Prop) (m : MachineState) (us : List Decoded)
    (n : Nat) : Prop :=
  ∀ vs ws, us = vs ++ ws → wireLength vs ≤ n → Each P m vs

theorem Each.within {m : MachineState} {us : List Decoded} (h : Each P m us) (n : Nat) :
    Within P m us n := by
  intro vs ws hus _
  rw [hus, each_append] at h
  exact h.1

/-- `P` holds of every unit, up to where the stream and the log of what was taken
off it part, that is complete within the first `n` bytes. -/
def Foreseen (P : MachineState → Decoded → Prop) (m : MachineState) (us log : List Decoded)
    (n : Nat) : Prop :=
  ∀ vs u ws ws', us = vs ++ u :: ws → log = vs ++ u :: ws' → wireLength (vs ++ [u]) ≤ n →
    P (replay m vs) u

theorem Within.foreseen {m : MachineState} {us : List Decoded} {n : Nat} (h : Within P m us n)
    (log : List Decoded) : Foreseen P m us log n := by
  intro vs u ws ws' hus _ hlen
  have h' := h (vs ++ [u]) ws (by simp [hus]) hlen
  exact ((each_append.mp h').2).1

theorem Foreseen.head {m : MachineState} {u : Decoded} {us log : List Decoded} {n : Nat}
    (h : Foreseen P m (u :: us) (u :: log) n) (hn : u.wire.length ≤ n) : P m u :=
  h [] u us log rfl rfl (by simpa using hn)

theorem Foreseen.drop {m : MachineState} {us vs log : List Decoded} {n k : Nat}
    (h : Foreseen P m (us ++ vs) (us ++ log) n) (hn : k + wireLength us = n) :
    Foreseen P (replay m us) vs log k := by
  intro ws u xs xs' hvs hlog hlen
  have h' := h (us ++ ws) u xs xs' (by rw [hvs, List.append_assoc])
    (by rw [hlog, List.append_assoc])
    (by simp only [wireLength, List.flatMap_append, List.length_append] at *; omega)
  rwa [replay_append] at h'

end Each

/-- The machine will tell the framer about data on this stream. -/
def Tracks (m : MachineState) (sid : Nat) : Prop :=
  MachineState.inBringup m.state = false ∧ (m.pending.has sid = true ∨ sid ∈ m.retired)

instance (m : MachineState) (sid : Nat) : Decidable (Tracks m sid) :=
  inferInstanceAs (Decidable (_ ∧ _))

/-- A frame that says data will follow finds its stream pending or retired. -/
def Expected (m : MachineState) : Decoded → Prop
  | .frame h body => declares h body = 0 ∨ Tracks m (streamOf h body)
  | .trailer _ _ => True

instance (m : MachineState) (u : Decoded) : Decidable (Expected m u) := by
  cases u <;> unfold Expected <;> infer_instance

/-- Handling the unit raises nothing: whatever parses its body accepts it. -/
def Accepted (m : MachineState) (u : Decoded) : Prop := (deliver m u).2 = none

instance (m : MachineState) (u : Decoded) : Decidable (Accepted m u) :=
  inferInstanceAs (Decidable (_ = _))

/-! ## What a frame makes the framer expect -/

/-- Data that is declared is expected exactly when the stream is tracked. -/
theorem owes_of_declares (m : MachineState) {h : Header} {body : Bytes}
    (hd : declares h body ≠ 0) :
    m.owes h.sid h.status body =
      if Tracks m (streamOf h body) then some (declares h body, some (streamOf h body))
      else none := by
  unfold declares at hd
  unfold owes streamOf declares
  cases he : effective h.sid h.status body with
  | none => simp [he] at hd
  | some e =>
    obtain ⟨sid, status, block⟩ := e
    simp only [he] at hd ⊢
    split at hd
    · rename_i hstatus
      obtain ⟨info, hinfo⟩ := (parseStatus_ok_iff block).mpr hstatus.2
      have hlen : info.dlen ≠ 0 := by rwa [parseStatus_dlen hinfo]
      rw [if_pos hstatus, ← parseStatus_dlen hinfo]
      by_cases hb : MachineState.inBringup m.state = true
      · simp [announces, Tracks, hb]
      · by_cases hp : m.pending.has sid = true
        · simp [announces, Tracks, hb, hstatus.1, hinfo, hp, hlen]
        · by_cases hr : sid ∈ m.retired <;>
            simp [announces, Tracks, hb, hstatus.1, hinfo, hp, hr, hlen]
    · simp at hd

/-- A frame that declares nothing leaves a quiet framer quiet. -/
theorem expecting_of_not_declares (m : MachineState) {h : Header} {body : Bytes}
    (hd : declares h body = 0) {f : Framer} (hn : f.needTrailer = 0)
    (hfor : f.trailerFor = none) :
    expecting f (m.owes h.sid h.status body) = f := by
  have hquiet : f.expect 0 none = f := by
    cases f
    simp_all [Framer.expect]
  unfold declares at hd
  unfold owes
  cases he : effective h.sid h.status body with
  | none => rfl
  | some e =>
    obtain ⟨sid, status, block⟩ := e
    simp only [he] at hd ⊢
    unfold announces
    split
    · rfl
    · rename_i hb
      have hstatus : status = kXR_status := by
        by_contra hne
        exact hb (.inr hne)
      cases hinfo : parseStatus block with
      | error e => rfl
      | ok info =>
        have hlen : 16 ≤ block.length := (parseStatus_ok_iff block).mp ⟨info, hinfo⟩
        rw [if_pos ⟨hstatus, hlen⟩, ← parseStatus_dlen hinfo] at hd
        simp only [hd, ne_eq, not_true_eq_false, if_false]
        split
        · rfl
        · split
          · exact hquiet
          · rfl

/-! ## Turns of the loop -/

/-- Every unit taken was accepted, or the last was not and raised what was raised. -/
def Stopped (m : MachineState) (out : List Decoded) : Option Raised → Prop
  | none => Each Accepted m out
  | some e => ∃ us u, out = us ++ [u] ∧ Each Accepted m us ∧ (deliver (replay m us) u).2 = some e

theorem stopped_singleton (m : MachineState) (u : Decoded) : Stopped m [u] (deliver m u).2 := by
  cases hr : (deliver m u).2 with
  | none => exact ⟨hr, trivial⟩
  | some e => exact ⟨[], u, rfl, trivial, hr⟩

theorem Stopped.append {m : MachineState} {us vs : List Decoded} {raised : Option Raised}
    (hu : Each Accepted m us) (hv : Stopped (replay m us) vs raised) :
    Stopped m (us ++ vs) raised := by
  cases raised with
  | none => exact each_append.mpr ⟨hu, hv⟩
  | some e =>
    obtain ⟨ws, u, rfl, hws, hr⟩ := hv
    exact ⟨us ++ ws, u, by rw [List.append_assoc], each_append.mpr ⟨hu, hws⟩,
      by rw [replay_append]; exact hr⟩

/-- From `left` to `left'`: the cursor went from `c` to `c'` and took exactly the
units in between off the wire. -/
structure Advanced (rest : Bytes) (c : Cursor) (left : Left) (out : List Decoded) (c' : Cursor)
    (left' : Left) : Prop where
  units : left.units = out ++ left'.units
  aligned : Aligned c'.framer left' rest
  machine : c'.machine = replay c.machine out
  held : c'.framer.held + wireLength out = c.framer.held
  stopped : Stopped c.machine out c'.raised

theorem Advanced.refl {rest : Bytes} {c : Cursor} {left : Left}
    (ha : Aligned c.framer left rest) (hr : c.raised = none) :
    Advanced rest c left [] c left :=
  ⟨rfl, ha, rfl, by simp, by rw [hr]; trivial⟩

theorem Advanced.trans {rest : Bytes} {c c' c'' : Cursor} {left left' left'' : Left}
    {out out' : List Decoded} (h : Advanced rest c left out c' left') (hr : c'.raised = none)
    (h' : Advanced rest c' left' out' c'' left'') :
    Advanced rest c left (out ++ out') c'' left'' := by
  refine ⟨by rw [h.units, h'.units, List.append_assoc], h'.aligned,
    by rw [h'.machine, h.machine, replay_append], ?_, ?_⟩
  · have h1 := h.held
    have h2 := h'.held
    simp only [wireLength, List.flatMap_append, List.length_append] at h1 h2 ⊢
    omega
  · have hout := h.stopped
    rw [hr] at hout
    refine Stopped.append hout ?_
    rw [← h.machine]
    exact h'.stopped

/-- Eight bytes in front of a frame are its header. -/
theorem header_of_frames {buffer rest : Bytes} {fs : List Frame}
    (h : buffer ++ rest = (Left.frames fs).bytes) (hlen : 8 ≤ buffer.length) :
    ∃ fr fs', fs = fr :: fs' ∧ headerFields buffer = .ok fr.header ∧
      buffer.drop 8 ++ rest = (Left.body fr fs').bytes := by
  cases fs with
  | nil =>
    have hnil : buffer = [] ∧ rest = [] := by simpa [Left.bytes] using h
    simp [hnil.1] at hlen
  | cons fr fs =>
    have hsplit := split_of_append_eq (headerBytes fr.header) (Left.body fr fs).bytes
      (by simpa [Left.bytes, Frame.wire] using h) (by simpa using hlen)
    rw [length_headerBytes] at hsplit
    refine ⟨fr, fs, rfl, ?_, hsplit.2⟩
    have hread := headerFields_headerBytes fr.header_wf (buffer.drop 8)
    rwa [← hsplit.1, List.take_append_drop] at hread

theorem readHeader_advanced {c : Cursor} {fs : List Frame} {rest : Bytes}
    (ha : Aligned c.framer (.frames fs) rest) (hr : c.raised = none)
    (hlen : RESPONSE_HDRLEN ≤ c.framer.buffer.length) :
    ∃ left', Advanced rest c (.frames fs) [] c.readHeader left' := by
  obtain ⟨⟨hheader, hzero, hfor⟩, hbytes⟩ := ha
  simp only [RESPONSE_HDRLEN] at hlen
  obtain ⟨fr, fs', rfl, hread, hrest⟩ := header_of_frames hbytes hlen
  refine ⟨.body fr fs', by simp [Left.units], ⟨?_, ?_⟩, ?_, ?_, ?_⟩
  · simp [Cursor.readHeader, hread, Framer.Matches, hzero, hfor]
  · simpa [Cursor.readHeader, hread, RESPONSE_HDRLEN] using hrest
  · simp [Cursor.readHeader, hread]
  · simp [Cursor.readHeader, hread, Framer.held, hheader, RESPONSE_HDRLEN]
    omega
  · simp only [Cursor.readHeader, hread, hr]
    trivial

/-- The body in front of an aligned framer is the frame's own. -/
theorem Aligned.body_taken {c : Cursor} {fr : Frame} {fs : List Frame} {rest : Bytes}
    (ha : Aligned c.framer (.body fr fs) rest)
    (hlen : fr.header.dlen ≤ c.framer.buffer.length) :
    (c.takeBody fr.header).1 = [.frame fr.header fr.body] := by
  have hsplit := split_of_append_eq fr.body (fr.trailer ++ fs.flatMap Frame.wire)
    (by simpa [Left.bytes] using ha.bytes) (by rw [fr.body_length]; exact hlen)
  rw [fr.body_length] at hsplit
  simp [Cursor.takeBody, hsplit.1]

theorem takeBody_advanced {c : Cursor} {fr : Frame} {fs : List Frame} {rest : Bytes}
    (ha : Aligned c.framer (.body fr fs) rest)
    (hlen : fr.header.dlen ≤ c.framer.buffer.length)
    (hk : Expected c.machine (.frame fr.header fr.body)) :
    ∃ left', Advanced rest c (.body fr fs) (c.takeBody fr.header).1 (c.takeBody fr.header).2
      left' := by
  obtain ⟨⟨hheader, hzero, hfor⟩, hbytes⟩ := ha
  have hsplit := split_of_append_eq fr.body (fr.trailer ++ fs.flatMap Frame.wire)
    (by simpa [Left.bytes] using hbytes) (by rw [fr.body_length]; exact hlen)
  rw [fr.body_length] at hsplit
  have htake : c.takeBody fr.header = ([.frame fr.header fr.body],
      ⟨(deliver c.machine (.frame fr.header fr.body)).1,
        expecting ⟨c.framer.buffer.drop fr.header.dlen, none, 0, none⟩
          (c.machine.owes fr.header.sid fr.header.status fr.body),
        (deliver c.machine (.frame fr.header fr.body)).2⟩) := by
    simp only [Cursor.takeBody, hsplit.1, hzero, hfor]
    rw [MachineState.dispatch_eq]
    rfl
  rw [htake]
  have hheld : c.framer.buffer.length - fr.header.dlen + (8 + fr.body.length) =
      c.framer.held := by
    simp only [Framer.held, hheader, fr.body_length, RESPONSE_HDRLEN]
    omega
  by_cases ht : fr.trailer = []
  · -- No data: the framer is back in front of a header.
    have hd : declares fr.header fr.body = 0 := by rw [fr.trailer_length, ht]; rfl
    rw [expecting_of_not_declares c.machine hd rfl rfl]
    refine ⟨.frames fs, by simp [Left.units, Frame.units, Frame.data, ht], ⟨?_, ?_⟩, rfl, ?_, ?_⟩
    · exact ⟨rfl, rfl, rfl⟩
    · simpa [Left.bytes, ht] using hsplit.2
    · simpa [Framer.held, Decoded.wire] using hheld
    · exact stopped_singleton _ _
  · have hd : declares fr.header fr.body ≠ 0 := by
      rw [fr.trailer_length]
      simpa using ht
    have htracks : Tracks c.machine (streamOf fr.header fr.body) := hk.resolve_left hd
    rw [owes_of_declares c.machine hd, if_pos htracks]
    refine ⟨.trailer fr fs, by simp [Left.units, Frame.units, Frame.data, ht], ⟨?_, ?_⟩, rfl, ?_, ?_⟩
    · exact ⟨rfl, fr.trailer_length, ht, rfl⟩
    · simpa [Left.bytes, expecting] using hsplit.2
    · simpa [Framer.held, Decoded.wire, expecting, Framer.expect] using hheld
    · exact stopped_singleton _ _

theorem takeTrailer_advanced {c : Cursor} {fr : Frame} {fs : List Frame} {rest : Bytes}
    (ha : Aligned c.framer (.trailer fr fs) rest)
    (hlen : c.framer.needTrailer ≤ c.framer.buffer.length) :
    ∃ left', Advanced rest c (.trailer fr fs) c.takeTrailer.1 c.takeTrailer.2 left' := by
  obtain ⟨⟨hheader, hneed, _, hfor⟩, hbytes⟩ := ha
  have hlen' : fr.trailer.length ≤ c.framer.buffer.length := by omega
  have hsplit := split_of_append_eq fr.trailer (fs.flatMap Frame.wire)
    hbytes hlen'
  have htake : c.takeTrailer = ([.trailer fr.sid fr.trailer],
      ⟨c.machine.onStatusData fr.sid fr.trailer,
        ⟨c.framer.buffer.drop fr.trailer.length, none, 0, none⟩, none⟩) := by
    simp only [Cursor.takeTrailer, hfor, hneed, hheader, sliceTo_natCast, sliceDel_natCast,
      hsplit.1]
  rw [htake]
  refine ⟨.frames fs, by simp [Left.units], ⟨⟨rfl, rfl, rfl⟩, ?_⟩, rfl, ?_, ⟨rfl, trivial⟩⟩
  · simpa [Left.bytes] using hsplit.2
  · simp [Framer.held, hheader, Decoded.wire]
    omega

/-- A framer that is where it should be moves on to where it should be. -/
theorem turn_advanced {c c' : Cursor} {out : List Decoded} {left : Left} {rest : Bytes}
    (ha : Aligned c.framer left rest) (hk : Each Expected c.machine out)
    (ht : c.turn = some (out, c')) :
    ∃ left', Advanced rest c left out c' left' := by
  obtain ⟨hraised, hcases⟩ := Cursor.turn_cases ht
  cases left with
  | frames fs =>
    obtain ⟨hheader, hzero, _⟩ := ha.fields
    obtain ⟨htrailer, _⟩ | ⟨_, _, hlen, rfl, rfl⟩ | ⟨hd, _, hsome, _⟩ := hcases
    · exact absurd hzero htrailer
    · exact readHeader_advanced ha hraised hlen
    · simp [hheader] at hsome
  | body fr fs =>
    obtain ⟨hheader, hzero, _⟩ := ha.fields
    obtain ⟨htrailer, _⟩ | ⟨_, hnone, _⟩ | ⟨hd, _, hsome, hlen, heq⟩ := hcases
    · exact absurd hzero htrailer
    · simp [hheader] at hnone
    · obtain rfl : fr.header = hd := by simpa [hheader] using hsome
      have hout : out = [.frame fr.header fr.body] := by
        rw [← (ha.body_taken hlen), ← heq]
      rw [hout] at hk
      have hexp := takeBody_advanced ha hlen hk.1
      rwa [← heq] at hexp
  | trailer fr fs =>
    obtain ⟨hheader, hneed, hne, _⟩ := ha.fields
    have hpos : c.framer.needTrailer ≠ 0 := by
      rw [hneed]
      simpa using hne
    obtain ⟨_, hlen, heq⟩ | ⟨hzero, _⟩ | ⟨hd, hzero, _⟩ := hcases
    · have hexp := takeTrailer_advanced ha hlen
      rwa [← heq] at hexp
    · exact absurd hzero hpos
    · exact absurd hzero hpos

/-- A turn takes nothing that is not all there, so what is foreseen of the units
within the bytes held is true of what it takes. -/
theorem turn_expected {c c' : Cursor} {out log : List Decoded} {left : Left} {rest : Bytes}
    (ha : Aligned c.framer left rest)
    (hk : Foreseen Expected c.machine left.units (out ++ log) c.framer.held)
    (ht : c.turn = some (out, c')) : Each Expected c.machine out := by
  obtain ⟨hraised, ⟨_, hlen, heq⟩ | ⟨_, _, _, rfl, _⟩ | ⟨hd, hzero, hsome, hlen, heq⟩⟩ :=
    Cursor.turn_cases ht
  · unfold Cursor.takeTrailer at heq
    split at heq
    · simp [(Prod.mk.inj heq).1, Each]
    · simp [(Prod.mk.inj heq).1, Each, Expected]
  · trivial
  · cases left with
    | frames fs => simp [ha.fields.1] at hsome
    | trailer fr fs => simp [ha.fields.1] at hsome
    | body fr fs =>
      have hheader : c.framer.header = some fr.header := ha.fields.1
      obtain rfl : fr.header = hd := by simpa [hheader] using hsome
      have hout : out = [.frame fr.header fr.body] := by
        rw [← (ha.body_taken hlen), ← heq]
      have hfits : (Decoded.frame fr.header fr.body).wire.length ≤ c.framer.held := by
        simp only [Decoded.wire, List.length_append, length_headerBytes, fr.body_length,
          Framer.held, hheader, RESPONSE_HDRLEN]
        omega
      rw [hout] at hk ⊢
      exact ⟨hk.head hfits, trivial⟩

/-! ## The loop, and the fast path in front of it -/

theorem Cursor.turn_of_raised {c : Cursor} (h : c.raised ≠ none) : c.turn = none := by
  have h' : c.raised.isSome = true := Option.isSome_iff_ne_none.mpr h
  simp [Cursor.turn, h']

/-- `_parse` on an aligned framer. -/
theorem parse_advanced {c : Cursor} {left : Left} {rest : Bytes}
    (ha : Aligned c.framer left rest) (hr : c.raised = none)
    (hk : Each Expected c.machine (parse c).1) :
    ∃ left', Advanced rest c left (parse c).1 (parse c).2 left' := by
  unfold parse at hk ⊢
  induction c using decodeLoop.run_induction generalizing left with
  | stop c hstop =>
    rw [decodeLoop.run_of_none hstop]
    exact ⟨left, .refl ha hr⟩
  | turn c c' out hturn ih =>
    rw [decodeLoop.run_of_some hturn] at hk ⊢
    obtain ⟨hout, hlater⟩ := each_append.mp hk
    obtain ⟨left', hstep⟩ := turn_advanced ha hout hturn
    by_cases hr' : c'.raised = none
    · rw [← hstep.machine] at hlater
      obtain ⟨left'', hrest⟩ := ih hstep.aligned hr' hlater
      exact ⟨left'', hstep.trans hr' hrest⟩
    · -- The exception leaves the loop.
      rw [decodeLoop.run_of_none (Cursor.turn_of_raised hr'), List.append_nil]
      exact ⟨left', hstep⟩

theorem parse_expected {c : Cursor} {left : Left} {rest : Bytes}
    (ha : Aligned c.framer left rest)
    (hk : Foreseen Expected c.machine left.units (parse c).1 c.framer.held) :
    Each Expected c.machine (parse c).1 := by
  unfold parse at hk ⊢
  induction c using decodeLoop.run_induction generalizing left with
  | stop c hstop =>
    rw [decodeLoop.run_of_none hstop]
    trivial
  | turn c c' out hturn ih =>
    rw [decodeLoop.run_of_some hturn] at hk ⊢
    have hout := turn_expected ha hk hturn
    obtain ⟨left', hstep⟩ := turn_advanced ha hout hturn
    rw [hstep.units] at hk
    have hk' := hk.drop hstep.held
    rw [← hstep.machine] at hk'
    refine each_append.mpr ⟨hout, ?_⟩
    rw [← hstep.machine]
    exact ih hstep.aligned hk'

/-- What stops the loop, if not an exception: the next unit is not all there. -/
theorem held_lt_of_turn {c : Cursor} {left : Left} {rest : Bytes} (ha : Aligned c.framer left rest)
    (hr : c.raised = none) (hstop : c.turn = none) {u : Decoded} {us : List Decoded}
    (hu : left.units = u :: us) : c.framer.held < u.wire.length := by
  by_contra hge
  obtain ⟨hfields, _⟩ := ha
  cases left with
  | frames fs =>
    obtain ⟨hheader, hzero, _⟩ := hfields
    cases fs with
    | nil => simp at hu
    | cons fr fs =>
      obtain rfl : Decoded.frame fr.header fr.body = u := by
        simpa [Left.units, Frame.units] using (List.cons.inj hu).1
      simp only [Framer.held, hheader, Decoded.wire, List.length_append, length_headerBytes] at hge
      rw [Cursor.turn_of_header hr hzero hheader (by simp only [RESPONSE_HDRLEN]; omega)] at hstop
      cases hstop
  | body fr fs =>
    obtain ⟨hheader, hzero, _⟩ := hfields
    obtain rfl : Decoded.frame fr.header fr.body = u := by
      simpa [Left.units, Frame.units] using (List.cons.inj hu).1
    simp only [Framer.held, hheader, Decoded.wire, List.length_append, length_headerBytes,
      fr.body_length, RESPONSE_HDRLEN] at hge
    rw [Cursor.turn_of_body hr hzero hheader (by omega)] at hstop
    cases hstop
  | trailer fr fs =>
    obtain ⟨hheader, hneed, hne, _⟩ := hfields
    obtain rfl : Decoded.trailer fr.sid fr.trailer = u := (List.cons.inj hu).1
    have hpos : c.framer.needTrailer ≠ 0 := by
      rw [hneed]
      simpa using hne
    simp only [Framer.held, hheader, Decoded.wire] at hge
    have hall : ¬ (c.framer.buffer.length : Int) < c.framer.needTrailer := by omega
    simp [Cursor.turn, hr, hpos, hall] at hstop

/-- With the whole stream received, only the end of it stops the loop. -/
theorem turn_of_left {c : Cursor} {left : Left} (ha : Aligned c.framer left [])
    (hr : c.raised = none) (hstop : c.turn = none) : left = .frames [] := by
  obtain ⟨hfields, hbytes⟩ := ha
  rw [List.append_nil] at hbytes
  cases left with
  | frames fs =>
    obtain ⟨hheader, hzero, _⟩ := hfields
    cases fs with
    | nil => rfl
    | cons fr fs =>
      have hlen : ¬ c.framer.buffer.length < 8 := by
        rw [hbytes]
        simp [Left.bytes, Frame.wire]
      simp [Cursor.turn, hr, hheader, hzero, RESPONSE_HDRLEN, hlen] at hstop
  | body fr fs =>
    obtain ⟨hheader, hzero, _⟩ := hfields
    have hlen : ¬ c.framer.buffer.length < fr.header.dlen := by
      rw [hbytes, ← fr.body_length]
      simp [Left.bytes]
    simp [Cursor.turn, hr, hheader, hzero, hlen] at hstop
  | trailer fr fs =>
    obtain ⟨hheader, hneed, hne, _⟩ := hfields
    have hlen : ¬ (c.framer.buffer.length : Int) < fr.trailer.length := by
      have hle : fr.trailer.length ≤ c.framer.buffer.length := by
        rw [hbytes]
        simp [Left.bytes]
      omega
    simp [Cursor.turn, hr, hneed, hne, hlen] at hstop

/-- What a frame makes a quiet framer expect is not negative. -/
theorem expecting_nonneg (m : MachineState) (fr : Frame) {f : Framer} (hn : f.needTrailer = 0)
    (hfor : f.trailerFor = none) :
    0 ≤ (expecting f (m.owes fr.header.sid fr.header.status fr.body)).needTrailer := by
  by_cases hd : declares fr.header fr.body = 0
  · rw [expecting_of_not_declares m hd hn hfor]
    exact Int.le_of_eq hn.symm
  · rw [owes_of_declares m hd]
    split
    · simp [expecting, Framer.expect, fr.trailer_length]
    · simp [expecting, hn]

/-- On an aligned framer the fast path does what the loop would. -/
theorem decode_eq_parse (m : MachineState) {f : Framer} {left : Left} {data rest : Bytes}
    (ha : Aligned f left (data ++ rest)) :
    decode m f data = parse (Cursor.feed ⟨m, f, none⟩ data) := by
  apply decode_eq_parse_of
  intro hbuffer hheader hzero hlen
  obtain ⟨hfields, hbytes⟩ := ha
  rw [hbuffer, List.nil_append] at hbytes
  cases left with
  | body fr fs => simp [Framer.Matches, hheader] at hfields
  | trailer fr fs =>
    obtain ⟨_, hneed, hne, _⟩ := hfields
    rw [hzero] at hneed
    exact absurd (List.eq_nil_of_length_eq_zero (by omega)) hne
  | frames fs =>
    obtain ⟨fr, fs', rfl, hread, hrest⟩ := header_of_frames hbytes hlen
    refine ⟨fr.header, hread, fun hexact => ?_⟩
    have hdlen : (data.drop 8).length = fr.body.length := by
      rw [List.length_drop, hexact, fr.body_length]
      simp [RESPONSE_HDRLEN]
    have hbody : data.drop RESPONSE_HDRLEN = fr.body := by
      have hsplit := split_of_append_eq fr.body (fr.trailer ++ fs'.flatMap Frame.wire)
        (by simpa [Left.bytes] using hrest) (Nat.le_of_eq hdlen.symm)
      rw [RESPONSE_HDRLEN, ← hsplit.1, ← hdlen, List.take_length]
    rw [hbody]
    exact expecting_nonneg m fr hzero hfields.2.2

theorem Aligned.feed {f : Framer} {left : Left} {data rest : Bytes} (m : MachineState)
    (ha : Aligned f left (data ++ rest)) :
    Aligned (Cursor.feed ⟨m, f, none⟩ data).framer left rest := by
  constructor
  · have hfields := ha.fields
    cases left <;> simpa [Framer.Matches, Cursor.feed] using hfields
  · have hbytes := ha.bytes
    simpa [Cursor.feed] using hbytes

/-- What one `receive_data` decodes on an aligned link. -/
theorem decode_advanced (m : MachineState) {f : Framer} {left : Left} {data rest : Bytes}
    (ha : Aligned f left (data ++ rest)) (hk : Each Expected m (decode m f data).1) :
    ∃ left', Advanced rest (Cursor.feed ⟨m, f, none⟩ data) left (decode m f data).1
      (decode m f data).2 left' := by
  rw [decode_eq_parse m ha] at hk ⊢
  exact parse_advanced (ha.feed m) rfl hk

theorem decode_expected (m : MachineState) {f : Framer} {left : Left} {data rest : Bytes}
    (ha : Aligned f left (data ++ rest))
    (hk : Foreseen Expected m left.units (decode m f data).1 (f.held + data.length)) :
    Each Expected m (decode m f data).1 := by
  rw [decode_eq_parse m ha] at hk ⊢
  refine parse_expected (ha.feed m) ?_
  have hheld : (Cursor.feed ⟨m, f, none⟩ data).framer.held = f.held + data.length := by
    simp only [Framer.held, Cursor.feed, List.length_append]
    omega
  rwa [hheld]

end XrdClient.Proto
