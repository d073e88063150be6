/-
  Proto/Bounds.lean --- how much a link can be made to owe and to buffer.

  A header declares its body as an unsigned number and is checked against
  `MAX_RESPONSE_BODY`.  A status block declares its data as a *signed* number and
  is not checked at all, and the framer then compares and slices with it.

  Everything here is about arbitrary bytes.  A cursor that the loop has reached,
  or would reach if it were resumed after an exception, is `Reached`.
-/
import Mathlib
import XrdClient.Proto.Run
import XrdClient.Proto.Framing

set_option autoImplicit false

namespace XrdClient.Proto

open XrdClient.Lib
open MachineState (owes expecting)

/-! ## Cursors the loop goes through -/

/-- One turn, taken up again if an exception had left the loop. -/
def Cursor.Resumes (c c' : Cursor) : Prop :=
  ∃ out, Cursor.turn { c with raised := none } = some (out, c')

/-- The cursors between the first turn on a buffer and the last. -/
def Cursor.Reaches : Cursor → Cursor → Prop := Relation.ReflTransGen Cursor.Resumes

theorem Cursor.resumes_of_turn {c c' : Cursor} {out : List Decoded}
    (h : c.turn = some (out, c')) : c.Resumes c' := by
  refine ⟨out, ?_⟩
  have hr := (Cursor.turn_cases h).1
  cases c
  simp only at hr
  rwa [hr] at h

theorem parse_reaches (c : Cursor) : c.Reaches (parse c).2 := by
  refine decodeLoop.run_invariant (I := fun c' => c.Reaches c') ?_ Relation.ReflTransGen.refl
  intro s s' out hturn hs
  exact hs.tail (Cursor.resumes_of_turn hturn)

/-! ## What a link owes -/

/-- What a framer waits for is not negative and not past the ceiling. -/
structure Framer.Owes (f : Framer) : Prop where
  trailer_nonneg : 0 ≤ f.needTrailer
  trailer_le : f.needTrailer ≤ MAX_RESPONSE_BODY
  body_le : ∀ h, f.header = some h → h.dlen ≤ MAX_RESPONSE_BODY

/-- The buffered bytes that belong to the reply the framer is at. -/
def Framer.replyBytes (f : Framer) : Nat :=
  if f.needTrailer ≠ 0 then min f.buffer.length f.needTrailer.toNat
  else
    match f.header with
    | some h => min f.buffer.length h.dlen
    | none =>
        if f.buffer.length < RESPONSE_HDRLEN then f.buffer.length
        else min f.buffer.length
          (RESPONSE_HDRLEN + beNat ((f.buffer.drop 4).take 4))

/-- A link's obligations are bounded, and a trailer comes off the front of the
buffer. -/
structure Framer.Bounded (f : Framer) : Prop where
  owes : f.Owes
  reply : f.replyBytes ≤ MAX_RESPONSE_BODY + RESPONSE_HDRLEN
  slice : sliceTo f.buffer f.needTrailer = f.buffer.take f.needTrailer.toNat
  slice_del : sliceDel f.buffer f.needTrailer = f.buffer.drop f.needTrailer.toNat

/-- Nothing the cursor is about to read asks for too much or too little: a status
block that would be acted on declares a length from 0 to the ceiling, and a
header is not past the ceiling. -/
structure Cursor.InRange (c : Cursor) : Prop where
  status : ∀ h dlen sid, c.framer.header = some h → h.dlen ≤ c.framer.buffer.length →
    c.machine.owes h.sid h.status (c.framer.buffer.take h.dlen) = some (dlen, sid) →
    0 ≤ dlen ∧ dlen ≤ MAX_RESPONSE_BODY
  header : c.framer.needTrailer = 0 → c.framer.header = none →
    RESPONSE_HDRLEN ≤ c.framer.buffer.length → ∃ h, headerFields c.framer.buffer = .ok h

theorem Framer.Owes.of_empty (f : Framer) (h : f.header = none) (hn : f.needTrailer = 0) :
    f.Owes := by
  refine ⟨by omega, by omega, fun h' hh => ?_⟩
  rw [h] at hh
  cases hh

/-- One turn from a cursor in range. -/
theorem Cursor.Resumes.owes {c c' : Cursor} (hstep : c.Resumes c') (hc : c.framer.Owes)
    (hr : c.InRange) : c'.framer.Owes := by
  obtain ⟨out, hturn⟩ := hstep
  obtain ⟨_, ⟨htrailer, hlen, heq⟩ | ⟨hzero, hheader, hlen, _, heq⟩ |
    ⟨hd, hzero, hheader, hlen, heq⟩⟩ := Cursor.turn_cases hturn
  · have hfr : c'.framer.header = c.framer.header ∧ c'.framer.needTrailer = 0 := by
      unfold Cursor.takeTrailer at heq
      cases hfor : c.framer.trailerFor <;> simp only [hfor, Prod.mk.injEq] at heq <;>
        rw [heq.2] <;> exact ⟨rfl, rfl⟩
    exact ⟨by omega, by omega, fun h hh => hc.body_le h (by rw [← hfr.1, hh])⟩
  · obtain ⟨h, hread⟩ := hr.header hzero hheader hlen
    rw [heq]
    simp only [Cursor.readHeader, hread]
    refine ⟨hc.trailer_nonneg, hc.trailer_le, fun h' hh => ?_⟩
    simp only [Option.some.injEq] at hh
    rw [← hh]
    exact headerFields_dlen_le hread
  · simp only [Cursor.takeBody, Prod.mk.injEq] at heq
    rw [heq.2, MachineState.dispatch_eq]
    cases howes : c.machine.owes hd.sid hd.status (c.framer.buffer.take hd.dlen) with
    | none => exact ⟨hc.trailer_nonneg, hc.trailer_le, fun h' hh => by simp [expecting] at hh⟩
    | some t =>
      obtain ⟨dlen, sid⟩ := t
      have hrange := hr.status hd dlen sid hheader hlen howes
      exact ⟨hrange.1, hrange.2, fun h' hh => by simp [expecting] at hh⟩

/-- In range and owing no more than it should, a cursor is bounded. -/
theorem Framer.Owes.bounded {c : Cursor} (hc : c.framer.Owes) (hr : c.InRange) :
    c.framer.Bounded := by
  obtain ⟨n, hn⟩ := Int.eq_ofNat_of_zero_le hc.trailer_nonneg
  have hle : n ≤ MAX_RESPONSE_BODY := by
    have := hc.trailer_le
    omega
  refine ⟨hc, ?_, by rw [hn]; simp, by rw [hn]; simp⟩
  unfold Framer.replyBytes
  split
  · rw [hn, Int.toNat_natCast]
    omega
  · rename_i hzero
    have hzero' : c.framer.needTrailer = 0 := by simpa using hzero
    split
    · rename_i h hheader
      have := hc.body_le h hheader
      omega
    · rename_i hheader
      split
      · omega
      · rename_i hlen
        obtain ⟨h, hread⟩ := hr.header hzero' hheader (by omega)
        have hdlen := headerFields_dlen_le hread
        have heq : h.dlen = beNat ((c.framer.buffer.drop 4).take 4) := by
          unfold headerFields at hread
          simp only [List.drop_zero] at hread
          split at hread
          · cases hread
          · rw [← Except.ok.inj hread]
        omega

/-- Every cursor reached through cursors in range is bounded. -/
theorem Cursor.Reaches.bounded {c c' : Cursor} (hc : c.framer.Owes)
    (hrange : ∀ d, c.Reaches d → d.InRange) (hreach : c.Reaches c') : c'.framer.Bounded := by
  have howes : c'.framer.Owes := by
    induction hreach with
    | refl => exact hc
    | tail hab hstep ih => exact hstep.owes ih (hrange _ hab)
  exact howes.bounded (hrange c' hreach)

/-- The fast path is two turns of the loop. -/
theorem decode_reaches (m : MachineState) (f : Framer) (data : Bytes)
    (hr : (Cursor.feed ⟨m, f, none⟩ data).InRange) :
    (Cursor.feed ⟨m, f, none⟩ data).Reaches (decode m f data).2 := by
  unfold decode
  cases hw : wholeFrame m f data with
  | none => exact parse_reaches _
  | some result =>
    obtain ⟨hbuffer, hheader, hzero, hlen, hcases⟩ := wholeFrame_cases hw
    obtain ⟨e, herror, _⟩ | ⟨hd, c, _, _, hturn, hturn', _⟩ := hcases
    · obtain ⟨hd, hread⟩ := hr.header hzero hheader (by simpa [Cursor.feed, hbuffer] using hlen)
      simp only [Cursor.feed, hbuffer, List.nil_append, herror] at hread
      cases hread
    · exact (Relation.ReflTransGen.single (Cursor.resumes_of_turn hturn)).tail
        (Cursor.resumes_of_turn hturn')

/-! ## Runs -/

/-- Whatever a read makes the loop look at is in range; the other calls bring no
bytes in. -/
def ReadsInRange (m : SessionMachine) : Op → Prop
  | .receiveData link data =>
      ∀ c, (Cursor.feed ⟨m.core, m.framer link, none⟩ data).Reaches c → c.InRange
  | _ => True

theorem Framer.bounded_empty : ({} : Framer).Bounded := by
  refine ⟨.of_empty _ rfl rfl, ?_, ?_, ?_⟩ <;> simp [Framer.replyBytes, RESPONSE_HDRLEN,
    sliceTo, sliceDel, sliceIndex]

theorem owes_feed {m : MachineState} {f : Framer} (h : f.Owes) (data : Bytes) :
    (Cursor.feed ⟨m, f, none⟩ data).framer.Owes :=
  ⟨h.trailer_nonneg, h.trailer_le, h.body_le⟩

theorem step_bounded (m : SessionMachine) (op : Op) (hp : ReadsInRange m op)
    (h : ∀ link, (m.framer link).Bounded) : ∀ link, ((m.step op).1.framer link).Bounded := by
  intro link
  by_cases ht : SessionMachine.touchesFramer op = false
  · have heq : (m.step op).1.framer link = m.framer link := by
      simp only [SessionMachine.framer, SessionMachine.step_framers m ht]
    rw [heq]
    exact h link
  · cases op with
    | forgetPath pathid =>
      have heq : (m.step (.forgetPath pathid)).1.framer link =
          if link = pathid then {} else m.framer link :=
        SessionMachine.framer_del m _ pathid link
      rw [heq]
      split
      · exact Framer.bounded_empty
      · exact h link
    | receiveData pathid data =>
      have heq : (m.step (.receiveData pathid data)).1.framer link = _ :=
        SessionMachine.receiveData_framer m data pathid link
      rw [heq]
      split
      · split
        · split
          · exact h link
          · exact Framer.bounded_empty
        · exact Cursor.Reaches.bounded (owes_feed (h pathid).owes data) hp
            (decode_reaches m.core _ data (hp _ Relation.ReflTransGen.refl))
      · exact h link
    | _ => exact absurd rfl ht

/-- In every state of a run in which each status block that is acted on declares a
length from 0 to the ceiling and no header is past it, every link's obligations are
bounded, and so they are at every cursor the decode loop goes through. -/
theorem obligations_bounded (core : MachineState) (ops : List Op)
    (h : SessionMachine.EachCall ReadsInRange (.of core) ops) :
    (∀ link, (((SessionMachine.of core).run ops).framer link).Bounded) ∧
      ∀ link data, ReadsInRange ((SessionMachine.of core).run ops) (.receiveData link data) →
        ∀ c, (Cursor.feed ⟨((SessionMachine.of core).run ops).core,
          ((SessionMachine.of core).run ops).framer link, none⟩ data).Reaches c →
          c.framer.Bounded := by
  have hrun : ∀ link, (((SessionMachine.of core).run ops).framer link).Bounded := by
    refine SessionMachine.run_invariant (P := ReadsInRange)
      (I := fun m => ∀ link, (m.framer link).Bounded) step_bounded h ?_
    intro link
    by_cases hlink : link = 0
    · simpa [SessionMachine.of, SessionMachine.framer, Assoc.get_cons, hlink]
        using Framer.bounded_empty
    · simpa [SessionMachine.of, SessionMachine.framer, Assoc.get_cons, hlink]
        using Framer.bounded_empty
  refine ⟨hrun, fun link data hrange c hreach => ?_⟩
  exact hreach.bounded (owes_feed (hrun link).owes data) hrange

/-- A status block for stream 4 that declares -1 bytes of data. -/
def negativeStatus : Bytes :=
  headerBytes ⟨4, kXR_status, 16⟩ ++ [0, 0, 0, 0, 0, 4, 30, 0, 0, 0, 0, 0, 255, 255, 255, 255]

/-- The calls of a client that is sent one. -/
def negativeRun : List Op :=
  bringUp ++ [.submit ⟨3030, List.replicate 16 0, [], [], 0, [], 0⟩ [] false,
    .receiveData 0 negativeStatus]

/-- The framer is left owing -1 bytes, and the next read takes its "trailer" off
the wrong end of the buffer: nine bytes in, eight come off. -/
theorem negative_trailer_reached :
    ((newMachine.run negativeRun).framer 0).needTrailer = -1 ∧
      ¬ ((newMachine.run negativeRun).framer 0).Bounded ∧
      ((newMachine.run negativeRun).receiveLog 0 [1, 2, 3, 4, 5, 6, 7, 8, 9]).1 =
        [.trailer 4 [1, 2, 3, 4, 5, 6, 7, 8]] := by
  have hneed : ((newMachine.run negativeRun).framer 0).needTrailer = -1 := by decide
  refine ⟨hneed, fun h => ?_, by decide⟩
  have := h.owes.trailer_nonneg
  omega

/-- The handshake reply of a server: eight bytes of header, eight of body. -/
def handshakeReply : Bytes := [0, 0, 0, 0, 0, 0, 0, 8, 0, 0, 5, 32, 0, 0, 0, 1]

theorem obligations_bounded_after_handshake :
    (((SessionMachine.of (.bare .new)).run [.start, .receiveData 0 handshakeReply]).framer 0).Bounded := by
  refine (obligations_bounded (.bare .new) [.start, .receiveData 0 handshakeReply]
    ⟨trivial, fun c hc => ?_, trivial⟩).1 0
  -- The loop reads the header, then the body, then has nothing left.
  obtain rfl | ⟨c₁, ⟨out, h₁⟩, hc⟩ := Relation.ReflTransGen.cases_head hc
  · exact ⟨fun _ _ _ hh => (by cases hh), fun _ _ _ => ⟨⟨0, 0, 8⟩, by decide⟩⟩
  · obtain ⟨rfl, rfl⟩ := Prod.mk.inj (Option.some.inj h₁)
    obtain rfl | ⟨c₂, ⟨out, h₂⟩, hc⟩ := Relation.ReflTransGen.cases_head hc
    · refine ⟨fun h dlen sid hh _ howes => ?_, fun _ hh => (by cases hh)⟩
      obtain rfl := Option.some.inj hh
      cases howes
    · obtain ⟨rfl, rfl⟩ := Prod.mk.inj (Option.some.inj h₂)
      obtain rfl | ⟨c₃, ⟨out, h₃⟩, hc⟩ := Relation.ReflTransGen.cases_head hc
      · exact ⟨fun _ _ _ hh => (by cases hh), fun _ _ hlen => absurd hlen (by decide)⟩
      · cases h₃

end XrdClient.Proto
