/-
  Session/Served.lean --- what a bulk call takes off the wire, as parts of answers.

  Source: `session/bulk.py`, `_frame_header`, `_next_reply`, `_collect`, `_issue`.

  THE READER.  `At r frames s` says that a reader stands in front of `frames`, and
  that reading moved nothing else of `r`.  Notices and promises of an answer are taken
  on the way; then there is one frame, it answers a request still owed, and its body is
  next on the wire.

  THE SERVER.  A frame is a part of an answer, or none (`Sent.reply`), so the frames of
  a call and the requests that went out in it have a reading of their own
  (`Pipeline.answers`): which request each answer is for, and what it carries.

  What a call puts into its table for an id is the request that the answer on that id is
  for, and what has come for it is what the server sent for it.
-/
import XrdClient.Lib.Landed
import XrdClient.Lib.Pipeline
import XrdClient.Session.BulkSettle

set_option autoImplicit false

namespace XrdClient.Session

open XrdClient.Lib
open XrdClient.Lib.Act
open XrdClient.Proto

namespace Sent

/-- The part of an answer that a frame is: none for a notice, or for the promise of one. -/
def reply (fr : Sent) : Option (Lib.Reply Nat (Nat × Bytes) UInt8) :=
  match fr.answer with
  | none => none
  | some (sid, status, block) =>
      if status = kXR_waitresp then none
      else some ⟨sid, if status = kXR_oksofar then none else some (status, block), block⟩

/-- A header that is made of a body declares it. -/
theorem declared (sid status : Nat) (body : Bytes) : body.length = (Header.mk sid status body.length).dlen := rfl

/-- A frame with nothing behind it. -/
def plain (sid status : Nat) (body : Bytes) (hsid : sid < 0x10000) (hstatus : status < 0x10000)
    (hdlen : body.length < 0x100000000) (hdata : declares ⟨sid, status, body.length⟩ body = 0) :
    Sent where
  header := ⟨sid, status, body.length⟩
  body := body
  data := []
  sid_lt := hsid
  status_lt := hstatus
  dlen_lt := hdlen
  body_length := declared sid status body
  data_length := hdata

theorem reply_of_answer {fr : Sent} {sid status : Nat} {block : Bytes}
    (h : fr.answer = some (sid, status, block)) (hlater : status ≠ kXR_waitresp) :
    fr.reply = some ⟨sid, if status = kXR_oksofar then none else some (status, block), block⟩ := by
  unfold reply
  rw [h]
  exact if_neg hlater

theorem reply_of_notice {fr : Sent} (h : fr.answer = none) : fr.reply = none := by
  unfold reply
  rw [h]

theorem reply_of_promise {fr : Sent} {sid : Nat} {block : Bytes}
    (h : fr.answer = some (sid, kXR_waitresp, block)) : fr.reply = none := by
  unfold reply
  rw [h]
  exact if_pos rfl

end Sent

/-- Some frames, as parts of answers. -/
def replies (frames : List Sent) : List (Lib.Reply Nat (Nat × Bytes) UInt8) :=
  frames.filterMap Sent.reply

@[simp] theorem replies_nil : replies [] = [] := rfl

theorem replies_append (first second : List Sent) :
    replies (first ++ second) = replies first ++ replies second :=
  List.filterMap_append

theorem replies_singleton {fr : Sent} {p : Lib.Reply Nat (Nat × Bytes) UInt8} (h : fr.reply = some p) :
    replies [fr] = [p] := by
  simp [replies, h]

theorem replies_quiet {fr : Sent} (h : fr.reply = none) : replies [fr] = [] := by
  simp [replies, h]

namespace BulkReader

/-! ## What reading leaves alone -/

/-- `s` is `r`, but for what reading moves. -/
def Kept (r s : BulkReader) : Prop :=
  ∃ incoming ticks torn cancelBy expires notices,
    s = { r with
      incoming := incoming, ticks := ticks, torn := torn, cancelBy := cancelBy
      expires := expires, notices := notices }

theorem Kept.refl (r : BulkReader) : Kept r r :=
  ⟨r.incoming, r.ticks, r.torn, r.cancelBy, r.expires, r.notices, rfl⟩

theorem Kept.trans {r s t : BulkReader} (h : Kept r s) (h' : Kept s t) : Kept r t := by
  obtain ⟨_, _, _, _, _, _, rfl⟩ := h
  obtain ⟨incoming, ticks, torn, by_, expires, notices, rfl⟩ := h'
  exact ⟨incoming, ticks, torn, by_, expires, notices, rfl⟩

theorem Read.kept {fresh : Bool} {r s : BulkReader} {data : Bytes} (h : Read fresh r data s) :
    Kept r s := by
  obtain ⟨-, ticks, by_, heq⟩ := h
  exact ⟨s.incoming, ticks, _, by_, r.expires, r.notices, heq⟩

theorem Kept.untorn {r s : BulkReader} (h : Kept r s) : Kept r { s with torn := false } := by
  obtain ⟨incoming, ticks, _, by_, expires, notices, rfl⟩ := h
  exact ⟨incoming, ticks, false, by_, expires, notices, rfl⟩

theorem Kept.owed {r s : BulkReader} (h : Kept r s) : s.owed = r.owed := by
  obtain ⟨_, _, _, _, _, _, rfl⟩ := h
  rfl

/-- Between two frames, in front of `frames`. -/
structure At (r : BulkReader) (frames : List Sent) (s : BulkReader) : Prop where
  kept : Kept r s
  torn : s.torn = false
  incoming : s.incoming = wires frames

/-- In the frame `fr`, in front of the body of the answer that it comes down to. -/
structure Within (r : BulkReader) (reply : Header) (fr : Sent) (rest : List Sent)
    (s : BulkReader) : Prop where
  kept : Kept r s
  answer : ∃ block, fr.answer = some (reply.sid, reply.status, block) ∧
    block.length = reply.dlen ∧ s.incoming = block ++ (fr.data ++ wires rest)

/-- Behind the header of the first of `frames`, in front of its body. -/
def Headed (r : BulkReader) (frames : List Sent) (header : Header) (s : BulkReader) : Prop :=
  ∃ fr rest, frames = fr :: rest ∧ fr.header = header ∧ Kept r s ∧
    s.incoming = fr.body ++ (fr.data ++ wires rest)

/-- Behind the first of `frames`, which was a notice. -/
def Noted (r : BulkReader) (frames : List Sent) (s : BulkReader) : Prop :=
  ∃ fr rest, frames = fr :: rest ∧ fr.reply = none ∧ At r rest s

variable {r : BulkReader} {frames : List Sent}

theorem Headed.kept {header : Header} {s : BulkReader} (h : Headed r frames header s) : Kept r s := by
  obtain ⟨_, _, _, _, hkept, _⟩ := h
  exact hkept

/-! ## One frame -/

/-- A notice is noted, and nothing else. -/
theorem note_at (block : Bytes) :
    Sat (At r frames) (note block) (fun _ => At r frames) (Kept r) := by
  refine Sat.bind (decoded_sat (Q := fun _ => At r frames) _ (fun _ _ s hs => hs)
    fun s hs => hs.kept) fun notice => Sat.modify _ fun s hs => ⟨?_, hs.torn, hs.incoming⟩
  obtain ⟨incoming, ticks, torn, by_, expires, notices, rfl⟩ := hs.kept
  exact ⟨incoming, ticks, torn, by_, expires, _, rfl⟩

/-- A header is the next frame's, and the frame's body is behind it. -/
theorem header_at : Sat (At r frames) (do decoded (headerFields (← exact HEADER true)))
    (Headed r frames) (Kept r) := by
  refine Sat.bind (Q := fun data s => ∃ fr rest, frames = fr :: rest ∧ headerBytes fr.header = data ∧
    Kept r s ∧ s.incoming = fr.body ++ (fr.data ++ wires rest)) (exact_sat HEADER true ?_ ?_)
    fun data => decoded_sat _ ?_ ?_
  · intro s s' data hs hread hlen
    cases frames with
    | nil =>
      have hin := hs.incoming
      rw [hread.1, wires_nil, List.append_eq_nil_iff] at hin
      rw [hin.1] at hlen
      cases hlen
    | cons fr rest =>
      have hin := hs.incoming
      rw [wires_cons] at hin
      obtain ⟨hheader, hrest⟩ := hread.whole hin (hlen.trans (length_headerBytes _).symm)
      exact ⟨fr, rest, rfl, hheader, hs.kept.trans hread.kept, hrest⟩
  · intro s s' data hs hread
    exact hs.kept.trans hread.kept
  · rintro header hok s ⟨fr, rest, hframes, hbytes, hkept, hin⟩
    rw [← hbytes] at hok
    exact ⟨fr, rest, hframes, (eq_of_headerFields fr.sid_lt fr.status_lt fr.dlen_lt hok).symm,
      hkept, hin⟩
  · rintro s ⟨_, _, _, _, hkept, _⟩
    exact hkept

/-- `_frame_header`: behind a notice, or in front of an answer's body. -/
theorem frameHeader_at : Sat (At r frames) frameHeader
    (fun result s => ∃ fr rest, frames = fr :: rest ∧ match result with
      | none => fr.reply = none ∧ At r rest s
      | some reply => Within r reply fr rest s)
    (Kept r) := by
  have hassoc : frameHeader = (do
      let reply ← (do decoded (headerFields (← exact HEADER true)))
      if reply.status ≠ kXR_attn then pure (some reply)
      else if reply.dlen < ASYNC then do
        note (← body reply.dlen)
        pure none
      else do
        let head ← exact HEADER
        let info ← decoded (parseAttn head)
        if info.action = kXR_asynresp then do
          let inner ← decoded (headerFields (← exact HEADER))
          pure (some ⟨inner.sid, inner.status, reply.dlen - ASYNC⟩)
        else do
          note (head ++ (← body (reply.dlen - HEADER)))
          pure none) := by
    funext s
    unfold frameHeader
    rw [bind_apply, bind_apply, bind_apply]
    rcases exact HEADER true s with ⟨_ | data, s'⟩ <;> rfl
  rw [hassoc]
  refine Sat.bind header_at fun header => Sat.ite (fun hstatus => Sat.pure _ ?_) fun hattn => ?_
  · rintro s ⟨fr, rest, hframes, rfl, hkept, hin⟩
    exact ⟨fr, rest, hframes, hkept, fr.body, Sent.answer_plain hstatus, fr.body_length, hin⟩
  have hstatus : header.status = kXR_attn := not_not.mp hattn
  -- a notice is over behind its body
  have hover : ∀ (s₀ s : BulkReader) (data : Bytes), Headed r frames header s₀ →
      Read false s₀ data s → data.length = header.dlen →
      (∀ sid status block, MachineState.unwrapAttn data ≠ .inner sid status block) →
      Noted r frames { s with torn := false } := by
    rintro s₀ s data ⟨fr, rest, hframes, rfl, hkept, hin⟩ hread hlen hno
    obtain ⟨hbody, hrest⟩ := hread.whole hin (hlen.trans fr.body_length.symm)
    have hnone : fr.answer = none := Sent.answer_notice hstatus (hbody ▸ hno)
    have hdata : fr.data = [] := Sent.data_nil fun sid block => by rw [hnone]; simp
    rw [hdata, List.nil_append] at hrest
    exact ⟨fr, rest, hframes, Sent.reply_of_notice hnone, (hkept.trans hread.kept).untorn, rfl, hrest⟩
  have hnote : ∀ block : Bytes, Sat (Noted r frames) (do note block; pure (none : Option Header))
      (fun result s => ∃ fr rest, frames = fr :: rest ∧ match result with
        | none => fr.reply = none ∧ At r rest s
        | some reply => Within r reply fr rest s) (Kept r) := by
    refine fun block => Sat.of_each fun s₀ h₀ => ?_
    obtain ⟨fr, rest, hframes, hnone, hat⟩ := h₀
    exact Sat.bind ((@note_at _ rest block).pre fun s hs => hs ▸ hat) fun _ =>
      Sat.pure _ fun s hs => ⟨fr, rest, hframes, hnone, hs⟩
  refine Sat.ite (fun hshort => ?_) fun hlong => ?_
  · refine Sat.bind (Q := fun _ => Noted r frames) (body_sat _ ?_ ?_) hnote
    · intro s s' data hs hread hlen
      exact hover s s' data hs hread hlen (unwrapAttn_short (by rw [hlen]; exact hshort))
    · intro s s' data hs hread
      exact hs.kept.trans hread.kept
  have hdlen : ASYNC ≤ header.dlen := Nat.le_of_not_lt hlong
  -- what is read from here on starts with these eight bytes
  refine Sat.bind (Q := fun head s => ∃ s₀, Headed r frames header s₀ ∧ Read false s₀ head s ∧
    head.length = HEADER) (exact_sat _ _ ?_ ?_) fun head => ?_
  · intro s s' data hs hread hlen
    exact ⟨s, hs, hread, hlen⟩
  · intro s s' data hs hread
    exact hs.kept.trans hread.kept
  refine Sat.bind (Q := fun info s => parseAttn head = .ok info ∧ ∃ s₀, Headed r frames header s₀ ∧
    Read false s₀ head s ∧ head.length = HEADER) (decoded_sat _ (fun info h s hs => ⟨h, hs⟩) ?_) fun info => ?_
  · rintro s ⟨s₀, h₀, hread, -⟩
    exact h₀.kept.trans hread.kept
  refine Sat.ite (fun haction => ?_) fun haction => ?_
  · refine Sat.bind (Q := fun second s => parseAttn head = .ok info ∧ ∃ s₀,
      Headed r frames header s₀ ∧ Read false s₀ (head ++ second) s ∧ head.length = HEADER ∧
        second.length = HEADER) (exact_sat _ _ ?_ ?_) fun second => ?_
    · rintro s s' data ⟨hinfo, s₀, h₀, hread, hlen⟩ hmore hlen'
      exact ⟨hinfo, s₀, h₀, hread.trans hmore, hlen, hlen'⟩
    · rintro s s' data ⟨hinfo, s₀, h₀, hread, hlen⟩ hmore
      exact h₀.kept.trans (hread.trans hmore).kept
    refine Sat.bind (Q := fun inner s => ∃ fr rest, frames = fr :: rest ∧
      Within r ⟨inner.sid, inner.status, header.dlen - ASYNC⟩ fr rest s) (decoded_sat _ ?_ ?_)
      fun inner => Sat.pure _ fun s hs => hs
    · rintro inner hinner s ⟨hinfo, s₀, ⟨fr, rest, hframes, rfl, hkept, hin⟩, hread, hhead, hsecond⟩
      have h16 : (head ++ second).length = ASYNC := by
        rw [List.length_append, hhead, hsecond]
        rfl
      obtain ⟨hbody, hrest⟩ := hread.split hin (by rw [h16, fr.body_length]; exact hdlen)
      rw [h16] at hbody hrest
      refine ⟨fr, rest, hframes, hkept.trans hread.kept, fr.body.drop ASYNC, ?_, ?_, hrest⟩
      · show fr.answer = some (inner.sid, inner.status, fr.body.drop ASYNC)
        refine Sent.answer_deferred hstatus (by rw [← List.append_assoc]; exact hbody) hhead hsecond
          (fun info' hinfo' => ?_) hinner
        rw [hinfo] at hinfo'
        exact Except.ok.inj hinfo' ▸ haction
      · rw [List.length_drop, fr.body_length]
    · rintro s ⟨hinfo, s₀, h₀, hread, -⟩
      exact h₀.kept.trans hread.kept
  · refine Sat.bind (Q := fun _ => Noted r frames) (body_sat _ ?_ ?_) fun block => hnote (head ++ block)
    · rintro s s' data ⟨hinfo, s₀, h₀, hread, hhead⟩ hmore hlen
      have hall : (head ++ data).length = header.dlen := by
        rw [List.length_append, hhead, hlen]
        have : HEADER ≤ ASYNC := by decide
        omega
      exact hover s₀ s' (head ++ data) h₀ (hread.trans hmore) hall
        (unwrapAttn_other hhead hinfo haction)
    · rintro s s' data ⟨hinfo, s₀, h₀, hread, -⟩ hmore
      exact h₀.kept.trans (hread.trans hmore).kept

/-! ## The next answer -/

/-- `_deferred` moves the stall clock. -/
theorem deferred_at (block : Bytes) :
    Sat (At r frames) (deferred block) (fun _ => At r frames) (Kept r) := by
  have hclock : ∀ (s : BulkReader) ticks expires, At r frames s →
      At r frames { s with ticks := ticks, expires := expires } := by
    intro s ticks expires hs
    refine ⟨?_, hs.torn, hs.incoming⟩
    obtain ⟨incoming, _, torn, by_, _, notices, rfl⟩ := hs.kept
    exact ⟨incoming, ticks, torn, by_, expires, notices, rfl⟩
  refine Sat.bind (decoded_sat (Q := fun _ => At r frames) _ (fun _ _ s hs => hs)
    fun s hs => hs.kept) fun later => ?_
  refine Sat.bind (tick_sat fun s ticks hs => hclock s ticks s.expires hs) fun t => ?_
  exact Sat.modify _ fun s hs => hclock s s.ticks _ hs

/-- In front of the body of an answer: what came before it were notices and promises. -/
def Answering (r : BulkReader) (frames : List Sent) (reply : Header) (s : BulkReader) : Prop :=
  ∃ before fr rest, frames = before ++ fr :: rest ∧ replies before = [] ∧
    Within r reply fr rest s ∧ reply.sid ∈ r.owed ∧ reply.status ≠ kXR_waitresp

/-- The body of a frame that is no status block comes off the wire, and the frame with it. -/
theorem Within.past {reply : Header} {fr : Sent} {rest : List Sent} {s s' : BulkReader}
    {data : Bytes} (h : Within r reply fr rest s) (hread : Read false s data s')
    (hlen : data.length = reply.dlen) (hwhole : fr.data = []) :
    fr.answer = some (reply.sid, reply.status, data) ∧ At r rest { s' with torn := false } := by
  obtain ⟨block, hans, hblock, hin⟩ := h.answer
  obtain ⟨rfl, hrest⟩ := hread.whole hin (hlen.trans hblock.symm)
  rw [hwhole, List.nil_append] at hrest
  exact ⟨hans, (h.kept.trans hread.kept).untorn, rfl, hrest⟩

/-- Nothing is behind an answer whose status says that it is no status block. -/
theorem Within.data_nil {reply : Header} {fr : Sent} {rest : List Sent} {s : BulkReader}
    (h : Within r reply fr rest s) (hstatus : reply.status ≠ kXR_status) : fr.data = [] := by
  obtain ⟨block, hans, -, -⟩ := h.answer
  refine Sent.data_nil fun sid block' hno => hstatus ?_
  rw [hans] at hno
  simp only [Option.some.injEq, Prod.mk.injEq] at hno
  exact hno.2.1

/-- `_next_reply`. -/
theorem nextReplyLoop_at (fuel : Nat) : ∀ frames, Sat (At r frames) (nextReplyLoop fuel)
    (Answering r frames) (Kept r) := by
  induction fuel with
  | zero => exact fun frames => Sat.throw _ fun s hs => hs.kept
  | succ fuel ih =>
    intro frames
    -- a frame that is no answer is one of those before it
    have hmore : ∀ (fr : Sent) (rest : List Sent), frames = fr :: rest → fr.reply = none →
        Sat (At r rest) (nextReplyLoop fuel) (Answering r frames) (Kept r) := by
      rintro fr rest rfl hnone
      refine (ih rest).post fun reply s hs => ?_
      obtain ⟨before, fr', rest', rfl, hquiet, hwithin⟩ := hs
      refine ⟨fr :: before, fr', rest', rfl, ?_, hwithin⟩
      rw [← List.singleton_append, replies_append, replies_quiet hnone, hquiet, List.append_nil]
    refine Sat.bind frameHeader_at fun result => ?_
    cases result with
    | none =>
      refine Sat.of_each fun s₀ h₀ => ?_
      obtain ⟨fr, rest, hframes, hnone, hat⟩ := h₀
      exact (hmore fr rest hframes hnone).pre fun s hs => hs ▸ hat
    | some reply =>
      refine Sat.get_bind fun a => Sat.of_each fun s₀ h₀ => ?_
      obtain ⟨rfl, fr, rest, hframes, hwithin⟩ := h₀
      refine Sat.ite (fun _ => Sat.throw _ fun s hs => hs ▸ hwithin.kept) fun howed => ?_
      have howed : reply.sid ∈ r.owed := hwithin.kept.owed ▸ not_not.mp howed
      refine Sat.ite (fun hstatus => Sat.pure _ fun s hs => ?_) fun hstatus => ?_
      · exact hs ▸ ⟨[], fr, rest, hframes, rfl, hwithin, howed, hstatus⟩
      have hstatus : reply.status = kXR_waitresp := not_not.mp hstatus
      refine Sat.bind (Q := fun _ s => fr.reply = none ∧ At r rest s) (body_sat _ ?_ ?_)
        fun block => Sat.of_each fun s₁ h₁ => ?_
      · rintro s s' data rfl hread hlen
        have hdata : fr.data = [] := hwithin.data_nil (by rw [hstatus]; decide)
        obtain ⟨hans, hat⟩ := hwithin.past hread hlen hdata
        rw [hstatus] at hans
        exact ⟨Sent.reply_of_promise hans, hat⟩
      · rintro s s' data rfl hread
        exact hwithin.kept.trans hread.kept
      · exact Sat.bind ((@deferred_at _ rest block).pre fun s hs => hs ▸ h₁.2) fun _ =>
          hmore fr rest hframes h₁.1

theorem nextReply_at : Sat (At r frames) nextReply (Answering r frames) (Kept r) :=
  Sat.get_bind fun _ => (nextReplyLoop_at _ frames).pre fun _ hs => hs.2

/-! ## The record of a call

What a call leaves behind for others to see: the requests that went out, the pieces it
handed over and the ranges it reported. -/

structure Recorded (r s : BulkReader) : Prop where
  issued : s.issued = r.issued
  outgoing : s.outgoing = r.outgoing
  yielded : s.yielded = r.yielded
  stored : s.stored = r.stored
  declined : s.declined = r.declined

theorem Recorded.refl (r : BulkReader) : Recorded r r := ⟨rfl, rfl, rfl, rfl, rfl⟩

theorem Recorded.trans {r s t : BulkReader} (h : Recorded r s) (h' : Recorded s t) :
    Recorded r t :=
  ⟨h'.issued.trans h.issued, h'.outgoing.trans h.outgoing, h'.yielded.trans h.yielded,
    h'.stored.trans h.stored, h'.declined.trans h.declined⟩

theorem Kept.recorded {r s : BulkReader} (h : Kept r s) : Recorded r s := by
  obtain ⟨_, _, _, _, _, _, rfl⟩ := h
  exact ⟨rfl, rfl, rfl, rfl, rfl⟩

/-- The reader when a final answer on `sid` is in. -/
def without (r : BulkReader) (sid : Nat) : BulkReader :=
  { r with owed := r.owed.filter (· ≠ sid) }

/-- The reader when a request is out on `sid`. -/
def sent (r : BulkReader) (sid : Nat) (parts : List Bytes) (machine : MachineState) : BulkReader :=
  { r with
    machine := machine, outgoing := r.outgoing ++ parts.flatten
    owed := if sid ∈ r.owed then r.owed else r.owed ++ [sid], issued := r.issued ++ [sid] }

theorem At.refl {r : BulkReader} {frames : List Sent} (ht : r.torn = false)
    (hin : r.incoming = wires frames) : At r frames r :=
  ⟨.refl r, ht, hin⟩

theorem At.settled {s : BulkReader} (h : At r frames s) (sid : Nat) :
    At (r.without sid) frames { s with owed := s.owed.filter (· ≠ sid) } := by
  refine ⟨?_, h.torn, h.incoming⟩
  obtain ⟨incoming, ticks, torn, by_, expires, notices, rfl⟩ := h.kept
  exact ⟨incoming, ticks, torn, by_, expires, notices, rfl⟩

/-- Code of the caller moves the clock at most. -/
theorem callOut_at : Sat (At r frames) callOut (fun _ => At r frames) (Recorded r) := by
  refine Sat.bind (tick_sat fun s ticks hs => ⟨?_, hs.torn, hs.incoming⟩) fun t => ?_
  · obtain ⟨incoming, _, torn, by_, expires, notices, rfl⟩ := hs.kept
    exact ⟨incoming, ticks, torn, by_, expires, notices, rfl⟩
  · exact Sat.ite (fun _ => Sat.pure _ fun s hs => hs) fun _ => Sat.throw _ fun s hs =>
      hs.kept.recorded

/-- `_issue`: the request is out whole, or the call is over. -/
theorem issue_at (sid : Nat) (request : Request) : Sat (At r frames) (issue sid request)
    (fun _ s => ∃ parts machine, r.machine.framePartsFor request sid = (.ok parts, machine) ∧
      At (r.sent sid parts machine) frames s)
    (Recorded r) := by
  refine Sat.get_bind fun a => Sat.of_each fun s₀ h₀ => ?_
  obtain ⟨rfl, hat⟩ := h₀
  have hmachine : s₀.machine = r.machine := by
    obtain ⟨_, _, _, _, _, _, rfl⟩ := hat.kept
    rfl
  rw [hmachine]
  rcases hframe : r.machine.framePartsFor request sid with ⟨e | parts, machine⟩
  · refine Sat.modify_bind (M := Recorded r) (fun s hs => ?_) (Sat.throw _ fun s hs => hs)
    subst hs
    exact hat.kept.recorded.trans ⟨rfl, rfl, rfl, rfl, rfl⟩
  · have hframed : Recorded r { r with machine := machine } := ⟨rfl, rfl, rfl, rfl, rfl⟩
    refine Sat.modify_bind (M := At { r with machine := machine } frames) (fun s hs => ?_) ?_
    · subst hs
      refine ⟨?_, hat.torn, hat.incoming⟩
      obtain ⟨incoming, ticks, torn, by_, expires, notices, rfl⟩ := hat.kept
      exact ⟨incoming, ticks, torn, by_, expires, notices, rfl⟩
    refine Sat.bind (Q := fun _ => At { r with machine := machine } frames) (tick_sat fun s ticks hs =>
      ⟨?_, hs.torn, hs.incoming⟩) fun t => Sat.ite (fun _ => Sat.throw _ fun s hs => ?_) fun _ => ?_
    · obtain ⟨incoming, _, torn, by_, expires, notices, rfl⟩ := hs.kept
      exact ⟨incoming, ticks, torn, by_, expires, notices, rfl⟩
    · exact hframed.trans hs.kept.recorded
    refine Sat.modify_bind (M := fun s => ∃ s₁, At { r with machine := machine } frames s₁ ∧
      s = { s₁ with torn := true }) (fun s hs => ⟨s, hs, rfl⟩) (Sat.ite (fun _ => Sat.throw _ ?_)
        fun _ => Sat.modify _ ?_)
    · rintro s ⟨s₁, h₁, rfl⟩
      exact (hframed.trans h₁.kept.recorded).trans ⟨rfl, rfl, rfl, rfl, rfl⟩
    · rintro s ⟨s₁, h₁, rfl⟩
      refine ⟨parts, machine, rfl, ?_, rfl, h₁.incoming⟩
      obtain ⟨incoming, ticks, torn, by_, expires, notices, rfl⟩ := h₁.kept
      exact ⟨incoming, ticks, false, by_, expires, notices, rfl⟩

/-- What `_collect` does: one part of an answer is taken, and it is behind what its entry
had of it. -/
structure Collected (r : BulkReader) (frames : List Sent) (inflight : Assoc Nat InFlight)
    (result : Option Nat × Assoc Nat InFlight) (s : BulkReader) : Prop where
  taken : ∃ taken rest p entry, frames = taken ++ rest ∧ replies taken = [p] ∧ p.id ∈ r.owed ∧
    inflight.get p.id = some entry ∧ entry.dest.length + p.data.length ≤ entry.length ∧
    result.2 = inflight.set p.id { entry with dest := entry.dest ++ p.data } ∧
    (p.closing = none ∧ result.1 = none ∧ At r rest s ∨
      p.closing = some (kXR_ok, p.data) ∧ result.1 = some p.id ∧ At (r.without p.id) rest s)

/-- `_collect`. -/
theorem collect_at (inflight : Assoc Nat InFlight) : Sat (At r frames) (collect inflight)
    (Collected r frames inflight) (Recorded r) := by
  refine Sat.bind (nextReply_at.conseq (fun s hs => hs) (fun _ s hs => hs) fun s hs => hs.recorded)
    fun reply => Sat.of_each fun s₀ h₀ => ?_
  obtain ⟨before, fr, rest, rfl, hquiet, hwithin, howed, hlater⟩ := h₀
  refine Sat.ite (fun hdata => ?_) fun hother => ?_
  · cases hentry : inflight.get reply.sid with
    | none => exact Sat.throw _ fun s hs => hs ▸ hwithin.kept.recorded
    | some entry =>
      have hnil : fr.data = [] := hwithin.data_nil (by rcases hdata with h | h <;> rw [h] <;> decide)
      refine Sat.bind (Q := fun entry' s => ∃ data s', Read false s₀ data s ∧
        data.length = reply.dlen ∧ entry.dest.length + data.length ≤ entry.length ∧
        entry' = { entry with dest := entry.dest ++ data } ∧ s' = s) ?_ fun entry' => ?_
      · refine Sat.ite (fun _ => Sat.throw _ fun s hs => hs ▸ hwithin.kept.recorded) fun hfits => ?_
        refine Sat.bind (Q := fun data s => Read false s₀ data s ∧ data.length = reply.dlen)
          (exact_sat _ _ ?_ ?_) fun data => Sat.pure _ ?_
        · rintro s s' data rfl hread hlen
          exact ⟨hread, hlen⟩
        · rintro s s' data rfl hread
          exact (hwithin.kept.trans hread.kept).recorded
        · rintro s ⟨hread, hlen⟩
          exact ⟨data, s, hread, hlen, by rw [hlen]; exact Nat.le_of_not_lt hfits, rfl, rfl⟩
      · refine Sat.modify_bind (M := fun s => ∃ data, fr.answer = some (reply.sid, reply.status, data) ∧
          At r rest s ∧ entry.dest.length + data.length ≤ entry.length ∧
          entry' = { entry with dest := entry.dest ++ data }) ?_ (Sat.of_each fun s₁ h₁ => ?_)
        · rintro s ⟨data, _, hread, hlen, hfits, hentry', -⟩
          obtain ⟨hans, hat⟩ := hwithin.past hread hlen hnil
          exact ⟨data, hans, hat, hfits, hentry'⟩
        obtain ⟨data, hans, hat, hfits, rfl⟩ := h₁
        have htaken : replies (before ++ [fr]) = [⟨reply.sid,
            if reply.status = kXR_oksofar then none else some (reply.status, data), data⟩] := by
          rw [replies_append, hquiet, List.nil_append,
            replies_singleton (Sent.reply_of_answer hans hlater)]
        refine Sat.ite (fun hsofar => Sat.pure _ ?_) fun hsofar => ?_
        · rintro s rfl
          rw [if_pos hsofar] at htaken
          exact ⟨before ++ [fr], rest, _, entry, by simp, htaken, howed, hentry, hfits, rfl,
            .inl ⟨rfl, rfl, hat⟩⟩
        · rw [if_neg hsofar, hdata.resolve_right hsofar] at htaken
          refine Sat.modify_bind (M := At (r.without reply.sid) rest) ?_ (Sat.pure _ fun s hs => ?_)
          · rintro s rfl
            exact hat.settled reply.sid
          · exact ⟨before ++ [fr], rest, _, entry, by simp, htaken, howed, hentry, hfits, rfl,
              .inr ⟨rfl, rfl, hs⟩⟩
  · refine Sat.bind (Q := fun _ => Recorded r) (body_sat _ ?_ ?_) fun block =>
      Sat.modify_bind (M := Recorded r) (fun s hs => ?_) (Sat.throw _ fun s hs => hs)
    · rintro s s' data rfl hread hlen
      exact (hwithin.kept.trans hread.kept).untorn.recorded
    · rintro s s' data rfl hread
      exact (hwithin.kept.trans hread.kept).recorded
    · exact hs.trans ⟨rfl, rfl, rfl, rfl, rfl⟩

/-! ## The ends of a call -/

/-- `_begin`: distinct ids, as many as the depth, and a wire that is not torn. -/
theorem begin_at (hapart : r.machine.Apart) : Sat (fun s => s = r) begin
    (fun sids s => sids.Nodup ∧ sids.length = r.settings.depth ∧ Recorded r s ∧ s.torn = false ∧
      s.incoming = r.incoming ∧ s.owed = r.owed ∧ s.settings = r.settings)
    (Recorded r) := by
  refine Sat.get_bind fun a => Sat.ite (fun _ => Sat.throw _ fun s hs => hs.2 ▸ .refl r) fun _ =>
    Sat.of_each fun s₀ h₀ => ?_
  obtain ⟨rfl, rfl⟩ := h₀
  refine Sat.bind (Q := fun _ s => ∃ ticks, s = { s₀ with ticks := ticks }) ((tick_sat fun s ticks hs =>
    ?_).pre fun s hs => ⟨s₀.ticks, hs⟩) fun t => ?_
  · obtain ⟨_, rfl⟩ := hs
    exact ⟨ticks, rfl⟩
  refine Sat.modify_bind (M := fun s => Recorded s₀ s ∧ s.torn = false ∧ s.incoming = s₀.incoming ∧
    s.owed = s₀.owed ∧ s.settings = s₀.settings) ?_ ?_
  · rintro s ⟨ticks, rfl⟩
    exact ⟨⟨rfl, rfl, rfl, rfl, rfl⟩, rfl, rfl, rfl, rfl⟩
  have hdepth : ¬ s₀.settings.depth < 1 := Nat.not_lt_of_le s₀.settings.depth_pos
  obtain ⟨-, -, hlent⟩ := MachineState.leaseLoop_lent s₀.settings.depth s₀.machine [] hapart
    (by simp) (by simp)
  rcases hlease : s₀.machine.leaseSids s₀.settings.depth with ⟨e | sids, machine⟩
  all_goals
    unfold MachineState.leaseSids at hlease
    rw [if_neg hdepth] at hlease
    rw [hlease] at hlent
  · exact Sat.modify_bind (M := Recorded s₀) (fun s hs => hs.1.trans ⟨rfl, rfl, rfl, rfl, rfl⟩)
      (Sat.throw _ fun s hs => hs)
  · obtain ⟨hnodup, -, hlen⟩ := hlent sids rfl
    rw [List.length_nil, Nat.zero_add] at hlen
    refine Sat.modify_bind (M := fun s => Recorded s₀ s ∧ s.torn = false ∧ s.incoming = s₀.incoming ∧
      s.owed = s₀.owed ∧ s.settings = s₀.settings) ?_ (Sat.pure _ fun s hs => ⟨hnodup, hlen, hs⟩)
    rintro s ⟨hrec, ht, hin, ho, hset⟩
    exact ⟨hrec.trans ⟨rfl, rfl, rfl, rfl, rfl⟩, ht, hin, ho, hset⟩

theorem exact_recorded (size : Nat) (fresh : Bool) : Sat (Recorded r) (exact size fresh)
    (fun _ => Recorded r) (Recorded r) :=
  exact_sat _ _ (fun _ _ _ hs hread _ => hs.trans hread.kept.recorded)
    fun _ _ _ hs hread => hs.trans hread.kept.recorded

theorem body_recorded (size : Nat) :
    Sat (Recorded r) (body size) (fun _ => Recorded r) (Recorded r) :=
  body_sat _ (fun _ _ _ hs hread _ => hs.trans hread.kept.untorn.recorded)
    fun _ _ _ hs hread => hs.trans hread.kept.recorded

theorem decoded_recorded {α : Type} (x : Except ProtocolError α) :
    Sat (Recorded r) (decoded x) (fun _ => Recorded r) (Recorded r) :=
  decoded_sat _ (fun _ _ _ hs => hs) fun _ hs => hs

theorem note_recorded (block : Bytes) :
    Sat (Recorded r) (note block) (fun _ => Recorded r) (Recorded r) :=
  Sat.bind (decoded_recorded _) fun _ => Sat.modify _ fun _ hs => hs.trans ⟨rfl, rfl, rfl, rfl, rfl⟩

theorem frameHeader_recorded :
    Sat (Recorded r) frameHeader (fun _ => Recorded r) (Recorded r) := by
  refine Sat.bind (exact_recorded _ _) fun data => Sat.bind (decoded_recorded _) fun header => ?_
  refine Sat.ite (fun _ => Sat.pure _ fun s hs => hs) fun _ => Sat.ite (fun _ => ?_) fun _ => ?_
  · refine Sat.bind (body_recorded _) fun block => Sat.bind (note_recorded block) fun _ => ?_
    exact Sat.pure _ fun s hs => hs
  · refine Sat.bind (exact_recorded _ _) fun head => Sat.bind (decoded_recorded _) fun info => ?_
    refine Sat.ite (fun _ => ?_) fun _ => ?_
    · refine Sat.bind (exact_recorded _ _) fun second => Sat.bind (decoded_recorded _) fun inner => ?_
      exact Sat.pure _ fun s hs => hs
    · refine Sat.bind (body_recorded _) fun block => Sat.bind (note_recorded _) fun _ => ?_
      exact Sat.pure _ fun s hs => hs

theorem tick_recorded : Sat (Recorded r) tick (fun _ => Recorded r) (Recorded r) :=
  tick_sat fun _ _ hs => hs.trans ⟨rfl, rfl, rfl, rfl, rfl⟩

theorem nextReplyLoop_recorded (fuel : Nat) :
    Sat (Recorded r) (nextReplyLoop fuel) (fun _ => Recorded r) (Recorded r) := by
  induction fuel with
  | zero => exact Sat.throw _ fun s hs => hs
  | succ fuel ih =>
    refine Sat.bind frameHeader_recorded fun result => ?_
    cases result with
    | none => exact ih
    | some reply =>
      refine Sat.get_bind fun a => Sat.ite (fun _ => Sat.throw _ fun s hs => hs.2) fun _ => ?_
      refine Sat.ite (fun _ => Sat.pure _ fun s hs => hs.2) fun _ => ?_
      refine Sat.bind ((body_recorded _).pre fun s hs => hs.2) fun block => ?_
      refine Sat.bind (Sat.bind (decoded_recorded _) fun later => ?_) fun _ => ih
      exact Sat.bind tick_recorded fun t => Sat.modify _ fun s hs =>
        hs.trans ⟨rfl, rfl, rfl, rfl, rfl⟩

theorem discard_recorded (sink : Nat) : ∀ fuel left,
    Sat (Recorded r) (discard sink fuel left) (fun _ => Recorded r) (Recorded r) := by
  intro fuel
  induction fuel with
  | zero => exact fun left => Sat.pure _ fun s hs => hs
  | succ fuel ih =>
    intro left
    refine Sat.ite (fun _ => Sat.pure _ fun s hs => hs) fun _ => ?_
    exact Sat.bind (exact_recorded _ _) fun _ => ih _

theorem drainLoop_recorded (fuel : Nat) :
    Sat (Recorded r) (drainLoop fuel) (fun _ => Recorded r) (Recorded r) := by
  induction fuel with
  | zero => exact Sat.throw _ fun s hs => hs
  | succ fuel ih =>
    refine Sat.get_bind fun a => Sat.ite (fun _ => Sat.pure _ fun s hs => hs.2) fun _ => ?_
    refine Sat.bind (Sat.get_bind fun b => (nextReplyLoop_recorded _).pre fun s hs => hs.2.2) fun reply => ?_
    refine Sat.bind (discard_recorded _ _ _) fun _ => ?_
    refine Sat.modify_bind (M := Recorded r) (fun s hs => hs.trans ⟨rfl, rfl, rfl, rfl, rfl⟩) ?_
    refine Sat.bind (Sat.ite (fun _ => Sat.modify _ fun s hs => ?_) fun _ => Sat.pure _ fun s hs => hs)
      fun _ => ih
    exact hs.trans ⟨rfl, rfl, rfl, rfl, rfl⟩

theorem stopped_recorded : Sat (Recorded r) stopped (fun _ => Recorded r) (Recorded r) :=
  stopped_sat fun _ _ hs => hs.trans ⟨rfl, rfl, rfl, rfl, rfl⟩

theorem handBack_recorded (sids : List Nat) :
    Sat (Recorded r) (handBack sids) (fun _ => Recorded r) (Recorded r) := by
  refine Sat.get_bind fun a => Sat.modify_bind (M := Recorded r)
    (fun s hs => hs.2.trans ⟨rfl, rfl, rfl, rfl, rfl⟩) (Sat.ite (fun _ => Sat.modify _ fun s hs => ?_)
      fun _ => ?_)
  · exact hs.trans ⟨rfl, rfl, rfl, rfl, rfl⟩
  refine Sat.bind (Sat.ite (fun _ => stopped_recorded) fun _ => Sat.pure _ fun s hs => hs) fun _ => ?_
  exact Sat.ite (fun _ => Sat.modify _ fun s hs => hs.trans ⟨rfl, rfl, rfl, rfl, rfl⟩)
    fun _ => Sat.modify _ fun s hs => hs.trans ⟨rfl, rfl, rfl, rfl, rfl⟩

/-- `settle` adds nothing to the record. -/
theorem settle_recorded : Sat (Recorded r) settle (fun _ => Recorded r) (Recorded r) := by
  refine Sat.get_bind fun a => Sat.modify_bind (M := Recorded r)
    (fun s hs => hs.2.trans ⟨rfl, rfl, rfl, rfl, rfl⟩) (Sat.ite (fun _ => Sat.pure _ fun s hs => hs)
      fun _ => Sat.tryFinally ?_ (handBack_recorded _))
  refine Sat.ite (fun _ => Sat.pure _ fun s hs => hs) fun _ => Sat.bind stopped_recorded fun _ => ?_
  refine Sat.ite (fun _ => Sat.pure _ fun s hs => hs) fun _ => Sat.get_bind fun b => ?_
  exact (drainLoop_recorded _).pre fun s hs => hs.2

/-! ## The table of a read

An entry in flight is a request that its id is owed an answer for, and what has come of
the answer. -/

/-- The request an entry is for. -/
def InFlight.asked (entry : InFlight) : Nat × Nat := (entry.offset, entry.length)

/-- A read in progress: `asked` is what went out since `base`, in the order of `plan`,
`done` are the frames that were taken, and `answered` is what they completed. -/
structure Flying (base : BulkReader) (plan : List (Nat × Nat)) (asked : List (Nat × (Nat × Nat)))
    (done : List Sent) (answered : List (Lib.Answer (Nat × Nat) (Nat × Bytes) UInt8))
    (inflight : Assoc Nat InFlight) (r : BulkReader) : Prop where
  issued : r.issued = base.issued ++ asked.map Prod.fst
  planned : asked.map Prod.snd <+: plan
  matched : ∃ owed, Pipeline.Matched asked (replies done) owed answered ∧
    ∀ s, owed.get s = if s ∈ r.owed then (inflight.get s).map InFlight.asked else none
  data : ∀ s ∈ r.owed, ∃ entry, inflight.get s = some entry ∧
    entry.dest = Pipeline.gathered s (replies done)
  ok : ∀ a ∈ answered, a.verdict.1 = kXR_ok

section

variable {base : BulkReader} {plan : List (Nat × Nat)} {asked : List (Nat × (Nat × Nat))}
  {done : List Sent} {answered : List (Lib.Answer (Nat × Nat) (Nat × Bytes) UInt8)}
  {inflight : Assoc Nat InFlight}

theorem Flying.begun (hissued : r.issued = base.issued) (howed : r.owed = []) :
    Flying base plan [] [] [] [] r := by
  refine ⟨by simpa using hissued, by simp, ⟨[], .nil, fun s => by simp⟩, fun s hs => ?_, by simp⟩
  rw [howed] at hs
  cases hs

/-- The next request of the plan goes out on an id that nothing is owed on. -/
theorem Flying.ask (h : Flying base plan asked done answered inflight r) {sid offset length : Nat}
    (hfree : sid ∉ r.owed) (hplan : plan[asked.length]? = some (offset, length)) (slot : Nat)
    (parts : List Bytes) (machine : MachineState) :
    Flying base plan (asked ++ [(sid, offset, length)]) done answered
      (inflight.set sid ⟨offset, length, slot, []⟩) (r.sent sid parts machine) := by
  obtain ⟨owed, hmatched, htable⟩ := h.matched
  have hnone : owed.get sid = none := by rw [htable, if_neg hfree]
  have howed : (r.sent sid parts machine).owed = r.owed ++ [sid] := if_neg hfree
  refine ⟨?_, ?_, ⟨owed.set sid (offset, length), hmatched.ask hnone _, fun s => ?_⟩, ?_, h.ok⟩
  · show r.issued ++ [sid] = _
    rw [h.issued, List.map_append, ← List.append_assoc]
    rfl
  · rw [List.map_append]
    exact Pipeline.prefix_snoc h.planned (by rw [List.length_map]; exact hplan)
  · rw [howed, Assoc.get_set, Assoc.get_set]
    by_cases hs : s = sid
    · subst hs
      simp [InFlight.asked]
    · simp only [hs, if_false, List.mem_append, List.mem_singleton, or_false]
      exact htable s
  · intro s hs
    rw [howed, List.mem_append, List.mem_singleton] at hs
    by_cases heq : s = sid
    · subst heq
      exact ⟨_, Assoc.get_set_self _ _ _, (hmatched.clear s hnone).symm⟩
    · rw [Assoc.get_set_of_ne _ _ heq]
      exact h.data s (hs.resolve_right heq)

/-- A part is taken for the entry of its id, which is more or whole after it. -/
theorem Flying.collect (h : Flying base plan asked done answered inflight r) {s : BulkReader}
    {result : Option Nat × Assoc Nat InFlight} (hc : Collected r frames inflight result s) :
    ∃ taken rest sid entry data, frames = taken ++ rest ∧ taken ≠ [] ∧ sid ∈ r.owed ∧
      inflight.get sid = some entry ∧ (entry.dest ++ data).length ≤ entry.length ∧
      result.2 = inflight.set sid { entry with dest := entry.dest ++ data } ∧
      (result.1 = none ∧ At r rest s ∧ Flying base plan asked (done ++ taken) answered result.2 r ∨
        result.1 = some sid ∧ At (r.without sid) rest s ∧
          Flying base plan asked (done ++ taken)
            (answered ++ [⟨entry.asked, (kXR_ok, data), entry.dest ++ data⟩]) result.2
            (r.without sid)) := by
  obtain ⟨taken, rest, p, entry, rfl, htaken, howed, hentry, hfits, hresult, hcase⟩ := hc.taken
  obtain ⟨owed, hmatched, htable⟩ := h.matched
  have hreplies : replies (done ++ taken) = replies done ++ [p] := by rw [replies_append, htaken]
  have hrequest : owed.get p.id = some entry.asked := by
    rw [htable, if_pos howed, hentry, Option.map_some]
  obtain ⟨entry', hentry', hdest⟩ := h.data p.id howed
  rw [hentry, Option.some.injEq] at hentry'
  subst hentry'
  have hsome : taken ≠ [] := by
    rintro rfl
    cases htaken
  refine ⟨taken, rest, p.id, entry, p.data, rfl, hsome, howed, hentry,
    by rw [List.length_append]; exact hfits, hresult, ?_⟩
  rw [hresult]
  refine hcase.imp ?_ ?_
  · rintro ⟨hover, hnone, hat⟩
    refine ⟨hnone, hat, h.issued, h.planned, ⟨owed, ?_, fun i => ?_⟩, fun i hi => ?_, h.ok⟩
    · rw [hreplies]
      exact hmatched.part hrequest hover
    · rw [htable, Assoc.get_set]
      by_cases hi : i = p.id
      · subst hi
        rw [if_pos rfl, hentry]
        rfl
      · rw [if_neg hi]
    · rw [hreplies]
      by_cases heq : i = p.id
      · subst heq
        refine ⟨_, Assoc.get_set_self _ _ _, ?_⟩
        rw [Pipeline.gathered_part hover, ← hdest]
      · rw [Assoc.get_set_of_ne _ _ heq, Pipeline.gathered_snoc_of_ne _ (fun e => heq e.symm)]
        exact h.data i hi
  · rintro ⟨hover, hsome, hat⟩
    have hmem : ∀ i, i ∈ (r.without p.id).owed ↔ i ∈ r.owed ∧ i ≠ p.id := fun i => by
      simp [without]
    refine ⟨hsome, hat, h.issued, h.planned, ⟨owed.del p.id, ?_, fun i => ?_⟩, fun i hi => ?_, ?_⟩
    · rw [hreplies, hdest]
      exact hmatched.last hrequest hover
    · rw [Assoc.get_del, Assoc.get_set]
      by_cases hi : i = p.id
      · simp [hmem, hi]
      · simp only [hi, if_false, hmem, ne_eq, not_false_eq_true, and_true]
        exact htable i
    · obtain ⟨hin, hne⟩ := (hmem i).mp hi
      rw [hreplies, Assoc.get_set_of_ne _ _ hne, Pipeline.gathered_snoc_of_ne _ (fun e => hne e.symm)]
      exact h.data i hin
    · intro a ha
      rcases List.mem_append.mp ha with ha | ha
      · exact h.ok a ha
      · rw [List.mem_singleton.mp ha]

/-- An entry that nothing is owed for may go. -/
theorem Flying.del (h : Flying base plan asked done answered inflight r) {sid : Nat}
    (hfree : sid ∉ r.owed) : Flying base plan asked done answered (inflight.del sid) r := by
  have hget : ∀ i ∈ r.owed, (inflight.del sid).get i = inflight.get i := fun i hi =>
    Assoc.get_del_of_ne _ fun e => hfree (e ▸ hi)
  obtain ⟨owed, hmatched, htable⟩ := h.matched
  refine ⟨h.issued, h.planned, ⟨owed, hmatched, fun i => ?_⟩, fun i hi => ?_, h.ok⟩
  · rw [htable]
    by_cases hi : i ∈ r.owed
    · rw [if_pos hi, if_pos hi, hget i hi]
    · rw [if_neg hi, if_neg hi]
  · rw [hget i hi]
    exact h.data i hi

/-- With nothing owed, every request that went out has its answer. -/
theorem Flying.landed (h : Flying base plan asked done answered inflight r) (howed : r.owed = []) :
    Pipeline.Matched asked (replies done) [] answered := by
  obtain ⟨owed, hmatched, htable⟩ := h.matched
  have hnil : owed = [] := Assoc.eq_nil_of_get fun s => by rw [htable, howed]; rfl
  exact hnil ▸ hmatched

end

/-! ## A whole call -/

/-- Between two calls, on a link that carries `frames`. -/
structure Ready (r : BulkReader) (frames : List Sent) : Prop where
  owed : r.owed = []
  apart : r.machine.Apart
  incoming : r.incoming = wires frames

/-- The requests of a call that went from `r` to `r'`: each id that was used in it, with the
request of `plan` that it was used for. -/
def asked {ρ : Type} (plan : List ρ) (r r' : BulkReader) : List (Nat × ρ) :=
  (r'.issued.drop r.issued.length).zip plan

theorem asked_eq {ρ : Type} {plan : List ρ} {r r' : BulkReader} {sent : List (Nat × ρ)}
    (hissued : r'.issued = r.issued ++ sent.map Prod.fst) (hplan : sent.map Prod.snd <+: plan) :
    asked plan r r' = sent := by
  obtain ⟨rest, rfl⟩ := hplan
  unfold asked
  rw [hissued, List.drop_left]
  have hlen : (sent.map Prod.fst).length = (sent.map Prod.snd).length := by simp
  rw [show sent.map Prod.fst = sent.map Prod.fst ++ [] from (List.append_nil _).symm,
    List.zip_append hlen, List.zip_nil_left, List.append_nil]
  exact (List.zip_of_prod rfl rfl).symm

/-- The data that the server gave for the requests of a read. -/
def served (sent : List (Nat × (Nat × Nat))) (frames : List Sent) : List (Landed UInt8) :=
  ((Pipeline.answers sent (replies frames)).filter fun a => a.verdict.1 = kXR_ok).map
    fun a => (a.request, a.data)

/-- A length cut into chunks. -/
def chunks (chunk length : Nat) : List (Nat × Nat) :=
  (List.range ((length + chunk - 1) / chunk)).map fun i => (i * chunk, min chunk (length - i * chunk))

theorem getElem?_chunks {chunk length i : Nat} (hchunk : 0 < chunk) (h : i * chunk < length) :
    (chunks chunk length)[i]? = some (i * chunk, min chunk (length - i * chunk)) := by
  have hcount : i < (length + chunk - 1) / chunk := by
    rw [Nat.lt_iff_add_one_le, Nat.le_div_iff_mul_le hchunk, Nat.succ_mul]
    omega
  rw [chunks, List.getElem?_map, List.getElem?_range hcount, Option.map_some]

/-- The chunks asked for so far end where the next one starts. -/
theorem chunks_prefix_le {chunk length : Nat} (hchunk : 0 < chunk) {first : List (Nat × Nat)}
    (h : first <+: chunks chunk length) {x : Nat × Nat} (hx : x ∈ first) :
    x.1 + x.2 ≤ min (first.length * chunk) length := by
  obtain ⟨i, hi, rfl⟩ := List.getElem_of_mem hx
  obtain ⟨rest, hrest⟩ := h
  have hget : (chunks chunk length)[i]? = some first[i] := by
    rw [← hrest, List.getElem?_append_left hi, List.getElem?_eq_getElem hi]
  have hcount : i < (length + chunk - 1) / chunk := by
    by_contra hno
    rw [chunks, List.getElem?_map, List.getElem?_eq_none (by simpa using Nat.le_of_not_lt hno)] at hget
    cases hget
  have hlt : i * chunk < length := by
    have := Nat.mul_le_of_le_div chunk (i + 1) _ hcount
    rw [Nat.succ_mul] at this
    omega
  rw [getElem?_chunks hchunk hlt, Option.some.injEq] at hget
  rw [← hget]
  have hnext : (i + 1) * chunk ≤ first.length * chunk := Nat.mul_le_mul_right chunk hi
  rw [Nat.succ_mul] at hnext
  dsimp only
  omega

/-- A reader of four bytes at a time, two requests in flight. -/
def twoInFlight : BulkSettings where
  handle := [0, 0, 0, 1]
  chunk := 4
  depth := 2
  stallDeadline := 0
  waitBudget := 0
  chunk_pos := fourAtATime.chunk_pos
  chunk_le := fourAtATime.chunk_le
  depth_pos := by decide

/-- A reader on a fresh connection that carries `frames`, in a world that goes well. -/
def fresh (frames : List Sent) : BulkReader :=
  made twoInFlight (newMachine.run bringUp).core (wires frames) (List.replicate 24 well)

theorem fresh_ready (frames : List Sent) : Ready (fresh frames) frames := by
  have hheld : SessionMachine.EachCall SessionMachine.Held newMachine bringUp :=
    ⟨trivial, trivial, trivial, trivial, trivial⟩
  have hmade : newMachine.core.Pooled :=
    (SessionMachine.made_pooled MachineState.bareEnv "server".toList 1094 {} "user".toList false []).1
  exact ⟨rfl, (SessionMachine.run_pooled hheld hmade).apart, rfl⟩

/-- The first of two reads, answered in full. -/
def fullFirst : Sent :=
  .plain 5 kXR_ok [1, 2, 3, 4] (by decide) (by decide) (by decide) (by decide)

/-- The second read, answered in full. -/
def fullSecond : Sent :=
  .plain 4 kXR_ok [5, 6, 7, 8] (by decide) (by decide) (by decide) (by decide)

/-- The file that both are answered from. -/
def eightBytes : Bytes := [1, 2, 3, 4, 5, 6, 7, 8]

/-- Two reads, answered in full the other way round. -/
def swapped : BulkReader := fresh [fullSecond, fullFirst]

end BulkReader

end XrdClient.Session
