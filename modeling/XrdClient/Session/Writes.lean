/-
  Session/Writes.lean --- what a pipelined write accounts for.

  Source: `session/bulk.py`, `BulkReader.write_chunks`, `_write_batch`, `_write_answer`.

  THE SENDS.  The pieces go out in order, each at the start plus what the pieces before it
  held, and the wire carries their requests and nothing else.

  THE ANSWERS.  An answer names its stream, and the table of spans says which piece it is
  for.  What is reported through `acknowledged` and `waited` are the spans of the pieces that
  the server answered so, in the order of the answers, and the count is what was acknowledged.

  THE END.  A refusal is kept while the window drains, and raised when nothing is owed any
  more.  What ends the exchange before that is raised in its place: the link, the clocks, an
  answer that cannot be taken, the caller's own code, and an answer that a strict caller does
  not expect.

  The call with a log (`writeChunksLogged`) is the same call; the log has the order of what
  was sent and what was answered.
-/
import XrdClient.Lib.Logged
import XrdClient.Session.Served

set_option autoImplicit false

namespace XrdClient.Session

open XrdClient.Lib
open XrdClient.Lib.Act
open XrdClient.Proto

/-- What a refused request raises. -/
def BulkError.isRefusal : BulkError → Bool
  | .refused _ => true
  | .unsupported _ => true
  | _ => false

namespace BulkReader

/-! ## What the wire raises is no refusal -/

/-- What ends an exchange before its answers are in. -/
def Interrupts (e : BulkError) : Prop := e.isRefusal = false

theorem tick_raises : Raises tick Interrupts := by
  intro r e r' h
  unfold tick at h
  split at h <;> cases h

theorem checkClocks_raises (t : Tick) (outstanding : Nat) :
    Raises (checkClocks t outstanding) Interrupts := by
  have habandon : Raises (abandonNow t) Interrupts :=
    .bind .get fun _ => .ite (.pure _) (.bind (.modify _) fun _ => .pure _)
  refine .bind (.ite habandon (.pure _)) fun gone => .ite (.throw rfl) (.bind .get fun r => ?_)
  exact .ite (.throw rfl) (.ite (.throw rfl) (.pure _))

theorem fill_raises (fresh : Bool) : ∀ fuel left got, Raises (fill fresh fuel left got) Interrupts := by
  intro fuel
  induction fuel with
  | zero => exact fun left got => .throw rfl
  | succ fuel ih =>
    intro left got
    refine .ite (.pure _) (.bind tick_raises fun t => .bind (checkClocks_raises t left) fun _ => ?_)
    cases t.received with
    | nothingYet => exact ih left got
    | hangsUp => exact .throw rfl
    | fails => exact .throw rfl
    | bytes n =>
      refine .bind (fun r e r' h => by cases h) fun read => .ite (.throw rfl) ?_
      exact .bind (.modify _) fun _ => ih _ _

theorem exact_raises (size : Nat) (fresh : Bool) : Raises (exact size fresh) Interrupts :=
  .bind .get fun _ => fill_raises fresh _ _ _

theorem body_raises (size : Nat) : Raises (body size) Interrupts :=
  .bind (exact_raises size false) fun _ => .bind (.modify _) fun _ => .pure _

theorem decoded_raises {α : Type} (x : Except ProtocolError α) : Raises (decoded x) Interrupts := by
  cases x with
  | ok a => exact .pure a
  | error e => exact .throw rfl

theorem note_raises (block : Bytes) : Raises (note block) Interrupts :=
  .bind (decoded_raises _) fun _ => .modify _

theorem frameHeader_raises : Raises frameHeader Interrupts := by
  refine .bind (exact_raises _ _) fun data => .bind (decoded_raises _) fun header => ?_
  refine .ite (.pure _) (.ite (.bind (body_raises _) fun block => .bind (note_raises block) fun _ =>
    .pure _) (.bind (exact_raises _ _) fun head => .bind (decoded_raises _) fun info => ?_))
  refine .ite (.bind (exact_raises _ _) fun second => .bind (decoded_raises _) fun inner => .pure _) ?_
  exact .bind (body_raises _) fun block => .bind (note_raises _) fun _ => .pure _

theorem nextReply_raises : Raises nextReply Interrupts := by
  have hloop : ∀ fuel, Raises (nextReplyLoop fuel) Interrupts := by
    intro fuel
    induction fuel with
    | zero => exact .throw rfl
    | succ fuel ih =>
      refine .bind frameHeader_raises fun result => ?_
      cases result with
      | none => exact ih
      | some reply =>
        refine .bind .get fun r => .ite (.throw rfl) (.ite (.pure _) ?_)
        refine .bind (body_raises _) fun block => .bind ?_ fun _ => ih
        exact .bind (decoded_raises _) fun later => .bind tick_raises fun t => .modify _
  exact .bind .get fun r => hloop _

theorem issue_raises (sid : Nat) (request : Request) : Raises (issue sid request) Interrupts := by
  refine .bind .get fun r => ?_
  rcases r.machine.framePartsFor request sid with ⟨e | parts, machine⟩
  · exact .bind (.modify _) fun _ => .throw rfl
  · refine .bind (.modify _) fun _ => .bind tick_raises fun t => .ite (.throw rfl) ?_
    exact .bind (.modify _) fun _ => .ite (.throw rfl) (.modify _)

/-! ## The call with a log -/

/-- What `write_chunks` sends and what it is answered. -/
inductive WriteEvent where
  /-- A write of `piece` at `offset` is out on `sid`. -/
  | sent (sid offset : Nat) (piece : Bytes)
  /-- The answer on `sid` is in. -/
  | answered (sid status : Nat) (block : Bytes)
  deriving DecidableEq

abbrev LoggedWrite : Type → Type := Act (BulkReader × List WriteEvent) BulkError

/-- `_write_batch`. -/
def writeBatchLogged (check : Bool) : List Bytes → Writing → LoggedWrite Writing
  | source, l =>
      match l.freeSids with
      | [] => pure { l with source := source }
      | sid :: sids => do
          lift callOut
          match source with
          | [] => pure { l with source := [], exhausted := true }
          | piece :: source =>
              if piece = [] then writeBatchLogged check source l
              else do
                let r ← lift Act.get
                if r.settings.chunk < piece.length then Act.throw .chunkTooLong
                else do
                  lift (issue sid (writeRequest r.settings.handle l.offset piece))
                  emit [.sent sid l.offset piece]
                  let l := { l with
                    freeSids := sids, pending := l.pending.set sid (l.offset, piece.length)
                    offset := l.offset + piece.length }
                  lift (callOutIf check)
                  writeBatchLogged check source l

/-- `if not exhausted and failure is None: …`. -/
def writeMoreLogged (check : Bool) (l : Writing) : LoggedWrite Writing :=
  if l.exhausted = false ∧ l.failure = none then writeBatchLogged check l.source l else pure l

/-- The loop of `write_chunks`. -/
def writeLoopLogged (replies : WriteReplies) : Nat → Writing → LoggedWrite Nat
  | 0, _ => Act.throw (.closed HEADER)
  | fuel + 1, l => do
      let l ← writeMoreLogged replies.check l
      if l.pending = [] then
        match l.failure with
        | some e => Act.throw e
        | none => pure l.acked
      else do
        let reply ← lift nextReply
        let block ← lift (body reply.dlen)
        if reply.status = kXR_oksofar then writeLoopLogged replies fuel l
        else do
          lift (settled reply.sid)
          emit [.answered reply.sid reply.status block]
          match l.pending.get reply.sid with
          | none => Act.throw .missing
          | some span => do
              let (count, error) ← lift (writeAnswer replies reply block span)
              writeLoopLogged replies fuel { l with
                freeSids := reply.sid :: l.freeSids, pending := l.pending.del reply.sid
                acked := l.acked + count, failure := l.failure.or error }

/-- `write_chunks`. -/
def writeChunksLogged (replies : WriteReplies) (handling : Bool) (pieces : List Bytes)
    (start : Nat) : LoggedWrite Nat := do
  let sids ← lift begin
  let r ← lift Act.get
  Act.tryFinallyQuiet handling
    (writeLoopLogged replies (r.incoming.length + 1)
      { freeSids := sids.reverse, source := pieces, offset := start })
    (lift settle)

theorem writeBatchLogged_erases (check : Bool) : ∀ source l,
    Erases (writeBatchLogged check source l) (writeBatch check source l) := by
  intro source
  induction source with
  | nil =>
    intro l
    unfold writeBatchLogged writeBatch
    cases l.freeSids with
    | nil => exact .pure _
    | cons sid sids => exact .bind (.lift _) fun _ => .pure _
  | cons piece source ih =>
    intro l
    unfold writeBatchLogged writeBatch
    cases l.freeSids with
    | nil => exact .pure _
    | cons sid sids =>
      refine .bind (.lift _) fun _ => .ite (ih l) (.bind (.lift _) fun r => .ite (.throw _) ?_)
      exact .bind (.lift _) fun _ => .emit_bind (.bind (.lift _) fun _ => ih _)

theorem writeLoopLogged_erases (replies : WriteReplies) :
    ∀ fuel l, Erases (writeLoopLogged replies fuel l) (writeLoop replies fuel l) := by
  intro fuel
  induction fuel with
  | zero => exact fun l => .throw _
  | succ fuel ih =>
    intro l
    refine .bind (.ite (writeBatchLogged_erases _ _ l) (.pure l)) fun l => .ite ?_ ?_
    · cases l.failure with
      | none => exact .pure _
      | some e => exact .throw _
    · refine .bind (.lift _) fun reply => .bind (.lift _) fun block => .ite (ih l) ?_
      refine .bind (.lift _) fun _ => .emit_bind ?_
      cases l.pending.get reply.sid with
      | none => exact .throw _
      | some span => exact .bind (.lift _) fun result => ih _

/-- `writeChunksLogged` is `writeChunks`. -/
theorem writeChunksLogged_erases (replies : WriteReplies) (handling : Bool) (pieces : List Bytes)
    (start : Nat) : Erases (writeChunksLogged replies handling pieces start)
      (writeChunks replies handling pieces start) :=
  .bind (.lift _) fun _ => .bind (.lift _) fun _ =>
    .tryFinallyQuiet handling (writeLoopLogged_erases replies _ _) settle

/-! ## What there is to send -/

/-- The pieces that have anything, each at the start plus what those before it hold. -/
def placed : Nat → List Bytes → List (Nat × Bytes)
  | _, [] => []
  | offset, piece :: rest =>
      if piece = [] then placed offset rest
      else (offset, piece) :: placed (offset + piece.length) rest

/-- The range of a write. -/
def span (write : Nat × Bytes) : Nat × Nat := (write.1, write.2.length)

/-- The writes are side by side. -/
theorem placed_chain : ∀ (pieces : List Bytes) (offset : Nat),
    Chain offset ((placed offset pieces).map span) (offset + (pieces.map List.length).sum) := by
  intro pieces
  induction pieces with
  | nil => exact fun offset => rfl
  | cons piece rest ih =>
    intro offset
    rw [List.map_cons, List.sum_cons]
    by_cases h : piece = []
    · rw [placed, if_pos h, h, List.length_nil, Nat.zero_add]
      exact ih offset
    · rw [placed, if_neg h, ← Nat.add_assoc]
      exact ⟨rfl, List.length_pos_iff.mpr h, ih _⟩

/-- One write, framed by the machine behind what is on the wire. -/
def frameNext (handle : Bytes) (wire : Bytes × MachineState) (write : Nat × (Nat × Bytes)) :
    Bytes × MachineState :=
  match wire.2.framePartsFor (writeRequest handle write.2.1 write.2.2) write.1 with
  | (.ok parts, machine) => (wire.1 ++ parts.flatten, machine)
  | (.error _, machine) => (wire.1, machine)

/-- Some writes, framed one behind the other. -/
def framed (handle : Bytes) (wire : Bytes × MachineState) (writes : List (Nat × (Nat × Bytes))) :
    Bytes × MachineState :=
  writes.foldl (frameNext handle) wire

def WriteEvent.write : WriteEvent → Option (Nat × (Nat × Bytes))
  | .sent sid offset piece => some (sid, offset, piece)
  | .answered _ _ _ => none

def WriteEvent.verdict : WriteEvent → Option (Nat × Bytes)
  | .sent _ _ _ => none
  | .answered _ status block => some (status, block)

/-- The writes of a log. -/
def sentIn (log : List WriteEvent) : List (Nat × (Nat × Bytes)) := log.filterMap WriteEvent.write

/-- The verdicts of a log. -/
def verdictsIn (log : List WriteEvent) : List (Nat × Bytes) := log.filterMap WriteEvent.verdict

/-- The refusal in an answer, if it is one. -/
def refusalOf (flags : WriteReplies) (verdict : Nat × Bytes) : Option BulkError :=
  if verdict.1 = kXR_ok then none
  else if verdict.1 = kXR_wait ∧ flags.waited = true then none
  else some (refuse verdict.1 verdict.2)

abbrev WriteAnswer : Type := Lib.Answer (Nat × Bytes) (Nat × Bytes) UInt8

def firstRefusal (flags : WriteReplies) (answered : List WriteAnswer) : Option BulkError :=
  answered.findSome? fun a => refusalOf flags a.verdict

/-- The ranges that were answered with `status`, in the order of the answers. -/
def spansAnswered (status : Nat) (answered : List WriteAnswer) : List (Nat × Nat) :=
  (answered.filter fun a => a.verdict.1 = status).map fun a => span a.request

/-- Nothing is sent behind a refusal. -/
def Allowed (flags : WriteReplies) (first second : WriteEvent) : Prop :=
  ∀ verdict, first.verdict = some verdict → refusalOf flags verdict ≠ none → second.write = none

theorem sentIn_snoc (log : List WriteEvent) (e : WriteEvent) :
    sentIn (log ++ [e]) = sentIn log ++ e.write.toList := by
  rw [sentIn, List.filterMap_append]
  cases h : e.write <;> simp [sentIn, h]

theorem verdictsIn_snoc (log : List WriteEvent) (e : WriteEvent) :
    verdictsIn (log ++ [e]) = verdictsIn log ++ e.verdict.toList := by
  rw [verdictsIn, List.filterMap_append]
  cases h : e.verdict <;> simp [verdictsIn, h]

theorem spansAnswered_snoc (status : Nat) (answered : List WriteAnswer) (a : WriteAnswer) :
    spansAnswered status (answered ++ [a]) =
      spansAnswered status answered ++ if a.verdict.1 = status then [span a.request] else [] := by
  rw [spansAnswered, List.filter_append, List.map_append]
  by_cases h : a.verdict.1 = status <;> simp [spansAnswered, h]

theorem firstRefusal_snoc (flags : WriteReplies) (answered : List WriteAnswer) (a : WriteAnswer) :
    firstRefusal flags (answered ++ [a]) =
      (firstRefusal flags answered).or (refusalOf flags a.verdict) := by
  rw [firstRefusal, List.findSome?_append]
  simp [firstRefusal]

/-! ## The loop -/

/-- The reader when an answer was reported to the caller. -/
def reported (r : BulkReader) (flags : WriteReplies) (status : Nat) (range : Nat × Nat) :
    BulkReader :=
  { r with
    stored := if status = kXR_ok ∧ flags.acknowledged = true then r.stored ++ [range] else r.stored
    declined :=
      if status = kXR_wait ∧ flags.waited = true then r.declined ++ [range] else r.declined }

/-- The loop of `write_chunks`, with its variables: `source` is what was not taken yet. -/
structure Sending (base : BulkReader) (flags : WriteReplies) (pieces : List Bytes) (start : Nat)
    (asked : List (Nat × (Nat × Bytes))) (done : List Sent) (answered : List WriteAnswer)
    (log : List WriteEvent) (source : List Bytes) (l : Writing) (r : BulkReader) : Prop where
  sent : sentIn log = asked
  verdicts : verdictsIn log = answered.map Answer.verdict
  order : log.Pairwise (Allowed flags)
  left : placed start pieces = asked.map Prod.snd ++ placed l.offset source
  settings : r.settings = base.settings
  issued : r.issued = base.issued ++ asked.map Prod.fst
  wire : (r.outgoing, r.machine) =
    framed base.settings.handle (base.outgoing, base.machine) asked
  matched : ∃ owed, Pipeline.Matched asked (replies done) owed answered ∧
    (∀ s, l.pending.get s = (owed.get s).map span) ∧ ∀ s, s ∈ r.owed ↔ (owed.get s).isSome = true
  free_nodup : l.freeSids.Nodup
  free : ∀ s ∈ l.freeSids, s ∉ r.owed
  ids : ∃ s, s ∈ l.freeSids ∨ s ∈ r.owed
  stored : r.stored =
    base.stored ++ if flags.acknowledged = true then spansAnswered kXR_ok answered else []
  declined : r.declined =
    base.declined ++ if flags.waited = true then spansAnswered kXR_wait answered else []
  acked : l.acked = ((spansAnswered kXR_ok answered).map Prod.snd).sum
  failure : l.failure = firstRefusal flags answered

section

variable {base r : BulkReader} {flags : WriteReplies} {pieces source : List Bytes} {start : Nat}
  {asked : List (Nat × (Nat × Bytes))} {done frames : List Sent} {answered : List WriteAnswer}
  {log : List WriteEvent} {l : Writing}

/-- An empty piece is passed over. -/
theorem Sending.skip (h : Sending base flags pieces start asked done answered log ([] :: source) l r) :
    Sending base flags pieces start asked done answered log source l r :=
  ⟨h.sent, h.verdicts, h.order, h.left, h.settings, h.issued, h.wire, h.matched, h.free_nodup, h.free,
    h.ids, h.stored, h.declined, h.acked, h.failure⟩

/-- A write goes out on an id that nothing is owed on, as long as nothing was refused. -/
theorem Sending.write {piece : Bytes}
    (h : Sending base flags pieces start asked done answered log (piece :: source) l r)
    (hopen : l.failure = none) (hne : piece ≠ []) {sid : Nat} {sids : List Nat}
    (hsids : l.freeSids = sid :: sids) {parts : List Bytes} {machine : MachineState}
    (hframe : r.machine.framePartsFor (writeRequest base.settings.handle l.offset piece) sid =
      (.ok parts, machine)) :
    Sending base flags pieces start (asked ++ [(sid, l.offset, piece)]) done answered
      (log ++ [.sent sid l.offset piece]) source
      { l with
        freeSids := sids, pending := l.pending.set sid (l.offset, piece.length)
        offset := l.offset + piece.length }
      (r.sent sid parts machine) := by
  obtain ⟨hfresh, hnodup⟩ := List.nodup_cons.mp (hsids ▸ h.free_nodup)
  have howed : sid ∉ r.owed := h.free sid (by simp [hsids])
  have hsent : (r.sent sid parts machine).owed = r.owed ++ [sid] := if_neg howed
  obtain ⟨owed, hmatched, hpending, howes⟩ := h.matched
  have hnone : owed.get sid = none := by
    cases hget : owed.get sid with
    | none => rfl
    | some q => exact absurd ((howes sid).mpr (by simp [hget])) howed
  refine ⟨?_, ?_, ?_, ?_, h.settings, ?_, ?_, ⟨owed.set sid (l.offset, piece), hmatched.ask hnone _,
    fun s => ?_, fun s => ?_⟩, hnodup, fun s hs => ?_, ⟨sid, .inr (by simp [hsent])⟩, h.stored,
    h.declined, h.acked, h.failure⟩
  · rw [sentIn_snoc, h.sent]
    rfl
  · rw [verdictsIn_snoc, h.verdicts]
    simp [WriteEvent.verdict]
  · refine List.pairwise_append.mpr ⟨h.order, List.pairwise_singleton _ _, fun e he e' _ => ?_⟩
    intro verdict hverdict hrefused
    -- no answer so far was a refusal
    have hmem : verdict ∈ answered.map Answer.verdict := by
      rw [← h.verdicts]
      exact List.mem_filterMap.mpr ⟨e, he, hverdict⟩
    obtain ⟨a, ha, rfl⟩ := List.mem_map.mp hmem
    have hall := h.failure.symm.trans hopen
    rw [firstRefusal, List.findSome?_eq_none_iff] at hall
    exact absurd (hall a ha) hrefused
  · rw [h.left, placed, if_neg hne]
    simp
  · show r.issued ++ [sid] = _
    rw [h.issued]
    simp
  · have hwire := h.wire
    rw [framed] at hwire ⊢
    rw [List.foldl_append, ← hwire]
    show (r.outgoing ++ parts.flatten, machine) = frameNext base.settings.handle (r.outgoing, r.machine)
      (sid, l.offset, piece)
    rw [frameNext]
    dsimp only
    rw [hframe]
  · dsimp only
    rw [Assoc.get_set, Assoc.get_set]
    split
    · rfl
    · exact hpending s
  · rw [hsent, List.mem_append, List.mem_singleton, Assoc.get_set, howes s]
    by_cases hs : s = sid <;> simp [hs]
  · have hne' : s ≠ sid := fun e => hfresh (e ▸ hs)
    rw [hsent, List.mem_append, List.mem_singleton]
    exact fun hin => hin.elim (h.free s (by simp [hsids, hs])) hne'

/-- A part of an answer that is not its last. -/
theorem Sending.more (h : Sending base flags pieces start asked done answered log source l r)
    {taken : List Sent} {p : Lib.Reply Nat (Nat × Bytes) UInt8} (htaken : replies taken = [p])
    (howed : p.id ∈ r.owed) (hover : p.closing = none) :
    Sending base flags pieces start asked (done ++ taken) answered log source l r := by
  obtain ⟨owed, hmatched, hpending, howes⟩ := h.matched
  obtain ⟨request, hrequest⟩ := Option.isSome_iff_exists.mp ((howes p.id).mp howed)
  refine ⟨h.sent, h.verdicts, h.order, h.left, h.settings, h.issued, h.wire, ⟨owed, ?_, hpending,
    howes⟩, h.free_nodup, h.free, h.ids, h.stored, h.declined, h.acked, h.failure⟩
  rw [replies_append, htaken]
  exact hmatched.part hrequest hover

/-- The bytes that an answer acknowledges. -/
def ackedBy (status : Nat) (range : Nat × Nat) : Nat := if status = kXR_ok then range.2 else 0

/-- The last of an answer: it is for the piece that its stream carried. -/
theorem Sending.answer (h : Sending base flags pieces start asked done answered log source l r)
    {taken : List Sent} {p : Lib.Reply Nat (Nat × Bytes) UInt8} (htaken : replies taken = [p])
    (howed : p.id ∈ r.owed) {status : Nat} {block : Bytes} (hover : p.closing = some (status, block)) :
    ∃ range answered', l.pending.get p.id = some range ∧
      Sending base flags pieces start asked (done ++ taken) answered'
        (log ++ [.answered p.id status block]) source
        { l with
          freeSids := p.id :: l.freeSids, pending := l.pending.del p.id
          acked := l.acked + ackedBy status range
          failure := l.failure.or (refusalOf flags (status, block)) }
        ((r.without p.id).reported flags status range) := by
  obtain ⟨owed, hmatched, hpending, howes⟩ := h.matched
  obtain ⟨request, hrequest⟩ := Option.isSome_iff_exists.mp ((howes p.id).mp howed)
  have hrange : l.pending.get p.id = some (span request) := by
    rw [hpending, hrequest, Option.map_some]
  have hmem : ∀ s, s ∈ (r.without p.id).owed ↔ s ∈ r.owed ∧ s ≠ p.id := fun s => by simp [without]
  refine ⟨span request,
    answered ++ [⟨request, (status, block), Pipeline.gathered p.id (replies done) ++ p.data⟩], hrange,
    ?_, ?_, ?_, h.left, h.settings, h.issued, h.wire, ⟨owed.del p.id, ?_, fun s => ?_, fun s => ?_⟩, ?_,
    fun s hs => ?_, ⟨p.id, .inl (by simp)⟩, ?_, ?_, ?_, ?_⟩
  · rw [sentIn_snoc, h.sent]
    simp [WriteEvent.write]
  · rw [verdictsIn_snoc, h.verdicts, List.map_append]
    rfl
  · refine List.pairwise_append.mpr ⟨h.order, List.pairwise_singleton _ _, fun e _ e' he' => ?_⟩
    intro _ _ _
    rw [List.mem_singleton.mp he']
    rfl
  · rw [replies_append, htaken]
    exact hmatched.last hrequest hover
  · dsimp only
    rw [Assoc.get_del, Assoc.get_del]
    split
    · rfl
    · exact hpending s
  · show s ∈ (r.without p.id).owed ↔ _
    rw [hmem, howes s, Assoc.get_del]
    by_cases hs : s = p.id <;> simp [hs]
  · exact List.nodup_cons.mpr ⟨fun hs => h.free _ hs howed, h.free_nodup⟩
  · show s ∉ (r.without p.id).owed
    rw [hmem]
    rcases List.mem_cons.mp hs with rfl | hs
    · exact fun hin => hin.2 rfl
    · exact fun hin => h.free s hs hin.1
  · have hstored : (r.without p.id).stored = r.stored := rfl
    rw [reported, hstored, h.stored, spansAnswered_snoc]
    dsimp only
    by_cases hok : status = kXR_ok <;> by_cases hflag : flags.acknowledged = true <;>
      simp [hok, hflag]
  · have hdeclined : (r.without p.id).declined = r.declined := rfl
    rw [reported, hdeclined, h.declined, spansAnswered_snoc]
    dsimp only
    by_cases hwait : status = kXR_wait <;> by_cases hflag : flags.waited = true <;>
      simp [hwait, hflag]
  · rw [spansAnswered_snoc, h.acked, ackedBy]
    dsimp only
    split <;> simp
  · rw [firstRefusal_snoc, h.failure]

end

end BulkReader

end XrdClient.Session
