/-
  Session/Written.lean --- a pipelined write, run to its end.

  Source: `session/bulk.py`, `BulkReader.write_chunks`, `_write_batch`, `_write_answer`.

  `Sending` is the loop with its variables (`Session/Writes`); here the loop runs.  It ends in
  one of two ways that say what the server did:

      it returns     every piece is out and answered, and what is counted is acknowledged
      it refuses     the first refusal, with every write that is out answered

  and in a third that says nothing of it: the link, the clocks or the caller cut it off, and
  what they raise is no refusal.
-/
import XrdClient.Session.Writes

set_option autoImplicit false

namespace XrdClient.Session

open XrdClient.Lib
open XrdClient.Lib.Act
open XrdClient.Proto

namespace BulkReader

/-! ## Steps that are not to blame -/

/-- A step whose errors interrupt the call. -/
theorem interrupting {α : Type} {P : BulkReader → Prop} {x : Bulk α} {Q : α → BulkReader → Prop}
    {E : BulkReader → Prop} (h : Sat P x Q E) (hraises : Raises x Interrupts) :
    Spec P x Q fun e _ => Interrupts e := by
  intro s hs
  have hout := h s hs
  rcases heq : x s with ⟨e | a, s'⟩
  · exact hraises s e s' heq
  · rw [heq] at hout
    exact hout

/-- Such a step beside the log. -/
theorem interruptingLift {α : Type} {P : BulkReader → Prop} {x : Bulk α} {Q : α → BulkReader → Prop}
    {E : BulkReader → Prop} (h : Sat P x Q E) (hraises : Raises x Interrupts) (log : List WriteEvent) :
    Spec (fun b => P b.1 ∧ b.2 = log) (lift x) (fun a b => Q a b.1 ∧ b.2 = log)
      fun e _ => Interrupts e :=
  ((interrupting h hraises).lift log).conseq (fun _ hb => hb) (fun _ _ hb => hb) fun _ _ he => he.1

theorem callOut_raises : Raises callOut Interrupts :=
  .bind tick_raises fun _ => .ite (.pure _) (.throw rfl)

theorem callOutIf_raises (given : Bool) : Raises (callOutIf given) Interrupts :=
  .ite callOut_raises (.pure _)

theorem stopped_raises : Raises stopped Interrupts := .bind tick_raises fun _ =>
  .bind .get fun _ => .pure _

theorem discard_raises (sink : Nat) : ∀ fuel left, Raises (discard sink fuel left) Interrupts := by
  intro fuel
  induction fuel with
  | zero => exact fun _ => .pure _
  | succ fuel ih => exact fun _ => .ite (.pure _) (.bind (exact_raises _ _) fun _ => ih _)

theorem drain_raises : Raises drain Interrupts := by
  have hloop : ∀ fuel, Raises (drainLoop fuel) Interrupts := by
    intro fuel
    induction fuel with
    | zero => exact .throw rfl
    | succ fuel ih =>
      refine .bind .get fun r => .ite (.pure _) (.bind nextReply_raises fun reply => ?_)
      exact .bind (discard_raises _ _ _) fun _ => .bind (.modify _) fun _ =>
        .bind (.ite (.modify _) (.pure _)) fun _ => ih
  exact .bind .get fun _ => hloop _

theorem handBack_raises (sids : List Nat) : Raises (handBack sids) Interrupts := by
  refine .bind .get fun r => .bind (.modify _) fun _ => .ite (.modify _) (.bind ?_ fun _ => ?_)
  · exact .ite stopped_raises (.pure _)
  · exact .ite (.modify _) (.modify _)

/-- What cannot be handed back is no refusal. -/
theorem settle_raises : Raises settle Interrupts := by
  refine .bind .get fun r => .bind (.modify _) fun _ => .ite (.pure _) fun s e s' h => ?_
  have hfirst : Raises (drainOwed r.owed r.torn) Interrupts :=
    .ite (.pure _) (.bind stopped_raises fun _ => .ite (.pure _) drain_raises)
  unfold Act.tryFinally at h
  rcases hx : drainOwed r.owed r.torn s with ⟨result, s₁⟩
  rw [hx] at h
  dsimp only at h
  rcases hy : handBack r.leased s₁ with ⟨e' | u, s₂⟩
  · rw [hy] at h
    cases h
    exact handBack_raises _ s₁ e s' hy
  · rw [hy] at h
    cases h
    exact hfirst s e s₁ hx

/-! ## One answer -/

section

variable {r : BulkReader} {frames : List Sent}

theorem callOutIf_at (given : Bool) :
    Sat (At r frames) (callOutIf given) (fun _ => At r frames) (Recorded r) :=
  Sat.ite (fun _ => callOut_at) fun _ => Sat.pure _ fun _ hs => hs

/-- A report does not touch what is read. -/
theorem At.reported {s : BulkReader} (h : At r frames s) (flags : WriteReplies) (status : Nat)
    (range : Nat × Nat) : At (r.reported flags status range) frames (s.reported flags status range) := by
  refine ⟨?_, h.torn, h.incoming⟩
  obtain ⟨incoming, ticks, torn, by_, expires, notices, rfl⟩ := h.kept
  exact ⟨incoming, ticks, torn, by_, expires, notices, rfl⟩

/-- An answer is reported, counted or kept; a strict caller gives up on what it does not expect. -/
theorem writeAnswer_at (flags : WriteReplies) (reply : Header) (block : Bytes) (range : Nat × Nat) :
    Spec (At r frames) (writeAnswer flags reply block range)
      (fun result s => result = (ackedBy reply.status range, refusalOf flags (reply.status, block)) ∧
        At (r.reported flags reply.status range) frames s)
      fun e _ => Interrupts e := by
  have hcall : ∀ (given : Bool) {β : Type} (b : β) (P : BulkReader → Prop),
      (∀ s, P s → At (r.reported flags reply.status range) frames s) →
      Spec P (do callOutIf given; pure b)
        (fun b' s => b' = b ∧ At (r.reported flags reply.status range) frames s)
        fun e _ => Interrupts e := fun given β b P hP =>
    Spec.bind (Spec.conseq (interrupting (callOutIf_at given) (callOutIf_raises given)) hP
      (fun _ _ hs => hs) fun _ _ he => he) fun _ => Spec.pure _ fun s hs => ⟨rfl, hs⟩
  have hwait : kXR_wait ≠ kXR_ok := by decide
  rw [writeAnswer]
  refine Spec.ite (fun hok => ?_) fun hok => Spec.ite (fun hw => ?_) fun hw => Spec.ite (fun _ => ?_)
    fun _ => Spec.pure _ fun s hs => ?_
  · refine Spec.of_each fun a ha => Spec.modify_bind ?_
    have hreported := ha.reported flags reply.status range
    rw [ackedBy, refusalOf, if_pos hok, if_pos hok]
    refine hcall _ _ _ fun s hs => ?_
    subst hs
    rw [BulkReader.reported, BulkReader.reported] at hreported
    simp only [hok, hwait.symm, true_and, false_and, if_false] at hreported
    rw [BulkReader.reported]
    simp only [hok, hwait.symm, true_and, false_and, if_false]
    exact hreported
  · refine Spec.of_each fun a ha => Spec.modify_bind ?_
    have hreported := ha.reported flags reply.status range
    rw [ackedBy, refusalOf, if_neg hok, if_neg hok, if_pos hw]
    refine hcall true _ _ fun s hs => ?_
    subst hs
    rw [BulkReader.reported, BulkReader.reported] at hreported
    simp only [hw, hwait, true_and, false_and, if_false, if_true] at hreported
    rw [BulkReader.reported]
    simp only [hw, hwait, true_and, false_and, if_false, if_true]
    exact hreported
  · exact Spec.of_each fun a ha => Spec.modify_bind (Spec.throw _ fun _ _ => rfl)
  · refine ⟨by rw [ackedBy, refusalOf, if_neg hok, if_neg hok, if_neg hw], ?_⟩
    rw [BulkReader.reported]
    simp only [hok, false_and, if_false, hw]
    exact hs

end

/-! ## The loop -/

section

variable {base : BulkReader} {flags : WriteReplies} {pieces : List Bytes} {start : Nat}
  {asked : List (Nat × (Nat × Bytes))} {done frames : List Sent} {answered : List WriteAnswer}
  {log : List WriteEvent}

/-- What is left to write is a variable of its own. -/
theorem Sending.keeping {source : List Bytes} {l : Writing} {r : BulkReader}
    (h : Sending base flags pieces start asked done answered log source l r) (source' : List Bytes)
    (exhausted : Bool) : Sending base flags pieces start asked done answered log source
      { l with source := source', exhausted := exhausted } r :=
  ⟨h.sent, h.verdicts, h.order, h.left, h.settings, h.issued, h.wire, h.matched, h.free_nodup, h.free,
    h.ids, h.stored, h.declined, h.acked, h.failure⟩

/-- `_write_batch`: it ends without a free id, or with nothing left to write. -/
theorem writeBatchLogged_at (check : Bool) : ∀ (source : List Bytes) (l : Writing)
    (asked : List (Nat × (Nat × Bytes))) (log : List WriteEvent) (r : BulkReader),
    Sending base flags pieces start asked done answered log source l r → l.failure = none →
    l.exhausted = false →
    Spec (fun b => At r frames b.1 ∧ b.2 = log) (writeBatchLogged check source l)
      (fun l' b => ∃ asked log r,
        Sending base flags pieces start asked done answered log l'.source l' r ∧
        (l'.exhausted = true → l'.source = []) ∧ (l'.freeSids = [] ∨ l'.source = []) ∧
        At r frames b.1 ∧ b.2 = log)
      fun e _ => Interrupts e := by
  intro source
  induction source with
  | nil =>
    intro l asked log r h hopen hmore
    unfold writeBatchLogged
    split
    · next hsids => exact Spec.pure _ fun b hb =>
        ⟨asked, log, r, h.keeping [] l.exhausted, fun _ => rfl, .inl hsids, hb⟩
    · next sid sids hsids =>
      refine Spec.bind (interruptingLift callOut_at callOut_raises log) fun _ => ?_
      exact Spec.pure _ fun b hb =>
        ⟨asked, log, r, h.keeping [] true, fun _ => rfl, .inr rfl, hb⟩
  | cons piece source ih =>
    intro l asked log r h hopen hmore
    unfold writeBatchLogged
    split
    · next hsids => exact Spec.pure _ fun b hb =>
        ⟨asked, log, r, h.keeping (piece :: source) l.exhausted,
          fun hdry => absurd hdry (by simp [hmore]), .inl hsids, hb⟩
    · next sid sids hsids =>
      refine Spec.bind (interruptingLift callOut_at callOut_raises log) fun _ => ?_
      refine Spec.ite (fun hempty => ?_) fun hne => ?_
      · subst hempty
        exact ih l asked log r h.skip hopen hmore
      refine Spec.bind (Q := fun a b => (b.1 = a ∧ At r frames b.1) ∧ b.2 = log)
        (fun b hb => ⟨⟨rfl, hb.1⟩, hb.2⟩) fun a => Spec.ite (fun _ => Spec.throw _ fun _ _ => rfl)
        fun _ => Spec.of_each fun b₀ hb₀ => ?_
      obtain ⟨⟨rfl, hat⟩, rfl⟩ := hb₀
      have hsettings : b₀.1.settings = base.settings := by
        obtain ⟨_, _, _, _, _, _, hkept⟩ := hat.kept
        rw [hkept]
        exact h.settings
      rw [hsettings]
      refine Spec.bind ((interruptingLift (@issue_at r frames sid _) (issue_raises _ _) b₀.2).conseq
        (fun b hb => by rw [hb]; exact ⟨hat, rfl⟩) (fun _ _ hb => hb) fun _ _ he => he) fun _ =>
        Spec.of_each fun b₁ hb₁ => ?_
      obtain ⟨⟨parts, machine, hframe, hat₁⟩, hlog₁⟩ := hb₁
      have hnext := h.write hopen hne hsids hframe
      refine Spec.bind (Q := fun _ b => At (r.sent sid parts machine) frames b.1 ∧
        b.2 = b₀.2 ++ [.sent sid l.offset piece]) ?_ fun _ => ?_
      · rintro b rfl
        exact ⟨hat₁, by rw [← hlog₁]⟩
      refine Spec.bind (interruptingLift (callOutIf_at check) (callOutIf_raises check) _) fun _ => ?_
      exact ih _ _ _ _ hnext hopen hmore

/-- What a call that comes to its end has done: every write that is out is answered. -/
structure Accounts (base : BulkReader) (flags : WriteReplies) (pieces : List Bytes) (start : Nat)
    (all : List Sent) (asked : List (Nat × (Nat × Bytes))) (answered : List WriteAnswer)
    (log : List WriteEvent) (s : BulkReader) : Prop where
  sent : sentIn log = asked
  verdicts : verdictsIn log = answered.map Answer.verdict
  order : log.Pairwise (Allowed flags)
  planned : asked.map Prod.snd <+: placed start pieces
  issued : s.issued = base.issued ++ asked.map Prod.fst
  outgoing : s.outgoing = (framed base.settings.handle (base.outgoing, base.machine) asked).1
  answers : answered = Pipeline.answers asked (replies all)
  complete : (asked.map Prod.snd).Perm (answered.map Answer.request)
  stored : s.stored =
    base.stored ++ if flags.acknowledged = true then spansAnswered kXR_ok answered else []
  declined : s.declined =
    base.declined ++ if flags.waited = true then spansAnswered kXR_wait answered else []

theorem Accounts.recorded {all : List Sent} {s s' : BulkReader}
    (h : Accounts base flags pieces start all asked answered log s) (hs : Recorded s s') :
    Accounts base flags pieces start all asked answered log s' :=
  ⟨h.sent, h.verdicts, h.order, h.planned, hs.issued.trans h.issued, hs.outgoing.trans h.outgoing,
    h.answers, h.complete, hs.stored.trans h.stored, hs.declined.trans h.declined⟩

/-- With nothing pending, nothing is owed. -/
theorem Sending.settled {source : List Bytes} {l : Writing} {r : BulkReader}
    (h : Sending base flags pieces start asked done answered log source l r) (hpending : l.pending = []) :
    r.owed = [] ∧ Pipeline.Matched asked (replies done) [] answered := by
  obtain ⟨owed, hmatched, htable, howes⟩ := h.matched
  have hnil : owed = [] := Assoc.eq_nil_of_get fun s => by
    have hget := htable s
    rw [hpending] at hget
    exact Option.map_eq_none_iff.mp hget.symm
  subst hnil
  exact ⟨List.eq_nil_iff_forall_not_mem.mpr fun s hs => absurd ((howes s).mp hs) (by simp), hmatched⟩

theorem Sending.accounts {source : List Bytes} {l : Writing} {r s : BulkReader} {all : List Sent}
    (h : Sending base flags pieces start asked done answered log source l r) (hpending : l.pending = [])
    (hall : all = done ++ frames) (hs : Recorded r s) :
    Accounts base flags pieces start all asked answered log s := by
  obtain ⟨-, hmatched⟩ := h.settled hpending
  refine ⟨h.sent, h.verdicts, h.order, ⟨_, h.left.symm⟩, hs.issued.trans h.issued, ?_, ?_,
    hmatched.complete, hs.stored.trans h.stored, hs.declined.trans h.declined⟩
  · rw [← h.wire]
    exact hs.outgoing
  · rw [hall, replies_append, hmatched.answers_append]

/-- The end of a call that returns. -/
def Returned (base : BulkReader) (flags : WriteReplies) (pieces : List Bytes) (start : Nat)
    (all : List Sent) (acked : Nat) (b : BulkReader × List WriteEvent) : Prop :=
  ∃ asked answered, Accounts base flags pieces start all asked answered b.2 b.1 ∧
    asked.map Prod.snd = placed start pieces ∧ firstRefusal flags answered = none ∧
    acked = ((spansAnswered kXR_ok answered).map Prod.snd).sum

/-- The end of a call that a refusal ends. -/
def Refused (base : BulkReader) (flags : WriteReplies) (pieces : List Bytes) (start : Nat)
    (all : List Sent) (e : BulkError) (b : BulkReader × List WriteEvent) : Prop :=
  e.isRefusal = true → ∃ asked answered,
    Accounts base flags pieces start all asked answered b.2 b.1 ∧ firstRefusal flags answered = some e

theorem Interrupts.refused {all : List Sent} {e : BulkError} {b : BulkReader × List WriteEvent}
    (h : Interrupts e) : Refused base flags pieces start all e b :=
  fun hrefusal => absurd (h.symm.trans hrefusal) (by decide)

/-- The body of an answer comes off the wire, and the frame with it. -/
theorem block_at {r s₀ : BulkReader} {reply : Header} {fr : Sent} {rest : List Sent}
    (hwithin : Within r reply fr rest s₀) (hplain : fr.data = []) :
    Sat (fun s => s = s₀) (body reply.dlen)
      (fun block s => fr.answer = some (reply.sid, reply.status, block) ∧ At r rest s) fun _ => True := by
  refine body_sat _ ?_ fun _ _ _ _ _ => trivial
  rintro s s' data rfl hread hlen
  exact hwithin.past hread hlen hplain

/-- Notices and promises, and one part of an answer. -/
theorem replies_behind {before : List Sent} {fr : Sent} {sid status : Nat} {block : Bytes}
    (hquiet : replies before = []) (hans : fr.answer = some (sid, status, block))
    (hlater : status ≠ kXR_waitresp) : replies (before ++ [fr]) =
      [⟨sid, if status = kXR_oksofar then none else some (status, block), block⟩] := by
  rw [replies_append, hquiet, List.nil_append, replies_singleton (Sent.reply_of_answer hans hlater)]

/-- A call that has a refusal to raise does not return. -/
theorem writeLoopLogged_failed : ∀ (fuel : Nat) (l : Writing), l.failure ≠ none →
    Spec (fun _ => True) (writeLoopLogged flags fuel l) (fun _ _ => False) fun _ _ => True := by
  intro fuel
  induction fuel with
  | zero => exact fun l _ => Spec.throw _ fun _ _ => trivial
  | succ fuel ih =>
    intro l hfailure
    refine Spec.bind (Q := fun l' _ => l' = l) (Spec.ite (fun hmore => absurd hmore.2 hfailure)
      fun _ => Spec.pure _ fun _ _ => rfl) fun l' => Spec.of_each fun b hb => ?_
    subst hb
    refine Spec.ite (fun _ => ?_) fun _ => ?_
    · cases hcase : l'.failure with
      | none => exact absurd hcase hfailure
      | some e => exact Spec.throw _ fun _ _ => trivial
    refine Spec.bind (Spec.run _) fun reply => Spec.bind (Spec.run _) fun block => ?_
    refine Spec.ite (fun _ => ih l' hfailure) fun _ => ?_
    refine Spec.bind (Spec.run _) fun _ => Spec.bind (Spec.run _) fun _ => ?_
    cases l'.pending.get reply.sid with
    | none => exact Spec.throw _ fun _ _ => trivial
    | some range =>
      refine Spec.bind (Spec.run _) fun result => ih _ ?_
      rw [Ne, Option.or_eq_none_iff]
      exact fun h => hfailure h.1

/-- An answer with data behind it is taken for a refusal, so the call does not return. -/
theorem writeAnswer_status (reply : Header) (block : Bytes) (range : Nat × Nat)
    (hstatus : reply.status = kXR_status) :
    Spec (fun _ => True) (writeAnswer flags reply block range) (fun result _ => result.2 ≠ none)
      fun _ _ => True := by
  unfold writeAnswer
  rw [hstatus, if_neg (by decide), if_neg (fun h => absurd h.1 (by decide))]
  exact Spec.ite (fun _ => Spec.bind (Spec.run _) fun _ => Spec.throw _ fun _ _ => trivial)
    fun _ => Spec.pure _ fun _ _ => nofun

/-- The loop of `write_chunks`. -/
theorem writeLoopLogged_at (all : List Sent) : ∀ (fuel : Nat)
    (l : Writing) (asked : List (Nat × (Nat × Bytes))) (done : List Sent) (answered : List WriteAnswer)
    (log : List WriteEvent) (r : BulkReader) (frames : List Sent),
    Sending base flags pieces start asked done answered log l.source l r →
    (l.exhausted = true → l.source = []) → all = done ++ frames →
    Spec (fun b => At r frames b.1 ∧ b.2 = log) (writeLoopLogged flags fuel l)
      (Returned base flags pieces start all)
      (fun e b => (∀ fr ∈ all, fr.data = []) → Refused base flags pieces start all e b) := by
  intro fuel
  induction fuel with
  | zero => exact fun l asked done answered log r frames _ _ _ => Spec.throw _ fun _ _ _ =>
      Interrupts.refused rfl
  | succ fuel ih =>
    intro l asked done answered log r frames h hdry hall
    -- the batch, if there is one
    refine Spec.bind (Q := fun l' b => ∃ asked log r,
      Sending base flags pieces start asked done answered log l'.source l' r ∧
      (l'.exhausted = true → l'.source = []) ∧
      (l'.failure = none → l'.freeSids = [] ∨ l'.source = []) ∧ At r frames b.1 ∧ b.2 = log)
      (Spec.ite (fun hmore => ?_) fun hmore => Spec.pure _ fun b hb => ?_) fun l₁ =>
      Spec.of_each fun b₁ hb₁ => ?_
    · refine (writeBatchLogged_at flags.check l.source l asked log r h hmore.2 hmore.1).conseq
        (fun _ hb => hb) (fun l' b hb => ?_) fun e b he _ => he.refused
      obtain ⟨asked, log, r, h', hdry', hend, hb⟩ := hb
      exact ⟨asked, log, r, h', hdry', fun _ => hend, hb⟩
    · refine ⟨asked, log, r, h, hdry, fun hnone => .inr (hdry ?_), hb⟩
      by_contra hexhausted
      exact hmore ⟨by simpa using hexhausted, hnone⟩
    obtain ⟨asked, log, r, h, hdry, hend, hat, hlog⟩ := hb₁
    refine Spec.ite (fun hpending => ?_) fun _ => ?_
    · -- nothing is pending: the call is over
      have haccounts := h.accounts hpending hall hat.kept.recorded
      cases hfailure : l₁.failure with
      | some e =>
        refine Spec.throw _ ?_
        rintro b rfl - -
        exact ⟨asked, answered, hlog ▸ haccounts, h.failure.symm.trans hfailure⟩
      | none =>
        refine Spec.pure _ ?_
        rintro b rfl
        refine ⟨asked, answered, hlog ▸ haccounts, ?_, h.failure.symm.trans hfailure, h.acked⟩
        have howed := (h.settled hpending).1
        have hids : l₁.freeSids ≠ [] := by
          obtain ⟨sid, hfree | howes⟩ := h.ids
          · exact List.ne_nil_of_mem hfree
          · rw [howed] at howes
            cases howes
        have hleft := h.left
        rw [(hend hfailure).resolve_left hids, placed, List.append_nil] at hleft
        exact hleft.symm
    -- one reply more
    refine Spec.bind ((interruptingLift (@nextReply_at r frames) nextReply_raises log).conseq
      (fun b hb => by rw [hb]; exact ⟨hat, hlog⟩) (fun _ _ hb => hb) fun e b he _ => he.refused)
      fun reply => Spec.of_each fun b₂ hb₂ => ?_
    obtain ⟨⟨before, fr, rest, rfl, hquiet, hwithin, howed, hlater⟩, hlog₂⟩ := hb₂
    by_cases hdata : fr.data ≠ []
    · -- a status block: its data stays on the link, and the call raises
      have hstatus : reply.status = kXR_status := Decidable.not_not.mp fun h => hdata (hwithin.data_nil h)
      refine Spec.conseq (P := fun _ => True) (Q := fun _ _ => False) (Spec.bind (Spec.run _) fun block => Spec.ite
        (fun hsofar => absurd (hstatus.symm.trans hsofar) (by decide)) fun _ => Spec.bind (Spec.run _)
        fun _ => Spec.bind (Spec.run _) fun _ => ?_) (fun _ _ => trivial) (fun _ _ h => False.elim h)
        fun e b _ hplain => absurd (hplain fr (by simp [hall])) hdata
      cases l₁.pending.get reply.sid with
      | none => exact Spec.throw _ fun _ _ => trivial
      | some range =>
        refine Spec.bind (Q := fun result _ => result.2 ≠ none) (Spec.of_each fun b _ =>
          ((writeAnswer_status reply block range hstatus).lift b.2).conseq (fun c hc => ⟨trivial, hc ▸ rfl⟩)
            (fun _ _ h => h.1) fun _ _ _ => trivial) fun result => Spec.of_each fun b hb => ?_
        refine (writeLoopLogged_failed fuel _ fun hnone => ?_).conseq (fun _ _ => trivial)
          (fun _ _ h => h) fun _ _ _ => trivial
        rw [Option.or_eq_none_iff] at hnone
        exact hb hnone.2
    have hdata := Decidable.not_not.mp hdata
    refine Spec.bind ((interruptingLift (block_at hwithin hdata) (body_raises _)
      log).conseq (fun b hb => by rw [hb]; exact ⟨rfl, hlog₂⟩) (fun _ _ hb => hb) fun e b he _ =>
        he.refused) fun block => Spec.of_each fun b₃ hb₃ => ?_
    obtain ⟨⟨hans, hat₃⟩, hlog₃⟩ := hb₃
    have htaken := replies_behind hquiet hans hlater
    have hall' : all = (done ++ (before ++ [fr])) ++ rest := by rw [hall]; simp
    refine Spec.ite (fun hsofar => ?_) fun hsofar => ?_
    · rw [if_pos hsofar] at htaken
      exact (ih l₁ asked _ answered log r rest (h.more htaken howed rfl) hdry hall').conseq
        (fun b hb => by rw [hb]; exact ⟨hat₃, hlog₃⟩) (fun _ _ hb => hb) fun _ _ he => he
    rw [if_neg hsofar] at htaken
    obtain ⟨range, answered', hrange, h'⟩ := h.answer htaken howed rfl
    dsimp only at hrange h'
    refine Spec.bind (Q := fun _ b => At (r.without reply.sid) rest b.1 ∧ b.2 = log) ?_ fun _ => ?_
    · rintro b rfl
      exact ⟨hat₃.settled reply.sid, hlog₃⟩
    refine Spec.bind (Q := fun _ b => At (r.without reply.sid) rest b.1 ∧
      b.2 = log ++ [.answered reply.sid reply.status block]) ?_ fun _ => ?_
    · rintro ⟨s, _⟩ ⟨hs, rfl⟩
      exact ⟨hs, rfl⟩
    rw [hrange]
    refine Spec.bind (((writeAnswer_at flags reply block range).lift _).conseq (fun _ hb => hb)
      (fun _ _ hb => hb) fun e b he _ => he.1.refused) fun result => Spec.of_each fun b₄ hb₄ => ?_
    obtain ⟨⟨rfl, hat₄⟩, hlog₄⟩ := hb₄
    exact (ih { l₁ with
        freeSids := reply.sid :: l₁.freeSids, pending := l₁.pending.del reply.sid
        acked := l₁.acked + ackedBy reply.status range
        failure := l₁.failure.or (refusalOf flags (reply.status, block)) }
      asked _ answered' _ _ rest h' hdry hall').conseq
      (fun b hb => by rw [hb]; exact ⟨hat₄, hlog₄⟩) (fun _ _ hb => hb) fun _ _ he => he

end

/-! ## A whole call -/

section

variable {r : BulkReader} {flags : WriteReplies} {pieces : List Bytes} {start : Nat}
  {frames : List Sent}

/-- The reader with the machine that has lent the ids of a call. -/
def lending (r : BulkReader) : BulkReader :=
  { r with machine := (r.machine.leaseSids r.settings.depth).2 }

theorem begin_raises : Raises begin Interrupts := by
  refine .bind .get fun r => .ite (.throw rfl) (.bind tick_raises fun t => .bind (.modify _) fun _ => ?_)
  rcases r.machine.leaseSids r.settings.depth with ⟨e | sids, machine⟩
  · exact .bind (.modify _) fun _ => .throw rfl
  · exact .bind (.modify _) fun _ => .pure _

/-- `_begin` takes its ids from the machine. -/
theorem begin_machine : Sat (fun s => s = r) begin (fun _ s => s.machine = r.lending.machine)
    fun _ => True := by
  refine Sat.get_bind fun a => Sat.ite (fun _ => Sat.throw _ fun _ _ => trivial) fun _ =>
    Sat.of_each fun s₀ h₀ => ?_
  obtain ⟨rfl, rfl⟩ := h₀
  refine Sat.bind (Q := fun _ _ => True) (fun s _ => by rcases tick s with ⟨_ | _, _⟩ <;> trivial)
    fun t => Sat.modify_bind (M := fun _ => True) (fun _ _ => trivial) ?_
  rw [lending]
  rcases s₀.machine.leaseSids s₀.settings.depth with ⟨e | sids, machine⟩
  · exact Sat.modify_bind (M := fun _ => True) (fun _ _ => trivial) (Sat.throw _ fun _ _ => trivial)
  · exact Sat.modify_bind (M := fun s => s.machine = machine) (fun _ _ => rfl)
      (Sat.pure _ fun _ hs => hs)

theorem Accounts.base {b s : BulkReader} {asked : List (Nat × (Nat × Bytes))}
    {answered : List WriteAnswer} {log : List WriteEvent}
    (h : Accounts b flags pieces start frames asked answered log s) (hrec : Recorded r b)
    (hsettings : b.settings = r.settings) (hmachine : b.machine = r.lending.machine) :
    Accounts r.lending flags pieces start frames asked answered log s :=
  ⟨h.sent, h.verdicts, h.order, h.planned, h.issued.trans (by rw [hrec.issued]; rfl),
    h.outgoing.trans (by rw [hrec.outgoing, hsettings, hmachine]; rfl), h.answers, h.complete,
    h.stored.trans (by rw [hrec.stored]; rfl), h.declined.trans (by rw [hrec.declined]; rfl)⟩

/-- A pipelined write, however it ends. -/
theorem writeChunksLogged_at (hready : Ready r frames) (handling : Bool) :
    Spec (fun b => b = (r, [])) (writeChunksLogged flags handling pieces start)
      (Returned r.lending flags pieces start frames)
      (fun e b => (∀ fr ∈ frames, fr.data = []) → Refused r.lending flags pieces start frames e b) := by
  have hbegin := (interrupting (begin_at hready.apart) begin_raises).and
    (interrupting (begin_machine (r := r)) begin_raises)
  refine Spec.bind ((hbegin.lift []).conseq (fun b hb => by rw [hb]; exact ⟨⟨rfl, rfl⟩, rfl⟩)
    (fun _ _ hb => hb) fun e b he _ => he.1.1.refused) fun sids => ?_
  refine Spec.bind (Q := fun a b => b = (a, []) ∧ sids.Nodup ∧ sids.length = r.settings.depth ∧
    Recorded r a ∧ a.torn = false ∧ a.incoming = r.incoming ∧ a.owed = r.owed ∧
    a.settings = r.settings ∧ a.machine = r.lending.machine) ?_ fun a => Spec.of_each fun b₀ hb₀ => ?_
  · rintro ⟨s, _⟩ ⟨⟨⟨hnodup, hcount, hrec, htorn, hin, howed, hsettings⟩, hmachine⟩, rfl⟩
    exact ⟨rfl, hnodup, hcount, hrec, htorn, hin, howed, hsettings, hmachine⟩
  obtain ⟨rfl, hnodup, hcount, hrec, htorn, hin, howed, hsettings, hmachine⟩ := hb₀
  have hnone : a.owed = [] := howed.trans hready.owed
  have hstart : Sending a flags pieces start [] [] [] [] pieces
      { freeSids := sids.reverse, source := pieces, offset := start } a := by
    have hdepth := r.settings.depth_pos
    obtain ⟨sid, hsid⟩ := List.exists_mem_of_length_pos (by omega : 0 < sids.length)
    refine ⟨rfl, rfl, .nil, rfl, rfl, by simp, rfl, ⟨[], .nil, fun s => rfl, fun s => by simp [hnone]⟩,
      List.nodup_reverse.mpr hnodup, fun s _ => by simp [hnone], ⟨sid, .inl (List.mem_reverse.mpr hsid)⟩,
      ?_, ?_, rfl, rfl⟩ <;> simp [spansAnswered]
  have hloop := writeLoopLogged_at frames (a.incoming.length + 1)
    { freeSids := sids.reverse, source := pieces, offset := start } [] [] [] [] a frames hstart
    (fun h => by cases h) rfl
  have hsettle : ∀ b : BulkReader × List WriteEvent, Recorded b.1 ((lift settle : LoggedWrite Unit) b).2.1 ∧
      ((lift settle : LoggedWrite Unit) b).2.2 = b.2 := fun b => by
    refine ⟨?_, rfl⟩
    have hout := settle_recorded (r := b.1) b.1 (.refl _)
    unfold lift
    rcases hx : settle b.1 with ⟨_ | _, s⟩ <;> rw [hx] at hout <;> exact hout
  refine Spec.tryFinallyQuiet handling (hloop.conseq (fun b hb => by
    rw [hb]; exact ⟨.refl htorn (hin.trans hready.incoming), rfl⟩) (fun _ _ hb => hb) fun _ _ he => he)
    ?_ ?_ ?_
  · rintro n b ⟨asked, answered, haccounts, hrest⟩
    refine ⟨asked, answered, ?_, hrest⟩
    rw [(hsettle b).2]
    exact (haccounts.recorded (hsettle b).1).base hrec hsettings hmachine
  · intro n b e _ hraised _
    exact Interrupts.refused (settle_raises b.1 e (settle b.1).2 (Prod.ext hraised rfl))
  · intro e b he hplain hrefusal
    obtain ⟨asked, answered, haccounts, hfirst⟩ := he hplain hrefusal
    refine ⟨asked, answered, ?_, hfirst⟩
    rw [(hsettle b).2]
    exact (haccounts.recorded (hsettle b).1).base hrec hsettings hmachine

/-- The writes of a call that went from `r` to `r'`, with the ids they went out on. -/
def written (pieces : List Bytes) (start : Nat) (r r' : BulkReader) : List (Nat × (Nat × Bytes)) :=
  asked (placed start pieces) r r'

/-- What the server answers to them. -/
def verdictsOf (pieces : List Bytes) (start : Nat) (r r' : BulkReader) (frames : List Sent) :
    List WriteAnswer :=
  Pipeline.answers (written pieces start r r') (replies frames)

theorem Accounts.read {s : BulkReader} {sent : List (Nat × (Nat × Bytes))}
    {answered : List WriteAnswer} {log : List WriteEvent}
    (h : Accounts r.lending flags pieces start frames sent answered log s) :
    written pieces start r s = sent ∧ verdictsOf pieces start r s frames = answered := by
  have hsent : written pieces start r s = sent := asked_eq h.issued h.planned
  exact ⟨hsent, by rw [verdictsOf, hsent, h.answers]⟩

/-- Without a refusal each answer is an acknowledgement, or a wait that the caller takes. -/
theorem firstRefusal_none {answered : List WriteAnswer} (h : firstRefusal flags answered = none)
    {a : WriteAnswer} (ha : a ∈ answered) :
    a.verdict.1 = kXR_ok ∨ a.verdict.1 = kXR_wait ∧ flags.waited = true := by
  rw [firstRefusal, List.findSome?_eq_none_iff] at h
  have hnone := h a ha
  rw [refusalOf] at hnone
  split at hnone
  · next hok => exact .inl hok
  · split at hnone
    · next hwait => exact .inr hwait
    · cases hnone

/-- Acknowledged and waited for: between them they have what there is. -/
theorem hits_answered {answered : List WriteAnswer} (h : firstRefusal flags answered = none) (p : Nat) :
    ((spansAnswered kXR_ok answered).map (hits p)).sum +
        ((spansAnswered kXR_wait answered).map (hits p)).sum =
      ((answered.map Answer.request).map fun q => hits p (span q)).sum := by
  induction answered with
  | nil => rfl
  | cons a rest ih =>
    have hrest : firstRefusal flags rest = none := by
      rw [firstRefusal, List.findSome?_eq_none_iff] at h ⊢
      exact fun b hb => h b (List.mem_cons_of_mem _ hb)
    have hne : kXR_wait ≠ kXR_ok := by decide
    have hih := ih hrest
    simp only [spansAnswered, List.map_cons, List.sum_cons, List.map_map, Function.comp_def] at hih ⊢
    rcases firstRefusal_none h (List.mem_cons_self ..) with hok | ⟨hwait, -⟩
    · simp only [hok, List.filter_cons, decide_true, decide_false, hne.symm, if_true, if_false,
        List.map_cons, List.sum_cons, Bool.false_eq_true]
      omega
    · simp only [hwait, List.filter_cons, decide_true, decide_false, hne, if_true, if_false,
        List.map_cons, List.sum_cons, Bool.false_eq_true]
      omega

/-- **A pipelined write that returns accounts for every byte once.**  For every sequence of
pieces, empty ones included, every start, chunk and depth, and whatever order the server
answers in, with promises and notices between: the pieces went out one behind the other as
`kXR_write` requests and nothing else did; what was reported as acknowledged are the ranges
answered `kXR_ok` and what was reported as waited are those answered `kXR_wait`, in the order
of the answers; the count is what was acknowledged; and every byte of the transfer is in one of
these ranges, and in one only. -/
theorem write_chunks_accounts {r' : BulkReader} {handling : Bool} {n : Nat} (hready : Ready r frames)
    (hrun : writeChunks flags handling pieces start r = (.ok n, r')) :
    (written pieces start r r').map Prod.snd = placed start pieces ∧
    r'.outgoing = (framed r.settings.handle (r.outgoing, r.lending.machine)
      (written pieces start r r')).1 ∧
    r'.stored = r.stored ++ (if flags.acknowledged = true then
      spansAnswered kXR_ok (verdictsOf pieces start r r' frames) else []) ∧
    r'.declined = r.declined ++ (if flags.waited = true then
      spansAnswered kXR_wait (verdictsOf pieces start r r' frames) else []) ∧
    n = ((spansAnswered kXR_ok (verdictsOf pieces start r r' frames)).map Prod.snd).sum ∧
    ∀ p, ((spansAnswered kXR_ok (verdictsOf pieces start r r' frames)).map (hits p)).sum +
        ((spansAnswered kXR_wait (verdictsOf pieces start r r' frames)).map (hits p)).sum =
      hits p (start, (pieces.map List.length).sum) := by
  have herase := writeChunksLogged_erases flags handling pieces start r []
  rcases hlogged : writeChunksLogged flags handling pieces start (r, []) with ⟨result, b⟩
  rw [hlogged, hrun] at herase
  obtain ⟨rfl, rfl⟩ := Prod.mk.inj herase
  obtain ⟨sent, answered, haccounts, hall, hfirst, hcount⟩ :=
    (writeChunksLogged_at hready handling).ok rfl hlogged
  obtain ⟨hsent, hanswered⟩ := haccounts.read
  rw [hanswered, hsent]
  refine ⟨hall, haccounts.outgoing, haccounts.stored, haccounts.declined, hcount, fun p => ?_⟩
  have hperm := ((haccounts.complete.symm.map fun q => hits p (span q))).sum_nat
  rw [hits_answered hfirst, hperm, hall]
  have hchain := (placed_chain pieces start).sums.2 p
  rw [List.map_map, Nat.add_sub_cancel_left] at hchain
  exact hchain

/-- **A refused write is raised behind every answer that was owed.**  When a pipelined write
ends with a refusal, and no answer of the server has data behind a status block, it is the
first one that the server gave; every write that went out has been answered by then and they
are the first pieces, none twice; the ranges reported are those of the answers, as in a call
that returns; and in the order of what was sent and answered no write comes behind a refusal. -/
theorem write_chunks_refused {handling : Bool} {e : BulkError} {r' : BulkReader}
    {log : List WriteEvent} (hready : Ready r frames) (hplain : ∀ fr ∈ frames, fr.data = [])
    (hrefusal : e.isRefusal = true)
    (hrun : writeChunksLogged flags handling pieces start (r, []) = (.error e, (r', log))) :
    firstRefusal flags (verdictsOf pieces start r r' frames) = some e ∧
    (written pieces start r r').map Prod.snd <+: placed start pieces ∧
    ((written pieces start r r').map Prod.snd).Perm
      ((verdictsOf pieces start r r' frames).map Answer.request) ∧
    r'.stored = r.stored ++ (if flags.acknowledged = true then
      spansAnswered kXR_ok (verdictsOf pieces start r r' frames) else []) ∧
    r'.declined = r.declined ++ (if flags.waited = true then
      spansAnswered kXR_wait (verdictsOf pieces start r r' frames) else []) ∧
    sentIn log = written pieces start r r' ∧
    verdictsIn log = (verdictsOf pieces start r r' frames).map Answer.verdict ∧
    log.Pairwise (Allowed flags) := by
  obtain ⟨sent, answered, haccounts, hfirst⟩ :=
    (writeChunksLogged_at hready handling).error rfl hrun hplain hrefusal
  obtain ⟨hsent, hanswered⟩ := haccounts.read
  rw [hanswered, hsent]
  exact ⟨hfirst, haccounts.planned, haccounts.complete, haccounts.stored, haccounts.declined,
    haccounts.sent, haccounts.verdicts, haccounts.order⟩

end

/-! ## Two writes in flight -/

/-- The first of two writes, acknowledged. -/
def ackedFirst : Sent :=
  .plain 5 kXR_ok [] fullFirst.sid_lt fullFirst.status_lt (by decide) (by decide)

/-- The second write, acknowledged. -/
def ackedSecond : Sent :=
  .plain 4 kXR_ok [] fullSecond.sid_lt fullSecond.status_lt (by decide) (by decide)

/-- The first write, refused for want of space. -/
def refusedFirst : Sent :=
  .plain 5 kXR_error [0, 0, 0x0B, 0xC1, 0x6E, 0x6F, 0] fullFirst.sid_lt (by decide) (by decide) (by decide)

def bothReported : WriteReplies := { acknowledged := true, waited := true }

/-- A call that raises is what it raises and what it leaves. -/
theorem eq_of_raised {x : LoggedWrite Nat} {b : BulkReader × List WriteEvent} {e : BulkError}
    (h : (x b).1 = .error e) : x b = (.error e, ((x b).2.1, (x b).2.2)) :=
  Prod.ext h rfl

theorem write_chunks_accounts_two :
    (written [[1, 2], [], [3]] 10 (fresh [ackedSecond, ackedFirst])
      (writeChunks bothReported false [[1, 2], [], [3]] 10 (fresh [ackedSecond, ackedFirst])).2).map
        Prod.snd = [(10, [1, 2]), (12, [3])] := by
  have hvalue : (writeChunks bothReported false [[1, 2], [], [3]] 10
      (fresh [ackedSecond, ackedFirst])).1 = .ok 3 := by decide +kernel
  exact (write_chunks_accounts (fresh_ready _) (eq_of_value hvalue)).1

theorem write_chunks_refused_two :
    firstRefusal bothReported (verdictsOf [[1, 2], [3]] 10 (fresh [refusedFirst, ackedSecond])
      (writeChunksLogged bothReported false [[1, 2], [3]] 10 (fresh [refusedFirst, ackedSecond], [])).2.1
      [refusedFirst, ackedSecond]) = some (refuse kXR_error refusedFirst.body) := by
  have hvalue : (writeChunksLogged bothReported false [[1, 2], [3]] 10
      (fresh [refusedFirst, ackedSecond], [])).1 = .error (refuse kXR_error refusedFirst.body) := by
    decide +kernel
  have hplain : ∀ fr ∈ [refusedFirst, ackedSecond], fr.data = [] := by
    simp [refusedFirst, ackedSecond, Sent.plain]
  have hrefusal : (refuse kXR_error refusedFirst.body).isRefusal = true := by decide +kernel
  exact (write_chunks_refused (fresh_ready _) hplain hrefusal (eq_of_raised hvalue)).1

end BulkReader

end XrdClient.Session
