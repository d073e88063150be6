/-
  Session/BulkFrames.lean --- where the bulk reader stands on the wire.

  Source: `session/bulk.py`, everything that moves `_torn` and `_owed` while a
  reply is read.

  The server's side of the link is a list of frames, any frames at all.  While the
  wire is not torn it stands between two of them, and every request that went out
  has had its final reply, or is in `_owed`, or is in the machine's retired set
  (`Synced`).  Taking a frame off the wire keeps that, as long as the frame is over
  where the reader takes it to be over.

  The reader takes the length in a frame's header for the whole of it.  For a
  `kXR_status` that is wrong: the data it declares comes behind, and it need not be
  the last of the answer.  The event path knows (`_response_status`), the reader
  does not.
-/
import XrdClient.Session.Bulk
import XrdClient.Proto.Framing

set_option autoImplicit false

namespace XrdClient.Proto

open XrdClient.Lib

/-- A header that reads back is the one that was written. -/
theorem eq_of_headerFields {h h' : Header} (hsid : h.sid < 0x10000) (hstatus : h.status < 0x10000)
    (hdlen : h.dlen < 0x100000000) (hok : headerFields (headerBytes h) = .ok h') : h' = h := by
  have hle : h.dlen ≤ MAX_RESPONSE_BODY := by
    have e3 : ((headerBytes h).drop 4).take 4 = beBytes 4 h.dlen := by
      have hsid : (beBytes 2 h.sid).drop 4 = [] := List.drop_of_length_le (by simp)
      simp [headerBytes, List.drop_append, hsid, List.take_of_length_le]
    by_contra hover
    have hbig : MAX_RESPONSE_BODY < beNat (((headerBytes h).drop 4).take 4) := by
      rw [e3, beNat_beBytes 4 h.dlen hdlen]
      omega
    simp only [headerFields, List.drop_zero, hbig, if_true] at hok
    cases hok
  have := headerFields_headerBytes ⟨hsid, hstatus, hle⟩ []
  rw [List.append_nil, hok] at this
  exact Except.ok.inj this

/-- A notice is an action and the rest. -/
theorem parseAttn_eq {data : Bytes} (h : 4 ≤ data.length) :
    parseAttn data = .ok ⟨signed 32 (beNat (data.take 4)), data.drop 4⟩ := by
  have hread := Reader.unsigned_ok ⟨data, 0, .attn⟩ 4 (by simpa using h)
  simp only [parseAttn, Reader.i32, hread]
  rfl

end XrdClient.Proto

namespace XrdClient.Session

open XrdClient.Lib
open XrdClient.Lib.Act
open XrdClient.Proto
open MachineState (effective finalReply)

namespace BulkReader

/-! ## What one receive can do -/

/-- The reader after `data` came off the wire.  Nothing else of it has moved, but
for the clock of a cancelled reader and, at a frame's first byte, `_torn`. -/
def Read (fresh : Bool) (r : BulkReader) (data : Bytes) (r' : BulkReader) : Prop :=
  r.incoming = data ++ r'.incoming ∧ ∃ ticks cancelBy,
    r' = { r with
      incoming := r'.incoming, ticks := ticks, cancelBy := cancelBy
      torn := r.torn || fresh && decide (data ≠ []) }

theorem Read.refl (fresh : Bool) (r : BulkReader) : Read fresh r [] r :=
  ⟨rfl, r.ticks, r.cancelBy, by simp⟩

/-- More came off the wire. -/
theorem Read.more {fresh : Bool} {r r' : BulkReader} {data : Bytes} (h : Read fresh r data r')
    {more : Bytes} (hmore : more ≠ []) {rest : Bytes} (hrest : r'.incoming = more ++ rest) :
    Read fresh r (data ++ more)
      { r' with incoming := rest, torn := r'.torn || fresh } := by
  obtain ⟨hin, ticks, by_, heq⟩ := h
  refine ⟨by simp [hin, hrest], ticks, by_, ?_⟩
  rw [heq]
  cases fresh <;> simp [hmore]

/-- The moments that pass, and the grace a cancelled reader gives itself, move nothing else. -/
theorem Read.wait {fresh : Bool} {r r' : BulkReader} {data : Bytes} (h : Read fresh r data r')
    (ticks : List Tick) (cancelBy : Option Int) :
    Read fresh r data { r' with ticks := ticks, cancelBy := cancelBy } := by
  obtain ⟨hin, _, _, heq⟩ := h
  refine ⟨hin, ticks, cancelBy, ?_⟩
  rw [heq]

theorem tick_sat {P : BulkReader → Prop} {E : BulkReader → Prop}
    (h : ∀ r ticks, P r → P { r with ticks := ticks }) : Sat P tick (fun _ => P) E := by
  intro r hr
  unfold tick
  cases hticks : r.ticks with
  | nil => exact hr
  | cons t ticks => exact h r ticks hr

/-- What `_check_clocks` moves is the grace of a cancelled reader. -/
theorem checkClocks_sat {P : BulkReader → Prop}
    (h : ∀ r cancelBy, P r → P { r with cancelBy := cancelBy }) (t : Tick) (outstanding : Nat) :
    Sat P (checkClocks t outstanding) (fun _ => P) P := by
  have habandon : Sat P (abandonNow t) (fun _ => P) P := by
    refine Sat.get_bind fun a => Sat.ite (fun _ => Sat.pure _ fun s hs => hs.2) fun _ => ?_
    refine Sat.modify_bind (M := P) (fun s hs => h s _ hs.2) (Sat.pure _ fun s hs => hs)
  have hgone : Sat P (abandoned t) (fun _ => P) P :=
    Sat.ite (fun _ => habandon) fun _ => Sat.pure _ fun s hs => hs
  refine Sat.bind hgone fun gone => Sat.ite (fun _ => Sat.throw _ fun s hs => hs) fun _ => ?_
  refine Sat.get_bind fun a => Sat.ite (fun _ => Sat.throw _ fun s hs => hs.2) fun _ => ?_
  exact Sat.ite (fun _ => Sat.throw _ fun s hs => hs.2) fun _ => Sat.pure _ fun s hs => hs.2

/-- The loop of `_exact`: all of what was asked for, or some and an exception. -/
theorem fill_sat (fresh : Bool) (r : BulkReader) : ∀ (fuel left : Nat) (got before : Bytes),
    Sat (Read fresh r before) (fill fresh fuel left got)
      (fun out r' => ∃ data, out = got ++ data ∧ data.length = left ∧
        Read fresh r (before ++ data) r')
      (fun r' => ∃ data, Read fresh r data r') := by
  intro fuel
  induction fuel with
  | zero => exact fun left got before => Sat.throw _ fun s hs => ⟨before, hs⟩
  | succ fuel ih =>
    intro left got before
    refine Sat.ite (fun h0 => Sat.pure _ fun s hs => ⟨[], by simp, h0.symm, by simpa using hs⟩)
      fun hleft => ?_
    refine Sat.bind (tick_sat fun s ticks hs => hs.wait ticks s.cancelBy) fun t => ?_
    refine Sat.bind (Q := fun _ => Read fresh r before)
      ((checkClocks_sat (fun s by_ hs => hs.wait s.ticks by_) t left).conseq (fun _ => id)
        (fun _ _ => id) fun s hs => ⟨before, hs⟩) fun _ => ?_
    cases t.received with
    | nothingYet => exact ih left got before
    | hangsUp => exact Sat.throw _ fun s hs => ⟨before, hs⟩
    | fails => exact Sat.throw _ fun s hs => ⟨before, hs⟩
    | bytes n =>
      refine Sat.bind (Q := fun read r' => ∃ r₁, Read fresh r before r₁ ∧ read.length ≤ left ∧
          r₁.incoming = read ++ r'.incoming ∧ r' = { r₁ with incoming := r'.incoming }) ?_
        fun read => ?_
      · intro s hs
        refine ⟨s, hs, ?_, (List.take_append_drop _ _).symm, rfl⟩
        simp only [List.length_take]
        omega
      · refine Sat.ite (fun _ => Sat.throw _ ?_) fun hread => ?_
        · rintro s ⟨r₁, h₁, -, hin, heq⟩
          rename_i hnil
          rw [hnil, List.nil_append] at hin
          rw [heq, ← hin]
          exact ⟨before, h₁⟩
        · refine Sat.bind (Q := fun _ s => Read fresh r (before ++ read) s ∧ read.length ≤ left) ?_
            fun _ => ?_
          · refine Sat.modify _ ?_
            rintro s ⟨r₁, h₁, hle, hin, heq⟩
            rw [heq]
            exact ⟨h₁.more hread hin, hle⟩
          · refine Sat.of_each fun a ha => ?_
            refine (ih (left - read.length) (got ++ read) (before ++ read)).conseq
              (fun s hs => hs ▸ ha.1) ?_ fun s hs => hs
            rintro out s ⟨data, hout, hlen, hdata⟩
            refine ⟨read ++ data, by simp [hout], ?_, by simpa using hdata⟩
            have := ha.2
            rw [List.length_append]
            omega

/-- `_exact`. -/
theorem exact_sat {P : BulkReader → Prop} {Q : Bytes → BulkReader → Prop} {E : BulkReader → Prop}
    (size : Nat) (fresh : Bool)
    (hok : ∀ r r' data, P r → Read fresh r data r' → data.length = size → Q data r')
    (herr : ∀ r r' data, P r → Read fresh r data r' → E r') : Sat P (exact size fresh) Q E := by
  refine Sat.of_each fun a ha => Sat.get_bind fun r => ?_
  refine (fill_sat fresh a (r.ticks.length + 2) size [] []).conseq
    (fun s hs => hs.2 ▸ .refl fresh a) ?_ ?_
  · rintro out s ⟨data, hout, hlen, hdata⟩
    rw [List.nil_append] at hout hdata
    exact hout ▸ hok a s data ha hdata hlen
  · rintro s ⟨data, hdata⟩
    exact herr a s data ha hdata

end BulkReader

/-! ## Frames on the wire -/

/-- One response as a server may send it: any stream, any status, any length that
its field holds, and the data that a status block declares. -/
structure Sent where
  header : Header
  body : Bytes
  data : Bytes
  sid_lt : header.sid < 0x10000
  status_lt : header.status < 0x10000
  dlen_lt : header.dlen < 0x100000000
  body_length : body.length = header.dlen
  data_length : declares header body = data.length

namespace Sent

def wire (fr : Sent) : Bytes := headerBytes fr.header ++ fr.body ++ fr.data

/-- The stream, status and body the frame comes down to; nothing for a notice. -/
def answer (fr : Sent) : Option (Nat × Nat × Bytes) :=
  effective fr.header.sid fr.header.status fr.body

/-- The frame is the last of the answer to a request on `s`. -/
def ends (s : Nat) (fr : Sent) : Bool :=
  match fr.answer with
  | some (sid, status, block) => decide (sid = s) && finalReply status block
  | none => false

/-- A `kXR_status` is the whole of its answer: it is final and no data follows it. -/
def Whole (fr : Sent) : Prop :=
  ∀ sid block, fr.answer = some (sid, kXR_status, block) →
    finalReply kXR_status block = true ∧ fr.data = []

/-- Nothing but a status block has data behind it. -/
theorem data_nil {fr : Sent} (h : ∀ sid block, fr.answer ≠ some (sid, kXR_status, block)) :
    fr.data = [] := by
  have hlen := fr.data_length
  unfold declares at hlen
  have hzero : (fr.data.length : Int) = 0 := by
    rw [← hlen]
    rcases hans : effective fr.header.sid fr.header.status fr.body with _ | ⟨sid, status, block⟩
    · rfl
    · have hne : status ≠ kXR_status := by
        rintro rfl
        exact h sid block hans
      simp [hne]
  exact List.length_eq_zero_iff.mp (by exact_mod_cast hzero)

/-- A frame that is no `kXR_attn` is the answer itself. -/
theorem answer_plain {fr : Sent} (h : fr.header.status ≠ kXR_attn) :
    fr.answer = some (fr.header.sid, fr.header.status, fr.body) := by
  simp [answer, effective, h]

/-- A `kXR_attn` that holds no answer is none. -/
theorem answer_notice {fr : Sent} (hstatus : fr.header.status = kXR_attn)
    (h : ∀ sid status block, MachineState.unwrapAttn fr.body ≠ .inner sid status block) :
    fr.answer = none := by
  unfold answer effective
  rw [if_pos hstatus]
  cases hu : MachineState.unwrapAttn fr.body with
  | inner sid status block => exact absurd hu (h sid status block)
  | notice info => rfl
  | bad e => rfl

/-- A deferred answer is the frame behind two headers. -/
theorem answer_deferred {fr : Sent} {inner : Header} {head second rest : Bytes}
    (hstatus : fr.header.status = kXR_attn) (hbody : fr.body = head ++ (second ++ rest))
    (hhead : head.length = HEADER) (hsecond : second.length = HEADER)
    (haction : ∀ info, parseAttn head = .ok info → info.action = kXR_asynresp)
    (hinner : headerFields second = .ok inner) :
    fr.answer = some (inner.sid, inner.status, rest) := by
  have h8 : (8 : Nat) = HEADER := rfl
  have hlong : 16 ≤ fr.body.length := by
    rw [hbody, List.length_append, List.length_append, hhead, hsecond, ← h8]
    omega
  have hattn : parseAttn fr.body = .ok ⟨signed 32 (beNat (head.take 4)), fr.body.drop 4⟩ := by
    rw [parseAttn_eq (by omega), hbody, List.take_append_of_le_length (by rw [hhead]; decide)]
  have hasync : signed 32 (beNat (head.take 4)) = kXR_asynresp :=
    haction _ (parseAttn_eq (by rw [hhead]; decide))
  have hdrop : fr.body.drop 8 = second ++ rest := by rw [hbody, h8, ← hhead, List.drop_left]
  have hfields : headerFields fr.body 8 = .ok inner := by
    show headerFields (fr.body.drop 8) 0 = .ok inner
    rw [hdrop, headerFields_append _ (by rw [hsecond]; decide), hinner]
  have hrest : fr.body.drop 16 = rest := by
    rw [show (16 : Nat) = 8 + 8 from rfl, ← List.drop_drop, hdrop, h8, ← hsecond, List.drop_left]
  unfold answer effective MachineState.unwrapAttn
  rw [if_pos hstatus, hattn]
  simp only [hasync, hlong, and_self, if_true, hfields, hrest]

theorem Whole.data_nil {fr : Sent} (h : fr.Whole) : fr.data = [] := by
  by_cases hstatus : ∃ sid block, fr.answer = some (sid, kXR_status, block)
  · obtain ⟨sid, block, hans⟩ := hstatus
    exact (h sid block hans).2
  · exact Sent.data_nil fun sid block hans => hstatus ⟨sid, block, hans⟩

theorem Whole.ends_eq {fr : Sent} (h : fr.Whole) {sid status : Nat} {block : Bytes}
    (hans : fr.answer = some (sid, status, block)) (s : Nat) :
    fr.ends s = (decide (sid = s) && decide (status ≠ kXR_oksofar ∧ status ≠ kXR_waitresp)) := by
  unfold ends
  rw [hans]
  dsimp only
  by_cases hstatus : status = kXR_status
  · subst hstatus
    rw [(h sid block hans).1]
    rfl
  · simp [finalReply, hstatus]

end Sent

/-- How many answers on `s` are over, among some frames. -/
def finals (done : List Sent) (s : Nat) : Nat := done.countP (Sent.ends s)

@[simp] theorem finals_snoc (done : List Sent) (fr : Sent) (s : Nat) :
    finals (done ++ [fr]) s = finals done s + (fr.ends s).toNat := by
  simp [finals, List.countP_append, List.countP_singleton]
  cases fr.ends s <;> rfl

/-- The bytes of some frames. -/
def wires (frames : List Sent) : Bytes := frames.flatMap Sent.wire

@[simp] theorem wires_nil : wires [] = [] := rfl

@[simp] theorem wires_cons (fr : Sent) (rest : List Sent) :
    wires (fr :: rest) = headerBytes fr.header ++ (fr.body ++ (fr.data ++ wires rest)) := by
  simp [wires, Sent.wire]

namespace BulkReader

/-- The ids of a call, and those of them that the reader would give back. -/
structure Loan where
  sids : List Nat
  held : List Nat

variable (all : List Sent) (loan : Loan) (spare : List Nat)

/-! ## The invariant -/

/-- Every request that went out has had its last reply, or it is owed one, or the
machine knows that it is. -/
def Balanced (done : List Sent) (r : BulkReader) : Prop :=
  ∀ s, r.issued.count s =
    finals done s + if s ∈ r.owed ∨ s ∈ r.machine.retired then 1 else 0

/-- The wire is between two frames, with `done` read and `rest` to come. -/
def Synced (r : BulkReader) : Prop :=
  r.broken = false → ∃ done rest, all = done ++ rest ∧ r.incoming = wires rest ∧ Balanced done r

/-- The ids of the call in progress are on the machine's books, only they are owed,
and those the call has to spare are not. -/
structure Lent (r : BulkReader) : Prop where
  held : r.leased = loan.held
  apart : r.machine.Apart
  nodup : loan.sids.Nodup
  leased : ∀ s ∈ loan.sids, s ∈ r.machine.leased
  owed : ∀ s ∈ r.owed, s ∈ loan.sids
  spare_nodup : spare.Nodup
  free : ∀ s ∈ spare, s ∈ loan.sids ∧ s ∉ r.owed

/-- In a call, between two frames. -/
structure Between (r : BulkReader) : Prop where
  lent : Lent loan spare r
  torn : r.torn = false
  synced : Synced all r

/-- In a call, wherever: if the wire is not torn it is between two frames. -/
structure Guarded (r : BulkReader) : Prop where
  lent : Lent loan [] r
  synced : r.torn = false → Synced all r

/-- In a frame whose header was read. -/
structure Opened (header : Header) (r : BulkReader) : Prop where
  lent : Lent loan spare r
  torn : r.torn = true
  frame : r.broken = false → ∃ done fr rest, all = done ++ fr :: rest ∧ fr.header = header ∧
    r.incoming = fr.body ++ (fr.data ++ wires rest) ∧ Balanced done r

/-- In a frame that answers `reply.sid`, in front of the answer's body. -/
structure Inside (reply : Header) (r : BulkReader) : Prop where
  lent : Lent loan spare r
  torn : r.torn = true
  frame : r.broken = false → ∃ done fr rest block, all = done ++ fr :: rest ∧
    fr.answer = some (reply.sid, reply.status, block) ∧ block.length = reply.dlen ∧
    r.incoming = block ++ (fr.data ++ wires rest) ∧ Balanced done r

/-- Behind that body, where the frame is over but for its data. -/
structure Past (reply : Header) (r : BulkReader) : Prop where
  lent : Lent loan spare r
  frame : r.broken = false → ∃ done fr rest block, all = done ++ fr :: rest ∧
    fr.answer = some (reply.sid, reply.status, block) ∧
    r.incoming = fr.data ++ wires rest ∧ Balanced done r

variable {all loan spare}

/-- A loan is about the machine and what is owed, and nothing else of the reader. -/
theorem Lent.same {r r' : BulkReader} (h : Lent loan spare r) (hl : r'.leased = r.leased)
    (hm : r'.machine = r.machine) (ho : r'.owed = r.owed) : Lent loan spare r' :=
  ⟨hl.trans h.held, hm ▸ h.apart, h.nodup, hm ▸ h.leased, ho ▸ h.owed, h.spare_nodup, ho ▸ h.free⟩

theorem Lent.spend {r : BulkReader} (h : Lent loan spare r) : Lent loan [] r :=
  ⟨h.held, h.apart, h.nodup, h.leased, h.owed, by simp, by simp⟩

theorem Between.guarded {r : BulkReader} (h : Between all loan spare r) : Guarded all loan r :=
  ⟨h.lent.spend, fun _ => h.synced⟩

/-- A torn wire asks for nothing. -/
theorem Guarded.of_torn {r : BulkReader} (h : Lent loan spare r) (ht : r.torn = true) :
    Guarded all loan r :=
  ⟨h.spend, fun hf => by rw [ht] at hf; cases hf⟩

/-! ## What a read leaves alone -/

theorem Read.lent {fresh : Bool} {r r' : BulkReader} {data : Bytes} (h : Read fresh r data r')
    (hr : Lent loan spare r) : Lent loan spare r' := by
  obtain ⟨-, ticks, by_, heq⟩ := h
  rw [heq]
  exact hr.same rfl rfl rfl

theorem Read.balanced {fresh : Bool} {r r' : BulkReader} {data : Bytes} (h : Read fresh r data r')
    {done : List Sent} (hr : Balanced done r) : Balanced done r' := by
  obtain ⟨-, ticks, by_, heq⟩ := h
  rw [heq]
  exact hr

theorem Read.owed {fresh : Bool} {r r' : BulkReader} {data : Bytes} (h : Read fresh r data r') :
    r'.owed = r.owed := by
  obtain ⟨-, ticks, by_, heq⟩ := h
  rw [heq]

theorem Read.broken {fresh : Bool} {r r' : BulkReader} {data : Bytes} (h : Read fresh r data r') :
    r'.broken = r.broken := by
  obtain ⟨-, ticks, by_, heq⟩ := h
  rw [heq]

theorem Read.torn {fresh : Bool} {r r' : BulkReader} {data : Bytes} (h : Read fresh r data r') :
    r'.torn = (r.torn || fresh && decide (data ≠ [])) := by
  obtain ⟨-, ticks, by_, heq⟩ := h
  rw [heq]

theorem Read.trans {fresh : Bool} {r r' r'' : BulkReader} {data more : Bytes}
    (h : Read fresh r data r') (h' : Read fresh r' more r'') : Read fresh r (data ++ more) r'' := by
  obtain ⟨hin, ticks, by_, heq⟩ := h
  obtain ⟨hin', ticks', by_', heq'⟩ := h'
  refine ⟨by rw [hin, hin', List.append_assoc], ticks', by_', ?_⟩
  rw [heq', heq]
  by_cases hdata : data = [] <;> cases fresh <;> simp [hdata]

/-- A read that went wrong in the middle of a frame. -/
theorem Read.guarded {fresh : Bool} {r r' : BulkReader} {data : Bytes} (h : Read fresh r data r')
    (hr : Lent loan spare r) (ht : r.torn = true) : Guarded all loan r' := by
  refine .of_torn (h.lent hr) ?_
  rw [h.torn, ht, Bool.true_or]

/-- The frame's bytes come off the wire in front of what is behind them. -/
theorem Read.split {fresh : Bool} {r r' : BulkReader} {data body rest : Bytes}
    (h : Read fresh r data r') (hin : r.incoming = body ++ rest) (hlen : data.length ≤ body.length) :
    body = data ++ body.drop data.length ∧ r'.incoming = body.drop data.length ++ rest := by
  have heq : data ++ r'.incoming = body ++ rest := h.1.symm.trans hin
  obtain ⟨more, rfl, hmore⟩ : ∃ more, body = data ++ more ∧ r'.incoming = more ++ rest := by
    rcases List.append_eq_append_iff.mp heq with ⟨more, h1, h2⟩ | ⟨more, h1, h2⟩
    · exact ⟨more, h1, h2⟩
    · have hnil : more = [] := by
        rw [h1, List.length_append] at hlen
        exact List.length_eq_zero_iff.mp (by omega)
      subst hnil
      exact ⟨[], by simpa using h1.symm, by simpa using h2.symm⟩
  rw [List.drop_left]
  exact ⟨rfl, hmore⟩

theorem Read.whole {fresh : Bool} {r r' : BulkReader} {data body rest : Bytes}
    (h : Read fresh r data r') (hin : r.incoming = body ++ rest) (hlen : data.length = body.length) :
    body = data ∧ r'.incoming = rest := by
  obtain ⟨hbody, hrest⟩ := h.split hin (Nat.le_of_eq hlen)
  have hover : body.drop data.length = [] := List.drop_of_length_le (Nat.le_of_eq hlen.symm)
  rw [hover] at hbody hrest
  exact ⟨by simpa using hbody, hrest⟩

/-! ## One frame -/

theorem decoded_sat {α : Type} {P : BulkReader → Prop} {Q : α → BulkReader → Prop}
    {E : BulkReader → Prop} (x : Except ProtocolError α)
    (hok : ∀ a, x = .ok a → ∀ r, P r → Q a r) (herr : ∀ r, P r → E r) : Sat P (decoded x) Q E := by
  cases x with
  | ok a => exact Sat.pure a fun r hr => hok a rfl r hr
  | error e => exact Sat.throw _ herr

theorem body_sat {P : BulkReader → Prop} {Q : Bytes → BulkReader → Prop} {E : BulkReader → Prop}
    (size : Nat)
    (hok : ∀ r r' data, P r → Read false r data r' → data.length = size →
      Q data { r' with torn := false })
    (herr : ∀ r r' data, P r → Read false r data r' → E r') : Sat P (body size) Q E := by
  refine Sat.bind (Q := fun data r' => ∃ r, P r ∧ Read false r data r' ∧ data.length = size)
    (exact_sat size false (fun r r' data hr hread hlen => ⟨r, hr, hread, hlen⟩) herr) fun data => ?_
  refine Sat.modify_bind (M := Q data) ?_ (Sat.pure data fun r hr => hr)
  rintro r' ⟨r, hr, hread, hlen⟩
  exact hok r r' data hr hread hlen

/-- A header that the reader takes for one is one. -/
theorem exact_header_sat : Sat (Between all loan spare) (exact HEADER true)
    (fun data r => Lent loan spare r ∧ r.torn = true ∧ (r.broken = false →
      ∃ done fr rest, all = done ++ fr :: rest ∧ headerBytes fr.header = data ∧
        r.incoming = fr.body ++ (fr.data ++ wires rest) ∧ Balanced done r))
    (Guarded all loan) := by
  refine exact_sat HEADER true ?_ ?_
  · intro r r' data hr hread hlen
    have hne : data ≠ [] := by
      rintro rfl
      cases hlen
    refine ⟨hread.lent hr.lent, by simp [hread.torn, hne], fun hb => ?_⟩
    rw [hread.broken] at hb
    obtain ⟨done, rest, hall, hin, hbal⟩ := hr.synced hb
    cases rest with
    | nil =>
      rw [hread.1, wires_nil, List.append_eq_nil_iff] at hin
      exact absurd hin.1 hne
    | cons fr rest =>
      rw [wires_cons] at hin
      obtain ⟨hbody, hrest⟩ := hread.whole hin (hlen.trans (length_headerBytes _).symm)
      exact ⟨done, fr, rest, hall, hbody, hrest, hread.balanced hbal⟩
  · intro r r' data hr hread
    refine ⟨(hread.lent hr.lent).spend, fun ht => ?_⟩
    -- the wire is not torn, so not a byte of the frame has come
    have hnil : data = [] := by
      rw [hread.torn, hr.torn] at ht
      simpa using ht
    intro hb
    rw [hread.broken] at hb
    obtain ⟨done, rest, hall, hin, hbal⟩ := hr.synced hb
    refine ⟨done, rest, hall, ?_, hread.balanced hbal⟩
    rw [← hin, hread.1, hnil, List.nil_append]

theorem openFrame_sat {data : Bytes} : Sat (fun r => Lent loan spare r ∧ r.torn = true ∧
      (r.broken = false → ∃ done fr rest, all = done ++ fr :: rest ∧ headerBytes fr.header = data ∧
        r.incoming = fr.body ++ (fr.data ++ wires rest) ∧ Balanced done r))
    (decoded (headerFields data)) (fun header => Opened all loan spare header) (Guarded all loan) := by
  refine decoded_sat _ ?_ ?_
  · rintro header hheader r ⟨hlent, htorn, hframe⟩
    refine ⟨hlent, htorn, fun hb => ?_⟩
    obtain ⟨done, fr, rest, hall, hbytes, hin, hbal⟩ := hframe hb
    rw [← hbytes] at hheader
    exact ⟨done, fr, rest, hall,
      (eq_of_headerFields fr.sid_lt fr.status_lt fr.dlen_lt hheader).symm, hin, hbal⟩
  · rintro r ⟨hlent, htorn, -⟩
    exact .of_torn hlent htorn

/-- A frame that is no `kXR_attn` is the answer itself. -/
theorem Opened.inside {header : Header} {r : BulkReader} (h : Opened all loan spare header r)
    (hstatus : header.status ≠ kXR_attn) : Inside all loan spare header r := by
  refine ⟨h.lent, h.torn, fun hb => ?_⟩
  obtain ⟨done, fr, rest, hall, rfl, hin, hbal⟩ := h.frame hb
  exact ⟨done, fr, rest, fr.body, hall, Sent.answer_plain hstatus, fr.body_length, hin, hbal⟩

/-- A notice is over behind its body. -/
theorem Opened.notice {header : Header} {r r' : BulkReader} {data : Bytes}
    (h : Opened all loan spare header r) (hread : Read false r data r')
    (hlen : data.length = header.dlen) (hstatus : header.status = kXR_attn)
    (hnotice : ∀ sid status block, MachineState.unwrapAttn data ≠ .inner sid status block) :
    Between all loan spare { r' with torn := false } := by
  refine ⟨(hread.lent h.lent).same rfl rfl rfl, rfl, fun hb => ?_⟩
  obtain ⟨done, fr, rest, hall, rfl, hin, hbal⟩ := h.frame (hread.broken ▸ hb)
  obtain ⟨hbody, hrest⟩ := hread.whole hin (hlen.trans fr.body_length.symm)
  have hanswer : fr.answer = none := Sent.answer_notice hstatus (hbody ▸ hnotice)
  have hdata : fr.data = [] := Sent.data_nil fun sid block => by rw [hanswer]; simp
  have hends : ∀ s, fr.ends s = false := fun s => by simp [Sent.ends, hanswer]
  refine ⟨done ++ [fr], rest, by simp [hall], ?_, fun s => ?_⟩
  · rw [show ({ r' with torn := false } : BulkReader).incoming = r'.incoming from rfl, hrest, hdata,
      List.nil_append]
  · rw [finals_snoc, hends, Bool.toNat_false, Nat.add_zero]
    exact hread.balanced hbal s

/-- A deferred answer is the frame behind two headers. -/
theorem Opened.unwrap {header inner : Header} {r r' : BulkReader} {head second : Bytes}
    (h : Opened all loan spare header r) (hread : Read false r (head ++ second) r')
    (hhead : head.length = HEADER) (hsecond : second.length = HEADER) (hlen : ASYNC ≤ header.dlen)
    (hstatus : header.status = kXR_attn)
    (haction : ∀ info, parseAttn head = .ok info → info.action = kXR_asynresp)
    (hinner : headerFields second = .ok inner) :
    Inside all loan spare ⟨inner.sid, inner.status, header.dlen - ASYNC⟩ r' := by
  refine ⟨hread.lent h.lent, by rw [hread.torn, h.torn, Bool.true_or], fun hb => ?_⟩
  obtain ⟨done, fr, rest, hall, rfl, hin, hbal⟩ := h.frame (hread.broken ▸ hb)
  have h16 : (head ++ second).length = ASYNC := by
    rw [List.length_append, hhead, hsecond]
    rfl
  obtain ⟨hbody, hrest⟩ := hread.split hin (by rw [h16, fr.body_length]; exact hlen)
  rw [h16] at hbody hrest
  refine ⟨done, fr, rest, fr.body.drop ASYNC, hall, ?_, ?_, hrest, hread.balanced hbal⟩
  · show fr.answer = some (inner.sid, inner.status, fr.body.drop ASYNC)
    exact Sent.answer_deferred hstatus (by rw [← List.append_assoc]; exact hbody) hhead hsecond
      haction hinner
  · rw [List.length_drop, fr.body_length]

theorem note_sat (block : Bytes) :
    Sat (Between all loan spare) (note block) (fun _ => Between all loan spare) (Guarded all loan) := by
  refine Sat.bind (decoded_sat (Q := fun _ => Between all loan spare) _ (fun _ _ r hr => hr)
    fun r hr => hr.guarded) fun notice => Sat.modify _ fun r hr => ?_
  exact ⟨hr.lent.same rfl rfl rfl, hr.torn, hr.synced⟩

/-- A notice too short to hold an answer holds none. -/
theorem unwrapAttn_short {data : Bytes} (h : data.length < ASYNC) (sid status : Nat)
    (block : Bytes) : MachineState.unwrapAttn data ≠ .inner sid status block := by
  have hless : ¬ 16 ≤ data.length := Nat.not_le_of_lt h
  unfold MachineState.unwrapAttn
  cases parseAttn data with
  | error e => simp
  | ok info => simp [hless]

/-- A notice of another action holds no answer. -/
theorem unwrapAttn_other {head data : Bytes} (hhead : head.length = HEADER) {info : AttnInfo}
    (hinfo : parseAttn head = .ok info) (haction : info.action ≠ kXR_asynresp) (sid status : Nat)
    (block : Bytes) : MachineState.unwrapAttn (head ++ data) ≠ .inner sid status block := by
  have hhead4 : 4 ≤ head.length := by
    rw [hhead]
    decide
  rw [parseAttn_eq hhead4] at hinfo
  have hno : signed 32 (beNat ((head ++ data).take 4)) ≠ kXR_asynresp := by
    rw [List.take_append_of_le_length hhead4]
    intro h
    exact haction (Except.ok.inj hinfo ▸ h)
  unfold MachineState.unwrapAttn
  rw [parseAttn_eq (by rw [List.length_append]; omega)]
  simp [hno]

/-- `_frame_header`: behind a notice, or in front of an answer's body. -/
theorem frameHeader_sat : Sat (Between all loan spare) frameHeader
    (fun result r => match result with
      | none => Between all loan spare r
      | some reply => Inside all loan spare reply r)
    (Guarded all loan) := by
  refine Sat.bind exact_header_sat fun data => Sat.bind openFrame_sat fun header => ?_
  refine Sat.ite (fun hstatus => Sat.pure _ fun r hr => hr.inside hstatus) fun hattn => ?_
  have hstatus : header.status = kXR_attn := not_not.mp hattn
  refine Sat.ite (fun hshort => ?_) fun hlong => ?_
  · refine Sat.bind (Q := fun _ => Between all loan spare) (body_sat _ ?_ ?_) fun block => ?_
    · intro r r' data hr hread hlen
      exact hr.notice hread hlen hstatus (unwrapAttn_short (by rw [hlen]; exact hshort))
    · intro r r' data hr hread
      exact hread.guarded hr.lent hr.torn
    · exact Sat.bind (note_sat block) fun _ => Sat.pure _ fun r hr => hr
  · have hdlen : ASYNC ≤ header.dlen := Nat.le_of_not_lt hlong
    -- what is read from here on starts with these eight bytes
    refine Sat.bind (Q := fun head r => ∃ r₀, Opened all loan spare header r₀ ∧ Read false r₀ head r ∧
      head.length = HEADER) (exact_sat _ _ ?_ ?_) fun head => ?_
    · intro r r' data hr hread hlen
      exact ⟨r, hr, hread, hlen⟩
    · intro r r' data hr hread
      exact hread.guarded hr.lent hr.torn
    refine Sat.bind (Q := fun info r => parseAttn head = .ok info ∧ ∃ r₀,
      Opened all loan spare header r₀ ∧ Read false r₀ head r ∧ head.length = HEADER)
      (decoded_sat _ (fun info h r hr => ⟨h, hr⟩) ?_) fun info => ?_
    · rintro r ⟨r₀, h₀, hread, -⟩
      exact hread.guarded h₀.lent h₀.torn
    refine Sat.ite (fun haction => ?_) fun haction => ?_
    · refine Sat.bind (Q := fun second r => parseAttn head = .ok info ∧ ∃ r₀,
        Opened all loan spare header r₀ ∧ Read false r₀ (head ++ second) r ∧ head.length = HEADER ∧
          second.length = HEADER) (exact_sat _ _ ?_ ?_) fun second => ?_
      · rintro r r' data ⟨hinfo, r₀, h₀, hread, hlen⟩ hmore hlen'
        exact ⟨hinfo, r₀, h₀, hread.trans hmore, hlen, hlen'⟩
      · rintro r r' data ⟨hinfo, r₀, h₀, hread, hlen⟩ hmore
        exact (hread.trans hmore).guarded h₀.lent h₀.torn
      · refine Sat.bind (Q := fun inner => Inside all loan spare ⟨inner.sid, inner.status,
          header.dlen - ASYNC⟩) (decoded_sat _ ?_ ?_) fun inner => Sat.pure _ fun r hr => hr
        · rintro inner hinner r ⟨hinfo, r₀, h₀, hread, hhead, hsecond⟩
          refine h₀.unwrap hread hhead hsecond hdlen hstatus (fun info' hinfo' => ?_) hinner
          rw [hinfo] at hinfo'
          exact Except.ok.inj hinfo' ▸ haction
        · rintro r ⟨hinfo, r₀, h₀, hread, hhead, hsecond⟩
          exact hread.guarded h₀.lent h₀.torn
    · refine Sat.bind (Q := fun _ => Between all loan spare) (body_sat _ ?_ ?_) fun block => ?_
      · rintro r r' data ⟨hinfo, r₀, h₀, hread, hhead⟩ hmore hlen
        have hall : (head ++ data).length = header.dlen := by
          rw [List.length_append, hhead, hlen]
          have : HEADER ≤ ASYNC := by decide
          omega
        exact h₀.notice (hread.trans hmore) hall hstatus (unwrapAttn_other hhead hinfo haction)
      · rintro r r' data ⟨hinfo, r₀, h₀, hread, hhead⟩ hmore
        exact (hread.trans hmore).guarded h₀.lent h₀.torn
      · exact Sat.bind (note_sat _) fun _ => Sat.pure _ fun r hr => hr

/-! ## The end of a frame

From here on a frame is over where its header says that it is. -/

/-- What is left of a frame comes off the wire. -/
theorem Inside.past {reply : Header} {r r' : BulkReader} {data : Bytes}
    (h : Inside all loan spare reply r) (hread : Read false r data r')
    (hlen : data.length = reply.dlen) : Past all loan spare reply { r' with torn := false } := by
  refine ⟨(hread.lent h.lent).same rfl rfl rfl, fun hb => ?_⟩
  obtain ⟨done, fr, rest, block, hall, hans, hblock, hin, hbal⟩ := h.frame (hread.broken ▸ hb)
  obtain ⟨-, hrest⟩ := hread.whole hin (hlen.trans hblock.symm)
  exact ⟨done, fr, rest, block, hall, hans, hrest, hread.balanced hbal⟩

/-- `_deferred` moves the stall clock. -/
theorem deferred_sat (block : Bytes) :
    Sat (Between all loan spare) (deferred block) (fun _ => Between all loan spare)
      (Guarded all loan) := by
  have hclock : ∀ (r : BulkReader) ticks expires, Between all loan spare r →
      Between all loan spare { r with ticks := ticks, expires := expires } := fun r ticks expires hr =>
    ⟨hr.lent.same rfl rfl rfl, hr.torn, hr.synced⟩
  refine Sat.bind (decoded_sat (Q := fun _ => Between all loan spare) _ (fun _ _ r hr => hr)
    fun r hr => hr.guarded) fun later => ?_
  refine Sat.bind (tick_sat fun r ticks hr => hclock r ticks r.expires hr) fun t => ?_
  exact Sat.modify _ fun r hr => hclock r r.ticks _ hr

section

variable (hwhole : ∀ fr ∈ all, fr.Whole)

include hwhole

/-- A partial reply, or the promise of one, leaves its stream owed. -/
theorem Past.more {reply : Header} {r : BulkReader} (h : Past all loan spare reply r)
    (hstatus : reply.status = kXR_oksofar ∨ reply.status = kXR_waitresp) (ht : r.torn = false) :
    Between all loan spare r := by
  refine ⟨h.lent, ht, fun hb => ?_⟩
  obtain ⟨done, fr, rest, block, hall, hans, hin, hbal⟩ := h.frame hb
  have hfr : fr.Whole := hwhole fr (by simp [hall])
  refine ⟨done ++ [fr], rest, by simp [hall], by rw [hin, hfr.data_nil, List.nil_append], fun s => ?_⟩
  have hends : fr.ends s = false := by
    rw [hfr.ends_eq hans]
    rcases hstatus with h | h <;> simp [h]
  rw [finals_snoc, hends, Bool.toNat_false, Nat.add_zero]
  exact hbal s

/-- A final reply settles its stream. -/
theorem Past.final {reply : Header} {r : BulkReader} (h : Past all loan spare reply r)
    (hsofar : reply.status ≠ kXR_oksofar) (hlater : reply.status ≠ kXR_waitresp)
    (ht : r.torn = false) (howed : reply.sid ∈ r.owed) :
    Between all loan (reply.sid :: spare) { r with owed := r.owed.filter (· ≠ reply.sid) } := by
  have hsub : ∀ s ∈ r.owed.filter (· ≠ reply.sid), s ∈ r.owed := fun s hs => List.mem_of_mem_filter hs
  refine ⟨⟨h.lent.held, h.lent.apart, h.lent.nodup, h.lent.leased,
    fun s hs => h.lent.owed s (hsub s hs), ?_, ?_⟩, ht, fun hb => ?_⟩
  · exact List.nodup_cons.mpr ⟨fun hs => (h.lent.free _ hs).2 howed, h.lent.spare_nodup⟩
  · intro s hs
    rcases List.mem_cons.mp hs with rfl | hs
    · exact ⟨h.lent.owed _ howed, by simp⟩
    · exact ⟨(h.lent.free s hs).1, fun hin => (h.lent.free s hs).2 (hsub s hin)⟩
  obtain ⟨done, fr, rest, block, hall, hans, hin, hbal⟩ := h.frame hb
  have hfr : fr.Whole := hwhole fr (by simp [hall])
  refine ⟨done ++ [fr], rest, by simp [hall], by rw [hin, hfr.data_nil, List.nil_append], fun s => ?_⟩
  have hends : fr.ends s = decide (reply.sid = s) := by
    rw [hfr.ends_eq hans]
    simp [hsofar, hlater]
  have hcount := hbal s
  rw [finals_snoc, hends]
  dsimp only
  rw [hcount]
  by_cases hs : s = reply.sid
  · subst hs
    have hretired : reply.sid ∉ r.machine.retired := by
      intro hr
      have h1 := h.lent.apart reply.sid
      have h2 := List.count_pos_iff.mpr hr
      have h3 := List.count_pos_iff.mpr (h.lent.leased _ (h.lent.owed _ howed))
      unfold MachineState.places at h1
      omega
    simp [howed, hretired]
  · have hne : reply.sid ≠ s := fun h => hs h.symm
    simp [hs, hne]

/-- `_next_reply`: an answer to a request still owed, and no promise of one. -/
theorem nextReplyLoop_sat : ∀ fuel, Sat (Between all loan spare) (nextReplyLoop fuel)
    (fun reply r => Inside all loan spare reply r ∧ reply.sid ∈ r.owed ∧
      reply.status ≠ kXR_waitresp)
    (Guarded all loan) := by
  intro fuel
  induction fuel with
  | zero => exact Sat.throw _ fun r hr => hr.guarded
  | succ fuel ih =>
    refine Sat.bind frameHeader_sat fun result => ?_
    cases result with
    | none => exact ih
    | some reply =>
      refine Sat.get_bind fun a => Sat.ite (fun _ => Sat.throw _ ?_) fun howed => ?_
      · rintro r ⟨-, hr⟩
        exact .of_torn hr.lent hr.torn
      have howed : reply.sid ∈ a.owed := not_not.mp howed
      refine Sat.ite (fun hstatus => Sat.pure _ ?_) fun hstatus => ?_
      · rintro r ⟨rfl, hr⟩
        exact ⟨hr, howed, hstatus⟩
      have hstatus : reply.status = kXR_waitresp := not_not.mp hstatus
      refine Sat.bind (Q := fun _ => Between all loan spare) (body_sat _ ?_ ?_) fun block => ?_
      · rintro r r' data ⟨-, hr⟩ hread hlen
        exact (hr.past hread hlen).more hwhole (.inr hstatus) rfl
      · rintro r r' data ⟨-, hr⟩ hread
        exact hread.guarded hr.lent hr.torn
      · exact Sat.bind (deferred_sat block) fun _ => ih

theorem nextReply_sat : Sat (Between all loan spare) nextReply
    (fun reply r => Inside all loan spare reply r ∧ reply.sid ∈ r.owed ∧
      reply.status ≠ kXR_waitresp)
    (Guarded all loan) :=
  Sat.get_bind fun _ => (nextReplyLoop_sat hwhole _).pre fun _ hr => hr.2

/-- `_collect`: the stream it returns is one to spare. -/
theorem collect_sat (inflight : Assoc Nat InFlight) : Sat (Between all loan spare) (collect inflight)
    (fun result r => match result.1 with
      | none => Between all loan spare r
      | some sid => Between all loan (sid :: spare) r)
    (Guarded all loan) := by
  refine Sat.bind (nextReply_sat hwhole) fun reply => Sat.ite (fun hdata => ?_) fun hother => ?_
  · cases inflight.get reply.sid with
    | none => exact Sat.throw _ fun r hr => .of_torn hr.1.lent hr.1.torn
    | some entry =>
      -- the reader is past the body, and has yet to say so
      refine Sat.bind (Q := fun _ r => ∃ r₀ data, (Inside all loan spare reply r₀ ∧
        reply.sid ∈ r₀.owed) ∧ Read false r₀ data r ∧ data.length = reply.dlen) ?_ fun entry => ?_
      · refine Sat.ite (fun _ => Sat.throw _ fun r hr => .of_torn hr.1.lent hr.1.torn) fun _ => ?_
        refine Sat.bind (Q := fun _ r => ∃ r₀ data, (Inside all loan spare reply r₀ ∧
          reply.sid ∈ r₀.owed) ∧ Read false r₀ data r ∧ data.length = reply.dlen)
          (exact_sat _ _ ?_ ?_) fun data => Sat.pure _ fun r hr => hr
        · intro r r' data hr hread hlen
          exact ⟨r, data, ⟨hr.1, hr.2.1⟩, hread, hlen⟩
        · intro r r' data hr hread
          exact hread.guarded hr.1.lent hr.1.torn
      · refine Sat.modify_bind (M := fun r => Past all loan spare reply r ∧ r.torn = false ∧
          reply.sid ∈ r.owed) ?_ ?_
        · rintro r ⟨r₀, data, ⟨hr, howed⟩, hread, hlen⟩
          exact ⟨hr.past hread hlen, rfl, hread.owed ▸ howed⟩
        · refine Sat.ite (fun hsofar => Sat.pure _ ?_) fun hsofar => ?_
          · rintro r ⟨hr, ht, -⟩
            exact hr.more hwhole (.inl hsofar) ht
          · have hok : reply.status = kXR_ok := hdata.resolve_right hsofar
            refine Sat.modify_bind (M := Between all loan (reply.sid :: spare)) ?_
              (Sat.pure _ fun r hr => hr)
            rintro r ⟨hr, ht, howed⟩
            exact hr.final hwhole hsofar (by rw [hok]; decide) ht howed
  · refine Sat.bind (Q := fun _ r => Past all loan spare reply r ∧ r.torn = false ∧
      reply.sid ∈ r.owed ∧ reply.status ≠ kXR_waitresp) (body_sat _ ?_ ?_) fun block => ?_
    · rintro r r' data ⟨hr, howed, hlater⟩ hread hlen
      exact ⟨hr.past hread hlen, rfl, hread.owed ▸ howed, hlater⟩
    · rintro r r' data ⟨hr, -⟩ hread
      exact hread.guarded hr.lent hr.torn
    · refine Sat.modify_bind (M := Between all loan (reply.sid :: spare)) ?_
        (Sat.throw _ fun r hr => hr.guarded)
      rintro r ⟨hr, ht, howed, hlater⟩
      exact hr.final hwhole (fun h => hother (.inr h)) hlater ht howed

omit hwhole in
/-- `_drain`'s inner loop takes a reply off the wire, however large. -/
theorem discard_sat {sink : Nat} (hsink : 1 ≤ sink) (r : BulkReader) :
    ∀ (fuel left : Nat) (before : Bytes), left ≤ fuel →
      Sat (Read false r before) (discard sink fuel left)
        (fun _ r' => ∃ data, data.length = left ∧ Read false r (before ++ data) r')
        (fun r' => ∃ data, Read false r data r') := by
  intro fuel
  induction fuel with
  | zero =>
    intro left before hle
    refine Sat.pure _ fun r' hr => ⟨[], ?_, by simpa using hr⟩
    rw [List.length_nil]
    omega
  | succ fuel ih =>
    intro left before hle
    refine Sat.ite (fun hzero => Sat.pure _ fun r' hr => ⟨[], hzero.symm, by simpa using hr⟩)
      fun hleft => ?_
    refine Sat.bind (Q := fun read r' => Read false r (before ++ read) r' ∧
      read.length = min left sink) (exact_sat _ _ ?_ ?_) fun read => ?_
    · intro r₁ r' data h₁ hread hlen
      exact ⟨h₁.trans hread, hlen⟩
    · intro r₁ r' data h₁ hread
      exact ⟨before ++ data, h₁.trans hread⟩
    · refine Sat.of_each fun a ha => ?_
      refine (ih (left - min left sink) (before ++ read) (by omega)).conseq
        (fun s hs => hs ▸ ha.1) ?_ fun s hs => hs
      rintro _ s ⟨data, hlen, hdata⟩
      refine ⟨read ++ data, ?_, by simpa using hdata⟩
      have := ha.2
      rw [List.length_append]
      omega

omit hwhole in
theorem Between.spend {r : BulkReader} (h : Between all loan spare r) : Between all loan [] r :=
  ⟨h.lent.spend, h.torn, h.synced⟩

/-- `_drain`. -/
theorem drainLoop_sat : ∀ fuel, Sat (Between all loan []) (drainLoop fuel)
    (fun _ => Guarded all loan) (Guarded all loan) := by
  intro fuel
  induction fuel with
  | zero => exact Sat.throw _ fun r hr => hr.guarded
  | succ fuel ih =>
    refine Sat.get_bind fun a => Sat.ite (fun _ => Sat.pure _ fun r hr => hr.2.guarded) fun _ => ?_
    refine Sat.bind ((nextReply_sat hwhole).pre fun r hr => hr.2) fun reply => ?_
    refine Sat.bind (Q := fun _ r => ∃ r₀ data, (Inside all loan [] reply r₀ ∧
      reply.sid ∈ r₀.owed ∧ reply.status ≠ kXR_waitresp) ∧ Read false r₀ data r ∧
        data.length = reply.dlen) ?_ fun _ => ?_
    · refine Sat.of_each fun r₀ h₀ => ?_
      have hsink : 1 ≤ min a.settings.chunk SINK :=
        Nat.le_min.mpr ⟨a.settings.chunk_pos, by decide⟩
      refine (discard_sat hsink r₀ reply.dlen reply.dlen [] (Nat.le_refl _)).conseq
        (fun r hr => hr ▸ .refl false r₀) ?_ ?_
      · rintro _ r ⟨data, hlen, hread⟩
        exact ⟨r₀, data, h₀, by simpa using hread, hlen⟩
      · rintro r ⟨data, hread⟩
        exact hread.guarded h₀.1.lent h₀.1.torn
    · refine Sat.modify_bind (M := fun r => Past all loan [] reply r ∧ r.torn = false ∧
        reply.sid ∈ r.owed ∧ reply.status ≠ kXR_waitresp) ?_ ?_
      · rintro r ⟨r₀, data, ⟨hr, howed, hlater⟩, hread, hlen⟩
        exact ⟨hr.past hread hlen, rfl, hread.owed ▸ howed, hlater⟩
      · refine Sat.bind (Q := fun _ => Between all loan []) ?_ fun _ => ih
        refine Sat.ite (fun hsofar => Sat.modify _ ?_) fun hsofar => Sat.pure _ ?_
        · rintro r ⟨hr, ht, howed, hlater⟩
          exact (hr.final hwhole hsofar hlater ht howed).spend
        · rintro r ⟨hr, ht, -⟩
          exact hr.more hwhole (.inl (not_not.mp hsofar)) ht

theorem drain_sat : Sat (Between all loan []) drain (fun _ => Guarded all loan) (Guarded all loan) :=
  Sat.get_bind fun _ => (drainLoop_sat hwhole _).pre fun _ hr => hr.2

end

end BulkReader

end XrdClient.Session
