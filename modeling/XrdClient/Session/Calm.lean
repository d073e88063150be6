/-
  Session/Calm.lean --- a bulk call in a world where nothing goes wrong.

  Source: `session/bulk.py`, `_begin`, `_exact`, `_check_clocks`, `_frame_header`,
  `_next_reply`, `_collect`, `_issue`, `_send`.

  THE WORLD.  Every moment is a good one (`Tick.Good`): nobody cancels, a send goes through,
  the consumer asks for more, and a receive gives something or nothing yet.  The clocks have
  time left, and there are moments enough for what is still on the link (`Supply`).  A byte
  that comes off it leaves two moments of the supply to spare, and took one at the most.

  THE SERVER.  What it sends is well formed (`Sent.Decodes`), and comes on an id that is owed
  an answer (`Due`).

  In such a world, with such a server, a receive returns, and with it everything above.
-/
import XrdClient.Session.Served

set_option autoImplicit false

namespace XrdClient.Session

open XrdClient.Lib
open XrdClient.Lib.Act
open XrdClient.Proto

/-- A moment at which nothing goes wrong. -/
structure Tick.Good (t : Tick) : Prop where
  cancelled : t.cancelled = false
  sent : t.sent = true
  goesOn : t.goesOn = true
  received : t.received = .nothingYet ∨ ∃ n, t.received = .bytes n

/-- The link lets something through. -/
def Tick.lets (t : Tick) : Bool :=
  match t.received with
  | .bytes _ => true
  | _ => false

namespace Sent

/-- The frame decodes as what its status says that it is. -/
structure Decodes (fr : Sent) : Prop where
  dlen : fr.header.dlen ≤ MAX_RESPONSE_BODY
  notice : fr.header.status = kXR_attn → 4 ≤ fr.header.dlen
  inner : fr.header.status = kXR_attn → ASYNC ≤ fr.header.dlen →
    signed 32 (beNat (fr.body.take 4)) = kXR_asynresp →
    ∃ inner, headerFields ((fr.body.drop HEADER).take HEADER) = .ok inner
  promise : ∀ sid block, fr.answer = some (sid, kXR_waitresp, block) →
    ∃ later, parseWaitresp block = .ok later

end Sent

namespace BulkReader

/-- However often it is asked to, the machine frames any of the reads on any of its ids. -/
def Frames (handle : Bytes) (reads : List (Nat × Nat)) (m : MachineState) : Prop :=
  ∃ M : MachineState → Prop, M m ∧ ∀ m, M m → ∀ sid ∈ m.leased, ∀ x ∈ reads, ∃ parts m',
    m.framePartsFor (readRequest handle x.1 x.2) sid = (.ok parts, m') ∧ M m'

/-- A machine that signs nothing frames every read. -/
theorem frames_unsigned {m : MachineState} (hsigner : m.signer = none) (handle : Bytes)
    (reads : List (Nat × Nat)) : Frames handle reads m := by
  refine ⟨fun m => m.signer = none, hsigner, fun m hm sid hsid x _ => ?_⟩
  have hpadded : (padded handle 4).length = 4 := by
    simp [padded]
    omega
  have hencode : ∃ parts, encodeParts (readRequest handle x.1 x.2) sid = .ok parts := by
    unfold encodeParts
    simp [hpadded, readRequest, kXR_read, inlineLimit]
  obtain ⟨parts, hparts⟩ := hencode
  refine ⟨parts, m, ?_, hm⟩
  rw [MachineState.framePartsFor, if_pos hsid, MachineState.frame, hparts, hm]

/-- Moments enough for what is on the link, and for `k` more. -/
structure Supply (reads : List (Nat × Nat)) (k : Nat) (s : BulkReader) : Prop where
  good : ∀ t ∈ s.ticks, t.Good
  inTime : ∀ t ∈ s.ticks, s.expired t = false ∧ s.expires.any (· < t.now) = false
  enough : 2 * s.incoming.length + k ≤ s.ticks.countP Tick.lets
  frames : Frames s.settings.handle reads s.machine
  held : ∀ sid ∈ s.leased, sid ∈ s.machine.leased

variable {reads : List (Nat × Nat)} {k : Nat} {r : BulkReader} {frames : List Sent}

theorem Supply.le {s : BulkReader} (h : Supply reads k s) {n : Nat} (hn : n ≤ k) : Supply reads n s :=
  ⟨h.good, h.inTime, Nat.le_trans (Nat.add_le_add_left hn _) h.enough, h.frames, h.held⟩

theorem Supply.same {s s' : BulkReader} (h : Supply reads k s) (hticks : s'.ticks = s.ticks)
    (hexpires : s'.expires = s.expires) (hdeadline : s'.deadline = s.deadline)
    (hin : s'.incoming = s.incoming) (hmachine : s'.machine = s.machine)
    (hsettings : s'.settings = s.settings) (hleased : s'.leased = s.leased) : Supply reads k s' := by
  refine ⟨?_, ?_, ?_, ?_, ?_⟩
  · rw [hticks]
    exact h.good
  · simp only [expired, hticks, hexpires, hdeadline]
    exact h.inTime
  · rw [hticks, hin]
    exact h.enough
  · rw [hsettings, hmachine]
    exact h.frames
  · rw [hleased, hmachine]
    exact h.held

/-- A moment passes, and something may have come off the link. -/
theorem Supply.after {s : BulkReader} (h : Supply reads k s) {t : Tick} {ticks : List Tick}
    (hticks : s.ticks = t :: ticks) {incoming : Bytes} {n : Nat}
    (henough : 2 * incoming.length + n ≤ ticks.countP Tick.lets) (torn : Bool) :
    Supply reads n { s with ticks := ticks, incoming := incoming, torn := torn } := by
  have hmem : ∀ {u}, u ∈ ticks → u ∈ s.ticks := fun hu => by
    rw [hticks]
    exact List.mem_cons_of_mem _ hu
  exact ⟨fun u hu => h.good u (hmem hu), fun u hu => h.inTime u (hmem hu), henough, h.frames, h.held⟩

/-- There is a moment while there is something to spare. -/
theorem Supply.tick {s : BulkReader} (h : Supply reads (k + 1) s) :
    ∃ t ticks, s.ticks = t :: ticks ∧ t.Good ∧ Supply reads k { s with ticks := ticks } := by
  have henough := h.enough
  cases hticks : s.ticks with
  | nil =>
    rw [hticks, List.countP_nil] at henough
    omega
  | cons t ticks =>
    rw [hticks, List.countP_cons] at henough
    have hone : (if t.lets = true then 1 else 0) ≤ 1 := by split <;> omega
    exact ⟨t, ticks, rfl, h.good t (by simp [hticks]), h.after hticks (by omega) s.torn⟩

theorem tick_cons {s : BulkReader} {t : Tick} {ticks : List Tick} (hticks : s.ticks = t :: ticks) :
    tick s = (.ok t, { s with ticks := ticks }) := by
  unfold tick
  rw [hticks]

theorem checkClocks_good {s : BulkReader} {t : Tick} (ht : t.Good) (hexpired : s.expired t = false)
    (hstalled : s.expires.any (· < t.now) = false) (n : Nat) : checkClocks t n s = (.ok (), s) := by
  unfold checkClocks abandoned
  rw [if_neg (by rw [ht.cancelled]; nofun)]
  show (if s.expired t = true then Act.throw .expired
    else if s.expires.any (· < t.now) = true then Act.throw (.stalled n) else pure () : Bulk Unit) s = _
  rw [hexpired, hstalled]
  rfl

/-! ## Bytes off the link -/

/-- The loop of `_exact` has all that it was asked for, as long as the link has it. -/
theorem fill_runs (fresh : Bool) (rest : Bytes) : ∀ (fuel k : Nat) (data got : Bytes) (s : BulkReader),
    Supply reads k s → s.incoming = data ++ rest → s.ticks.length < fuel →
    ∃ s', fill fresh fuel data.length got s = (.ok (got ++ data), s') ∧ s'.incoming = rest ∧
      Supply reads (k + data.length) s' := by
  intro fuel
  induction fuel with
  | zero => exact fun _ _ _ _ _ _ hfuel => absurd hfuel (Nat.not_lt_zero _)
  | succ fuel ih =>
    intro k data got s hs hin hfuel
    have henough := hs.enough
    unfold fill
    by_cases hdata : data = []
    · subst hdata
      rw [if_pos List.length_nil]
      exact ⟨s, by rw [List.append_nil]; rfl, hin, hs⟩
    have hpos : 0 < data.length := List.length_pos_iff.mpr hdata
    rw [if_neg (by omega)]
    have hlen : s.incoming.length = data.length + rest.length := by rw [hin, List.length_append]
    cases hticks : s.ticks with
    | nil =>
      rw [hticks, List.countP_nil] at henough
      omega
    | cons t ticks =>
    have ht := hs.good t (by rw [hticks]; exact List.mem_cons_self)
    have htime := hs.inTime t (by rw [hticks]; exact List.mem_cons_self)
    have htick := tick_cons hticks
    rw [hticks, List.countP_cons] at henough
    rw [hticks, List.length_cons] at hfuel
    rw [bind_of_ok htick, bind_of_ok (checkClocks_good (s := { s with ticks := ticks }) ht htime.1 htime.2 _)]
    rcases ht.received with hnone | ⟨n, hbytes⟩
    · have hlets : t.lets = false := by rw [Tick.lets, hnone]
      rw [hlets] at henough
      rw [hnone]
      exact ih k data got _ (hs.after hticks henough s.torn) hin (Nat.lt_of_succ_lt_succ hfuel)
    · have hlets : t.lets = true := by rw [Tick.lets, hbytes]
      rw [hlets, if_pos rfl] at henough
      rw [hbytes]
      dsimp only
      generalize hm : min (max n 1) data.length = m
      have hmpos : 0 < m := by omega
      have hmle : m ≤ data.length := by omega
      have htake : take m { s with ticks := ticks } =
          (.ok (data.take m), { s with ticks := ticks, incoming := data.drop m ++ rest }) := by
        unfold take
        dsimp only
        rw [hin, List.take_append_of_le_length hmle, List.drop_append_of_le_length hmle]
      have hread : data.take m ≠ [] := by
        intro hnil
        have := congrArg List.length hnil
        rw [List.length_take, List.length_nil] at this
        omega
      rw [bind_of_ok htake, if_neg hread]
      have hmore : 2 * (data.drop m ++ rest).length + (k + m) ≤ ticks.countP Tick.lets := by
        rw [List.length_append, List.length_drop]
        omega
      obtain ⟨s', hrun, hrest, hs'⟩ := ih (k + m) (data.drop m) (got ++ data.take m) _
        (hs.after hticks hmore (s.torn || fresh)) rfl (Nat.lt_of_succ_lt_succ hfuel)
      refine ⟨s', ?_, hrest, hs'.le ?_⟩
      · have hleft : data.length - (data.take m).length = (data.drop m).length := by
          rw [List.length_take, List.length_drop]
          omega
        rw [List.append_assoc, List.take_append_drop] at hrun
        rw [hleft]
        exact hrun
      · rw [List.length_drop]
        omega

theorem exact_runs (fresh : Bool) {data rest : Bytes} {s : BulkReader} (hs : Supply reads k s)
    (hin : s.incoming = data ++ rest) :
    ∃ s', exact data.length fresh s = (.ok data, s') ∧ s'.incoming = rest ∧
      Supply reads (k + data.length) s' :=
  fill_runs fresh rest (s.ticks.length + 2) k data [] s hs hin (by omega)

theorem body_runs {data rest : Bytes} {s : BulkReader} (hs : Supply reads k s)
    (hin : s.incoming = data ++ rest) :
    ∃ s', body data.length s = (.ok data, s') ∧ Supply reads (k + data.length) s' := by
  obtain ⟨s', hrun, -, hs'⟩ := exact_runs false hs hin
  refine ⟨{ s' with torn := false }, ?_, hs'.same rfl rfl rfl rfl rfl rfl rfl⟩
  unfold body
  rw [bind_of_ok hrun]
  rfl

/-- A receive that returns has left moments enough, whatever the link had. -/
theorem exact_supply (size : Nat) (fresh : Bool) : Sat (Supply reads k) (exact size fresh)
    (fun _ => Supply reads (k + size)) fun _ => True := by
  refine Sat.of_each fun s hs => ?_
  rintro s rfl
  by_cases hsize : size ≤ s.incoming.length
  · have hsplit : s.incoming = s.incoming.take size ++ s.incoming.drop size := (List.take_append_drop _ _).symm
    obtain ⟨s', hrun, -, hs'⟩ := exact_runs fresh hs hsplit
    rw [List.length_take, Nat.min_eq_left hsize] at hrun hs'
    rw [hrun]
    exact hs'
  · -- what returns has read as much, and there is not as much
    have hread : Sat (fun a => a = s) (exact size fresh) (fun _ _ => size ≤ s.incoming.length)
        fun _ => True := by
      refine exact_sat _ _ (fun a a' data ha hread hlen => ?_) fun _ _ _ _ _ => trivial
      rw [← hlen, ← ha, hread.1, List.length_append]
      exact Nat.le_add_right _ _
    have := hread s rfl
    rcases hrun : exact size fresh s with ⟨_ | data, s'⟩
    · trivial
    · rw [hrun] at this
      exact absurd this hsize

theorem body_supply (size : Nat) : Sat (Supply reads k) (body size)
    (fun _ => Supply reads (k + size)) fun _ => True :=
  Sat.bind (exact_supply _ _) fun _ => Sat.modify_bind (M := Supply reads (k + size))
    (fun _ hs => hs.same rfl rfl rfl rfl rfl rfl rfl) (Sat.pure _ fun _ hs => hs)

theorem decoded_supply {α : Type} (x : Except ProtocolError α) :
    Sat (Supply reads k) (decoded x) (fun _ => Supply reads k) fun _ => True :=
  decoded_sat _ (fun _ _ _ hs => hs) fun _ _ => trivial

theorem note_supply (block : Bytes) :
    Sat (Supply reads k) (note block) (fun _ => Supply reads k) fun _ => True :=
  Sat.bind (decoded_supply _) fun _ => Sat.modify _ fun _ hs => hs.same rfl rfl rfl rfl rfl rfl rfl

/-- A header is taken off the link at least. -/
theorem frameHeader_supply :
    Sat (Supply reads k) frameHeader (fun _ => Supply reads (k + 1)) fun _ => True := by
  have h8 : HEADER = 8 := rfl
  refine Sat.bind (exact_supply _ _) fun data => Sat.bind (decoded_supply _) fun header => ?_
  refine Sat.ite (fun _ => Sat.pure _ fun s hs => hs.le (by omega)) fun _ => Sat.ite (fun _ => ?_) fun _ => ?_
  · refine Sat.bind (body_supply _) fun block => Sat.bind (note_supply block) fun _ => ?_
    exact Sat.pure _ fun s hs => hs.le (by omega)
  · refine Sat.bind (exact_supply _ _) fun head => Sat.bind (decoded_supply _) fun info => ?_
    refine Sat.ite (fun _ => ?_) fun _ => ?_
    · refine Sat.bind (exact_supply _ _) fun second => Sat.bind (decoded_supply _) fun inner => ?_
      exact Sat.pure _ fun s hs => hs.le (by omega)
    · refine Sat.bind (body_supply _) fun block => Sat.bind (note_supply _) fun _ => ?_
      exact Sat.pure _ fun s hs => hs.le (by omega)

/-- `_deferred` looks at the clock, and gives the answer no less time. -/
theorem deferred_supply (block : Bytes) :
    Sat (Supply reads (k + 1)) (deferred block) (fun _ => Supply reads k) fun _ => True := by
  refine Sat.bind (decoded_supply _) fun later => ?_
  refine Sat.bind (Q := fun _ => Supply reads k) ?_ fun t => Sat.modify _ fun s hs => ?_
  · intro s hs
    obtain ⟨t, ticks, hticks, -, hnext⟩ := hs.tick
    rw [tick_cons hticks]
    exact hnext
  · refine ⟨hs.good, fun u hu => ⟨(hs.inTime u hu).1, ?_⟩, hs.enough, hs.frames, hs.held⟩
    have hbefore := (hs.inTime u hu).2
    cases hexpires : s.expires with
    | none => simp
    | some expires =>
      rw [hexpires] at hbefore
      simp only [Option.any_some, decide_eq_false_iff_not, Option.map_some] at hbefore ⊢
      omega

theorem nextReplyLoop_supply (fuel : Nat) :
    Sat (Supply reads k) (nextReplyLoop fuel) (fun _ => Supply reads k) fun _ => True := by
  induction fuel with
  | zero => exact Sat.throw _ fun _ _ => trivial
  | succ fuel ih =>
    refine Sat.bind frameHeader_supply fun result => ?_
    cases result with
    | none => exact ih.pre fun s hs => hs.le (Nat.le_succ k)
    | some reply =>
      refine Sat.get_bind fun a => Sat.ite (fun _ => Sat.throw _ fun _ _ => trivial) fun _ => ?_
      refine Sat.ite (fun _ => Sat.pure _ fun s hs => hs.2.le (Nat.le_succ k)) fun _ => ?_
      refine Sat.bind ((body_supply _).pre fun s hs => hs.2) fun block => ?_
      exact Sat.bind ((deferred_supply block).pre fun s hs => hs.le (by omega)) fun _ => ih

theorem nextReply_supply :
    Sat (Supply reads k) nextReply (fun _ => Supply reads k) fun _ => True :=
  Sat.get_bind fun _ => (nextReplyLoop_supply _).pre fun _ hs => hs.2

theorem collect_supply (inflight : Assoc Nat InFlight) :
    Sat (Supply reads k) (collect inflight) (fun _ => Supply reads k) fun _ => True := by
  refine Sat.bind nextReply_supply fun reply => Sat.ite (fun _ => ?_) fun _ => ?_
  · cases inflight.get reply.sid with
    | none => exact Sat.throw _ fun _ _ => trivial
    | some entry =>
      refine Sat.bind (Q := fun _ => Supply reads k) ?_ fun entry' => ?_
      · refine Sat.ite (fun _ => Sat.throw _ fun _ _ => trivial) fun _ => ?_
        exact Sat.bind (exact_supply _ _) fun data => Sat.pure _ fun s hs => hs.le (Nat.le_add_right _ _)
      · refine Sat.modify_bind (M := Supply reads k) (fun s hs => hs.same rfl rfl rfl rfl rfl rfl rfl) ?_
        refine Sat.ite (fun _ => Sat.pure _ fun s hs => hs) fun _ => ?_
        exact Sat.modify_bind (M := Supply reads k) (fun s hs => hs.same rfl rfl rfl rfl rfl rfl rfl)
          (Sat.pure _ fun s hs => hs)
  · refine Sat.bind (body_supply _) fun block => ?_
    exact Sat.bind (Q := fun _ _ => True) (Sat.modify _ fun _ _ => trivial) fun _ => Sat.throw _ fun _ _ => trivial

/-! ## Frames off the link -/

/-- `_frame_header` returns in front of a frame that decodes. -/
theorem frameHeader_runs {fr : Sent} {rest : List Sent} {s : BulkReader} (hat : At r (fr :: rest) s)
    (hs : Supply reads k s) (hfr : fr.Decodes) : ∃ result s', frameHeader s = (.ok result, s') := by
  have hin := hat.incoming
  rw [wires_cons] at hin
  obtain ⟨s₁, hrun₁, hin₁, hs₁⟩ := exact_runs true hs hin
  rw [length_headerBytes] at hrun₁ hs₁
  change exact HEADER true s = _ at hrun₁
  have hheader : headerFields (headerBytes fr.header) = .ok fr.header := by
    have := headerFields_headerBytes ⟨fr.sid_lt, fr.status_lt, hfr.dlen⟩ []
    rwa [List.append_nil] at this
  have hdecoded : decoded (headerFields (headerBytes fr.header)) s₁ = (.ok fr.header, s₁) := by
    rw [hheader]
    rfl
  -- a notice of `block` is noted
  have hnote : ∀ (block : Bytes) (s₂ : BulkReader), 4 ≤ block.length →
      ∃ s₃, (do note block; pure (none : Option Header) : Bulk (Option Header)) s₂ = (.ok none, s₃) := by
    intro block s₂ hblock
    refine ⟨{ s₂ with notices := s₂.notices ++ [⟨signed 32 (beNat (block.take 4)), block.drop 4⟩] }, ?_⟩
    unfold note
    rw [parseAttn_eq hblock]
    rfl
  unfold frameHeader
  rw [bind_of_ok hrun₁, bind_of_ok hdecoded]
  by_cases hstatus : fr.header.status = kXR_attn
  swap
  · rw [if_pos hstatus]
    exact ⟨_, _, rfl⟩
  rw [if_neg (not_not.mpr hstatus)]
  have hfour := hfr.notice hstatus
  by_cases hshort : fr.header.dlen < ASYNC
  · rw [if_pos hshort]
    obtain ⟨s₂, hrun₂, -⟩ := body_runs hs₁ hin₁
    rw [fr.body_length] at hrun₂
    rw [bind_of_ok hrun₂]
    obtain ⟨s₃, hrun₃⟩ := hnote fr.body s₂ (by rw [fr.body_length]; exact hfour)
    exact ⟨_, s₃, hrun₃⟩
  rw [if_neg hshort]
  have hlong : ASYNC ≤ fr.body.length := by
    rw [fr.body_length]
    exact Nat.le_of_not_lt hshort
  have h8 : HEADER = 8 := rfl
  have h16 : ASYNC = 16 := rfl
  obtain ⟨head, tail, hbody, hhead⟩ : ∃ head tail, fr.body = head ++ tail ∧ head.length = HEADER :=
    ⟨fr.body.take HEADER, fr.body.drop HEADER, (List.take_append_drop _ _).symm, by
      rw [List.length_take]
      omega⟩
  have htail : tail.length = fr.header.dlen - HEADER := by
    have := fr.body_length
    rw [hbody, List.length_append] at this
    omega
  rw [hbody, List.append_assoc] at hin₁
  obtain ⟨s₂, hrun₂, hin₂, hs₂⟩ := exact_runs false hs₁ hin₁
  rw [hhead] at hrun₂
  rw [bind_of_ok hrun₂]
  have hinfo : decoded (parseAttn head) s₂ =
      (.ok ⟨signed 32 (beNat (head.take 4)), head.drop 4⟩, s₂) := by
    rw [parseAttn_eq (by omega)]
    rfl
  rw [bind_of_ok hinfo]
  by_cases haction : signed 32 (beNat (head.take 4)) = kXR_asynresp
  · rw [if_pos haction]
    obtain ⟨second, more, htail', hsecond⟩ : ∃ second more, tail = second ++ more ∧ second.length = HEADER :=
      ⟨tail.take HEADER, tail.drop HEADER, (List.take_append_drop _ _).symm, by
        rw [List.length_take]
        omega⟩
    rw [htail', List.append_assoc] at hin₂
    obtain ⟨s₃, hrun₃, -, -⟩ := exact_runs false hs₂ hin₂
    rw [hsecond] at hrun₃
    rw [bind_of_ok hrun₃]
    have htake : fr.body.take 4 = head.take 4 := by
      rw [hbody, List.take_append_of_le_length (by omega)]
    have hbehind : (fr.body.drop HEADER).take HEADER = second := by
      rw [hbody, htail', ← hhead, List.drop_left, hhead, ← hsecond, List.take_left]
    obtain ⟨inner, hinner⟩ := hfr.inner hstatus (by omega) (by rw [htake]; exact haction)
    rw [hbehind] at hinner
    refine ⟨some ⟨inner.sid, inner.status, fr.header.dlen - ASYNC⟩, s₃, ?_⟩
    rw [hinner]
    rfl
  · rw [if_neg haction]
    obtain ⟨s₃, hrun₃, -⟩ := body_runs hs₂ hin₂
    rw [htail] at hrun₃
    rw [bind_of_ok hrun₃]
    obtain ⟨s₄, hrun₄⟩ := hnote (head ++ tail) s₃ (by rw [List.length_append]; omega)
    exact ⟨_, s₄, hrun₄⟩

/-- What is still to come answers what is owed: the frames decode, one of them is an answer, and
each up to that one is on an id that is owed one, with no more than its entry has room for. -/
structure Due (r : BulkReader) (frames : List Sent) (inflight : Assoc Nat InFlight) : Prop where
  comes : replies frames ≠ []
  decodes : ∀ fr ∈ frames, fr.Decodes
  owed : ∀ before fr rest, frames = before ++ fr :: rest → replies before = [] →
    ∀ sid status block, fr.answer = some (sid, status, block) → sid ∈ r.owed ∧
      (status ≠ kXR_waitresp → (status = kXR_ok ∨ status = kXR_oksofar) ∧ ∃ entry,
        inflight.get sid = some entry ∧ entry.dest.length + block.length ≤ entry.length)

theorem Due.behind {inflight : Assoc Nat InFlight} {fr : Sent} {rest : List Sent}
    (h : Due r (fr :: rest) inflight) (hquiet : fr.reply = none) : Due r rest inflight := by
  have hone : replies [fr] = [] := replies_quiet hquiet
  refine ⟨fun hnil => h.comes ?_, fun fr' hfr' => h.decodes fr' (List.mem_cons_of_mem _ hfr'),
    fun before fr' rest' heq hbefore => h.owed (fr :: before) fr' rest' ?_ ?_⟩
  · rw [← List.singleton_append, replies_append, hone, hnil, List.append_nil]
  · rw [heq, List.cons_append]
  · rw [← List.singleton_append, replies_append, hone, hbefore, List.append_nil]

/-- A frame that is an answer leaves the reader in front of its body. -/
theorem nextReplyLoop_runs {inflight : Assoc Nat InFlight} : ∀ (frames : List Sent) (fuel : Nat)
    (s : BulkReader), At r frames s → Supply reads k s → Due r frames inflight → frames.length < fuel →
    ∃ reply s', nextReplyLoop fuel s = (.ok reply, s') := by
  intro frames
  induction frames with
  | nil => exact fun _ _ _ _ hdue _ => absurd rfl hdue.comes
  | cons fr rest ih =>
    intro fuel s hat hs hdue hfuel
    cases fuel with
    | zero => exact absurd hfuel (Nat.not_lt_zero _)
    | succ fuel =>
    have hfuel : rest.length < fuel := Nat.lt_of_succ_lt_succ hfuel
    obtain ⟨result, s₁, hrun⟩ := frameHeader_runs hat hs (hdue.decodes fr List.mem_cons_self)
    obtain ⟨fr', rest', hframes, hresult⟩ := frameHeader_at.ok hat hrun
    have hs₁ := frameHeader_supply.ok hs hrun
    obtain ⟨rfl, rfl⟩ := List.cons.inj hframes
    unfold nextReplyLoop
    rw [bind_of_ok hrun]
    cases result with
    | none => exact ih fuel s₁ hresult.2 (hs₁.le (Nat.le_succ k)) (hdue.behind hresult.1) hfuel
    | some reply =>
      obtain ⟨block, hans, hblock, hin⟩ := hresult.answer
      obtain ⟨howed, -⟩ := hdue.owed [] fr rest rfl rfl _ _ _ hans
      have howed₁ : reply.sid ∈ s₁.owed := by rwa [hresult.kept.owed]
      have hget : (Act.get : Bulk BulkReader) s₁ = (.ok s₁, s₁) := rfl
      dsimp only
      rw [bind_of_ok hget, if_neg (not_not.mpr howed₁)]
      by_cases hstatus : reply.status = kXR_waitresp
      swap
      · rw [if_pos hstatus]
        exact ⟨_, _, rfl⟩
      rw [if_neg (not_not.mpr hstatus)]
      -- the promise of an answer: its body is read, and the clock moved
      obtain ⟨s₂, hrun₂, hs₂⟩ := body_runs hs₁ hin
      rw [hblock] at hrun₂
      rw [hstatus] at hans
      obtain ⟨later, hlater⟩ := (hdue.decodes fr List.mem_cons_self).promise _ _ hans
      obtain ⟨t, ticks, hticks, -, -⟩ := (hs₂.le (n := k + 1) (by omega)).tick
      have hdecoded : decoded (parseWaitresp block) s₂ = (.ok later, s₂) := by
        rw [hlater]
        rfl
      have hdeferred : ∃ s₃, deferred block s₂ = (.ok (), s₃) := by
        unfold deferred
        rw [bind_of_ok hdecoded, bind_of_ok (tick_cons hticks)]
        exact ⟨_, rfl⟩
      obtain ⟨s₃, hrun₃⟩ := hdeferred
      rw [bind_of_ok hrun₂, bind_of_ok hrun₃]
      have hquiet : fr.reply = none := Sent.reply_of_promise hans
      have hdata : fr.data = [] := hresult.data_nil (by rw [hstatus]; decide)
      rw [hdata, List.nil_append] at hin
      have hat₂ : At r rest s₂ := by
        have hpast := (body_sat (P := fun a => a = s₁) (Q := fun _ => At r rest) (E := fun _ => True)
          reply.dlen (fun a a' data ha hread hlen => ?_) fun _ _ _ _ _ => trivial).ok rfl hrun₂
        · exact hpast
        · subst ha
          exact (hresult.past hread hlen hdata).2
      have hat₃ : At r rest s₃ := (deferred_at block).ok hat₂ hrun₃
      exact ih fuel s₃ hat₃ ((deferred_supply block).ok (hs₂.le (by omega)) hrun₃) (hdue.behind hquiet) hfuel

/-- As many frames as a link carries, it carries bytes. -/
theorem length_le_wires (frames : List Sent) : frames.length ≤ (wires frames).length := by
  induction frames with
  | nil => exact Nat.le_refl _
  | cons fr rest ih =>
    rw [wires_cons, List.length_append, length_headerBytes, List.length_append, List.length_append,
      List.length_cons]
    omega

/-- `_collect` returns if what is owed is answered. -/
theorem collect_runs {inflight : Assoc Nat InFlight} {s : BulkReader} (hat : At r frames s)
    (hs : Supply reads k s) (hdue : Due r frames inflight) :
    ∃ result s', collect inflight s = (.ok result, s') := by
  have hfuel : frames.length < s.incoming.length + 1 := by
    rw [hat.incoming]
    exact Nat.lt_succ_of_le (length_le_wires frames)
  obtain ⟨reply, s₁, hrun⟩ := nextReplyLoop_runs frames _ s hat hs hdue hfuel
  have hnext : nextReply s = (.ok reply, s₁) := hrun
  obtain ⟨before, fr, rest, hframes, hquiet, hwithin, -, hlater⟩ := nextReply_at.ok hat hnext
  have hs₁ := nextReply_supply.ok hs hnext
  obtain ⟨block, hans, hblock, hin⟩ := hwithin.answer
  obtain ⟨-, hfits⟩ := hdue.owed before fr rest hframes hquiet _ _ _ hans
  obtain ⟨hstatus, entry, hentry, hroom⟩ := hfits hlater
  obtain ⟨s₂, hrun₂, -, -⟩ := exact_runs false hs₁ hin
  rw [hblock] at hrun₂ hroom
  unfold collect
  rw [bind_of_ok hnext, if_pos hstatus, hentry]
  have hland : land entry reply.dlen s₁ = (.ok { entry with dest := entry.dest ++ block }, s₂) := by
    unfold land
    rw [if_neg (Nat.not_lt_of_le hroom), bind_of_ok hrun₂]
    rfl
  dsimp only
  rw [bind_of_ok hland]
  by_cases hsofar : reply.status = kXR_oksofar
  · simp only [hsofar, if_true]
    exact ⟨_, _, rfl⟩
  · simp only [hsofar, if_false]
    exact ⟨_, _, rfl⟩

/-! ## Beside what they do in any world -/

section

variable {calm : Prop}

theorem collect_calm (inflight : Assoc Nat InFlight) :
    Sat (fun s => At r frames s ∧ (calm → Supply reads k s)) (collect inflight)
      (fun result s => Collected r frames inflight result s ∧ (calm → Supply reads k s))
      fun s => Recorded r s ∧ (calm → ¬ Due r frames inflight) := by
  refine (collect_at inflight).under fun _ s hs => ?_
  have hsupply := collect_supply inflight s hs.2
  rcases hrun : collect inflight s with ⟨e | result, s'⟩
  · intro hdue
    obtain ⟨_, _, hok⟩ := collect_runs hs.1 hs.2 hdue
    rw [hrun] at hok
    cases hok
  · rw [hrun] at hsupply
    exact hsupply

/-- A read goes out, on an id of the call. -/
theorem issue_calm {sid : Nat} {x : Nat × Nat} (hsid : sid ∈ r.leased) (hx : x ∈ reads) :
    Sat (fun s => At r frames s ∧ (calm → Supply reads (k + 1) s))
      (issue sid (readRequest r.settings.handle x.1 x.2))
      (fun _ s => (∃ parts machine, r.machine.framePartsFor (readRequest r.settings.handle x.1 x.2) sid =
          (.ok parts, machine) ∧ At (r.sent sid parts machine) frames s) ∧ (calm → Supply reads k s))
      fun s => Recorded r s ∧ (calm → False) := by
  refine (issue_at sid _).under fun _ s hs => ?_
  obtain ⟨hat, hs⟩ := hs
  have hsame : s.machine = r.machine ∧ s.settings = r.settings ∧ s.leased = r.leased := by
    obtain ⟨_, _, _, _, _, _, rfl⟩ := hat.kept
    exact ⟨rfl, rfl, rfl⟩
  have hleased : sid ∈ s.machine.leased := hs.held sid (by rw [hsame.2.2]; exact hsid)
  obtain ⟨M, hM, hclosed⟩ := hs.frames
  obtain ⟨parts, machine, hframe, hM'⟩ := hclosed _ hM sid hleased x hx
  have hstreams := MachineState.framePartsFor_streams s.machine
    (readRequest s.settings.handle x.1 x.2) sid
  rw [hframe] at hstreams
  obtain ⟨t, ticks, hticks, ht, hnext⟩ := hs.tick
  rw [← hsame.2.1]
  have hrun : ∃ s', issue sid (readRequest s.settings.handle x.1 x.2) s = (.ok (), s') ∧
      s'.ticks = ticks ∧ s'.expires = s.expires ∧ s'.deadline = s.deadline ∧ s'.incoming = s.incoming ∧
      s'.machine = machine ∧ s'.settings = s.settings ∧ s'.leased = s.leased := by
    have hget : (Act.get : Bulk BulkReader) s = (.ok s, s) := rfl
    have hmodify : (Act.modify fun r : BulkReader => { r with machine := machine } : Bulk Unit) s =
        (.ok (), { s with machine := machine }) := rfl
    unfold issue send
    rw [bind_of_ok hget, hframe]
    dsimp only
    rw [bind_of_ok hmodify, bind_of_ok (tick_cons (s := { s with machine := machine }) hticks)]
    rw [if_neg (by rw [ht.cancelled]; nofun), if_neg (by rw [ht.sent]; nofun)]
    exact ⟨_, rfl, rfl, rfl, rfl, rfl, rfl, rfl, rfl⟩
  obtain ⟨s', hrun, hticks', hexpires, hdeadline, hin, hmachine, hsettings, hleased'⟩ := hrun
  rw [hrun]
  refine ⟨?_, ?_, ?_, ?_, ?_⟩
  · rw [hticks']
    exact hnext.good
  · simp only [expired, hticks', hexpires, hdeadline]
    exact hnext.inTime
  · rw [hticks', hin]
    exact hnext.enough
  · rw [hmachine, hsettings]
    exact ⟨M, hM', hclosed⟩
  · rw [hleased', hmachine, hstreams.leased]
    exact hs.held

/-- The consumer asks for more. -/
theorem callOut_calm :
    Sat (fun s => At r frames s ∧ (calm → Supply reads (k + 1) s)) callOut
      (fun _ s => At r frames s ∧ (calm → Supply reads k s)) fun s => Recorded r s ∧ (calm → False) := by
  refine callOut_at.under fun _ s hs => ?_
  obtain ⟨t, ticks, hticks, ht, hnext⟩ := hs.2.tick
  have hrun : callOut s = (.ok (), { s with ticks := ticks }) := by
    unfold callOut
    rw [bind_of_ok (tick_cons hticks), if_pos ht.goesOn]
    rfl
  rw [hrun]
  exact hnext

end

/-! ## The ends of a call -/

/-- A world in which nothing goes wrong for a call: no other call is in progress, the machine lends
the ids and frames the reads, every moment is a good one, the clocks that the call starts do not run
out, and the link lets something through often enough, for every byte and `k` times more. -/
structure Calm (reads : List (Nat × Nat)) (k : Nat) (r : BulkReader) : Prop where
  free : r.leased = []
  lends : ∃ sids m, r.machine.leaseSids r.settings.depth = (.ok sids, m) ∧
    Frames r.settings.handle reads m
  good : ∀ t ∈ r.ticks, t.Good
  inTime : ∀ first ∈ r.ticks.head?, ∀ t ∈ r.ticks,
    (r.settings.stallDeadline = 0 ∨ t.now ≤ first.now + r.settings.stallDeadline) ∧
    ∀ left, first.remaining = some left → t.now < first.now + left
  enough : 2 * r.incoming.length + k + 1 ≤ r.ticks.countP Tick.lets

/-- The ids that a call was given are the call's. -/
theorem begin_leases (hapart : r.machine.Apart) : Sat (fun s => s = r) begin
    (fun sids s => s.leased = sids ∧ ∀ sid ∈ s.leased, sid ∈ s.machine.leased) fun _ => True := by
  refine Sat.get_bind fun a => Sat.of_each fun s₀ h₀ => ?_
  obtain ⟨rfl, rfl⟩ := h₀
  refine Sat.ite (fun _ => Sat.throw _ fun _ _ => trivial) fun _ => ?_
  refine Sat.bind (Q := fun _ _ => True) ((tick_sat fun _ _ _ => trivial).pre fun _ _ => trivial)
    fun t => Sat.modify_bind (M := fun _ => True) (fun _ _ => trivial) ?_
  have hdepth : ¬ s₀.settings.depth < 1 := Nat.not_lt_of_le s₀.settings.depth_pos
  obtain ⟨-, -, hlent⟩ := MachineState.leaseLoop_lent s₀.settings.depth s₀.machine [] hapart
    (by simp) (by simp)
  rcases hlease : s₀.machine.leaseSids s₀.settings.depth with ⟨e | sids, machine⟩
  all_goals
    unfold MachineState.leaseSids at hlease
    rw [if_neg hdepth] at hlease
    rw [hlease] at hlent
  · exact Sat.modify_bind (M := fun _ => True) (fun _ _ => trivial) (Sat.throw _ fun _ _ => trivial)
  · refine Sat.modify_bind (M := fun s => s.leased = sids ∧ s.machine = machine) (fun _ _ => ⟨rfl, rfl⟩)
      (Sat.pure _ fun s hs => ⟨hs.1, ?_⟩)
    rw [hs.1, hs.2]
    exact (hlent sids rfl).2.1

/-- `_begin` starts clocks that have time left. -/
theorem begin_calm (hapart : r.machine.Apart) (hcalm : Calm reads k r) :
    Sat (fun s => s = r) begin (fun _ => Supply reads k) fun _ => False := by
  obtain ⟨sids, m, hlends, hframes⟩ := hcalm.lends
  rintro s rfl
  have hleases := begin_leases hapart s rfl
  cases hticks : s.ticks with
  | nil =>
    have henough := hcalm.enough
    rw [hticks, List.countP_nil] at henough
    omega
  | cons first ticks =>
  have hfirst : first ∈ s.ticks.head? := by simp [hticks]
  have hin := hcalm.inTime first hfirst
  have hmem : ∀ {t}, t ∈ ticks → t ∈ s.ticks := fun ht => by
    rw [hticks]
    exact List.mem_cons_of_mem _ ht
  have hrun : begin s = (.ok sids, { s with
      ticks := ticks
      expires := if s.settings.stallDeadline = 0 then none else some (first.now + s.settings.stallDeadline)
      deadline := first.remaining.map (first.now + ·), torn := false, cancelBy := none
      machine := m, leased := sids }) := by
    have hget : (Act.get : Bulk BulkReader) s = (.ok s, s) := rfl
    unfold begin
    rw [bind_of_ok hget, if_neg (not_not.mpr hcalm.free), bind_of_ok (tick_cons hticks), hlends]
    rfl
  rw [hrun] at hleases ⊢
  refine ⟨fun t ht => hcalm.good t (hmem ht), fun t ht => ⟨?_, ?_⟩, ?_, hframes, hleases.2⟩
  · cases hleft : first.remaining with
    | none => simp [expired]
    | some left =>
      have hlt := (hin t (hmem ht)).2 left hleft
      simp only [expired, Option.map_some, decide_eq_false_iff_not]
      omega
  · rcases (hin t (hmem ht)).1 with hzero | hle
    · simp [hzero]
    · dsimp only
      split
      · rfl
      · simp only [Option.any_some, decide_eq_false_iff_not]
        omega
  · have henough := hcalm.enough
    rw [hticks, List.countP_cons] at henough
    have : (if first.lets = true then 1 else 0) ≤ 1 := by split <;> omega
    dsimp only
    omega

/-- With nothing owed and the wire between two frames, `settle` gives the ids back. -/
theorem settle_calm : Sat (fun s => s.owed = [] ∧ s.torn = false) settle (fun _ _ => True) fun _ => False := by
  refine Sat.get_bind fun a => Sat.of_each fun s₀ h₀ => ?_
  obtain ⟨rfl, howed, htorn⟩ := h₀
  refine Sat.modify_bind (M := fun s => s.owed = [] ∧ s.torn = false)
    (fun s hs => by subst hs; exact ⟨howed, htorn⟩) (Sat.ite (fun _ => Sat.pure _ fun _ _ => trivial) fun _ => ?_)
  refine Sat.tryFinally_value (Q := fun _ s => s.owed = [] ∧ s.torn = false) (E := fun _ => False) ?_
    (fun _ => ?_) (fun _ hs => hs.elim)
  · exact Sat.ite (fun _ => Sat.pure _ fun _ hs => hs) fun hno => absurd (.inl howed) hno
  · refine Sat.get_bind fun b => Sat.of_each fun s hs => ?_
    obtain ⟨rfl, hs⟩ := hs
    refine Sat.modify_bind (M := fun _ => True) (fun _ _ => trivial)
      (Sat.ite (fun _ => Sat.modify _ fun _ _ => trivial) fun hno => absurd hs hno)

end BulkReader

end XrdClient.Session
