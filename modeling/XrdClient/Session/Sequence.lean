/-
  Session/Sequence.lean --- the numbers of the signatures on the control link.

  Source: `proto/machine.py`, `_frame` and `resume`; `crypto/sigver.py`, `Signer.sign`;
  the sending of `session/sync.py` and `session/bulk.py`.

  The machine numbers a signature when it makes the frame, and frames reach the control
  link in the order they are made, whichever threads send them.  So the numbers rise, as
  long as every frame is made anew.  A request that the server put off with `kXR_wait` is
  not: `resume` sends the frame that was kept, signature and all, and its number is one
  that the link has seen.
-/
import XrdClient.Session.SendOrder
import XrdClient.Proto.Signed

set_option autoImplicit false

namespace XrdClient.Proto

open XrdClient.Lib
open XrdClient.Crypto

/-- The number that a frame carries, if it begins with a `kXR_sigver`. -/
def sequenceNumber (frame : Bytes) : Option Nat :=
  if beNat ((frame.drop 2).take 2) = kXR_sigver then some (beNat ((frame.drop 8).take 8)) else none

/-- The number of a signature that this machine has made. -/
def MachineState.Reached (m : MachineState) (n : Nat) : Prop :=
  ∃ signer, m.signer = some signer ∧ n ≤ signer.seqno

/-- The signer of one machine is that of another, or has signed once more. -/
def SignsOn (before after : Option Signer) : Prop :=
  after = before ∨ ∃ signer, before = some signer ∧
    after = some { signer with seqno := signer.seqno + 1 }

theorem SignsOn.reached {m m' : MachineState} (h : SignsOn m.signer m'.signer) {n : Nat}
    (hn : m.Reached n) : m'.Reached n := by
  obtain ⟨signer, hsigner, hle⟩ := hn
  rcases h with heq | ⟨signer', hsigner', heq⟩
  · exact ⟨signer, heq.trans hsigner, hle⟩
  · rw [hsigner] at hsigner'
    cases hsigner'
    exact ⟨_, heq, Nat.le_succ_of_le hle⟩

/-- A request's own frame carries no number. -/
theorem sequenceNumber_request {r : Request} {sid : Nat} {parts : List Bytes}
    (h : encodeParts r sid = .ok parts) (hopcode : r.opcode ≠ kXR_sigver) :
    sequenceNumber parts.flatten = none := by
  obtain ⟨hframed, hbytes⟩ := encodeParts_ok h
  obtain ⟨-, hfield, -, -⟩ := requestHead_fields hframed sid (r.payload ++ r.trailer)
  rw [sequenceNumber, hbytes, List.append_assoc, hfield, if_neg hopcode]

/-- The signature in front of a request carries the number it was made with. -/
theorem sequenceNumber_signed {opcode seqno : Nat} {signature : Bytes} {nodata : Bool} {sid : Nat}
    {sigver : Bytes} (hopcode : opcode < 0x10000)
    (h : MachineState.encodeSigver opcode seqno signature nodata sid = .ok sigver)
    (frame : Bytes) : sequenceNumber (sigver ++ frame) = some seqno := by
  unfold MachineState.encodeSigver at h
  split at h
  · cases h
  next hseqno =>
  obtain ⟨hframed, rfl⟩ := encode_sigver h
  obtain ⟨-, hfield, hparams, -⟩ := requestHead_fields hframed sid (signature ++ frame)
  obtain ⟨-, -, hnumber⟩ := @sigver_params opcode seqno signature nodata hopcode
    (Nat.not_le.mp hseqno)
  have hat8 := take_drop_inside hparams 4 8 (by decide)
  have hsigver : (sigverRequest opcode seqno signature nodata).opcode = kXR_sigver := rfl
  rw [sequenceNumber, List.append_assoc, hfield, if_pos hsigver, hat8, hnumber]

/-- What `_frame` makes of a request: a frame without a number, or one with the number
after the last. -/
theorem frame_number {m : MachineState} {r : Request} {sid : Nat} {parts : List Bytes}
    (hopcode : r.opcode ≠ kXR_sigver) (h : (m.frame r sid).1 = .ok parts) :
    sequenceNumber parts.flatten = none ∨
      ∃ signer, m.signer = some signer ∧
        sequenceNumber parts.flatten = some (signer.seqno + 1) ∧
        (m.frame r sid).2.signer = some { signer with seqno := signer.seqno + 1 } := by
  unfold MachineState.frame at h ⊢
  cases hparts : encodeParts r sid with
  | error e =>
    rw [hparts] at h
    cases h
  | ok own =>
    simp only [hparts] at h ⊢
    cases hsigner : m.signer with
    | none =>
      simp only [hsigner] at h
      cases h
      exact .inl (sequenceNumber_request hparts hopcode)
    | some signer =>
      simp only [hsigner] at h ⊢
      cases hrequired : signer.required (beNat ((own.flatten.drop 2).take 2)) with
      | false =>
        simp only [Signer.sign, hrequired, Bool.false_eq_true, if_false] at h
        cases h
        rw [List.flatten_singleton]
        exact .inl (sequenceNumber_request hparts hopcode)
      | true =>
        simp only [Signer.sign, hrequired, if_true] at h ⊢
        split at h
        · cases h
        · next sigver hsigver =>
          cases h
          refine .inr ⟨signer, rfl, ?_, rfl⟩
          rw [List.flatten_singleton]
          exact sequenceNumber_signed (encodeParts_ok hparts).1.opcode hsigver _

/-- Framing signs once at most. -/
theorem frame_signsOn (m : MachineState) (r : Request) (sid : Nat) :
    SignsOn m.signer (m.frame r sid).2.signer := by
  unfold MachineState.frame
  cases encodeParts r sid with
  | error e => exact .inl rfl
  | ok own =>
    simp only
    cases hsigner : m.signer with
    | none => exact .inl hsigner
    | some signer =>
      simp only
      cases hrequired : signer.required (beNat ((own.flatten.drop 2).take 2)) with
      | false =>
        simp only [Signer.sign, hrequired, Bool.false_eq_true, if_false]
        exact .inl rfl
      | true =>
        simp only [Signer.sign, hrequired, if_true]
        split <;> exact .inr ⟨signer, rfl, rfl⟩

end XrdClient.Proto

namespace XrdClient.Session

open XrdClient.Lib
open XrdClient.Proto

namespace SendPlane

/-- The numbers of the signatures made for the control link, in the order of their
frames. -/
def numbers (w : SendPlane) : List Nat := (w.framedOn 0).filterMap sequenceNumber

/-- On the control link the numbers rise, counting the frame that is being sent. -/
def RisesOnWire (w : SendPlane) : Prop :=
  ∀ sent rest part, w.framedOn 0 = sent ++ rest → w.handedOn 0 = sent.flatten ++ part →
    part <+: rest.headD [] → ((sent ++ rest.take 1).filterMap sequenceNumber).Pairwise (· < ·)

/-- A step that puts no number on the control link that is not above all before it.  A
request that is framed gets one from the signer, if it is not a signature itself.  A
request that is sent again keeps the one it has, which is new to the link only if it was
signed for a data path and nothing was signed since. -/
def Fresh (w : SendPlane) : SendMove → Prop
  | .start _ asked _ _ => asked.request.opcode ≠ kXR_sigver
  | .issue _ request _ _ => request.opcode ≠ kXR_sigver
  | .resend _ sid => ∀ p n, w.machine.core.pending.get sid = some p →
      sequenceNumber p.parts.flatten = some n → ∀ k ∈ w.numbers, k < n
  | _ => True

/-- Every step of a run meets a condition on the state it is made in. -/
def EachMove (P : SendPlane → SendMove → Prop) : SendPlane → List SendMove → Prop
  | _, [] => True
  | w, x :: xs => P w x ∧ EachMove P (w.step x) xs

/-! ## The invariant -/

/-- The numbers made for the control link rise, and the signer is past them and past those
of the frames that are kept. -/
structure Numbered (w : SendPlane) : Prop where
  past : MachineState.isPast w.machine.core.state = true
  links : ∀ p ∈ w.paths, p.2 ≠ 0
  fresh : w.nextLink ≠ 0
  rising : w.numbers.Pairwise (· < ·)
  below : ∀ n ∈ w.numbers, w.machine.core.Reached n
  kept : ∀ sid p n, w.machine.core.pending.get sid = some p →
    sequenceNumber p.parts.flatten = some n → w.machine.core.Reached n

/-- Only the signer, the records, the links and the frames matter. -/
theorem Numbered.congr {w w' : SendPlane} (h : Numbered w)
    (hstate : w'.machine.core.state = w.machine.core.state) (hpaths : w'.paths = w.paths)
    (hlink : w'.nextLink = w.nextLink) (hframed : w'.framed = w.framed)
    (hpending : w'.machine.core.pending = w.machine.core.pending)
    (hsigner : w'.machine.core.signer = w.machine.core.signer) : Numbered w' := by
  have hnumbers : w'.numbers = w.numbers := by simp only [numbers, framedOn, hframed]
  have hreached : ∀ n, w.machine.core.Reached n → w'.machine.core.Reached n :=
    fun n hn => SignsOn.reached (.inl hsigner) hn
  refine ⟨?_, ?_, ?_, ?_, fun n hn => ?_, fun sid p n hp hnumber => ?_⟩
  · rw [hstate]
    exact h.past
  · rw [hpaths]
    exact h.links
  · rw [hlink]
    exact h.fresh
  · rw [hnumbers]
    exact h.rising
  · rw [hnumbers] at hn
    exact hreached n (h.below n hn)
  · rw [hpending] at hp
    exact hreached n (h.kept sid p n hp hnumber)

theorem queueOut_numbered {w : SendPlane} (h : Numbered w)
    (hnodup : (w.paths.map Prod.fst).Nodup) (t : Nat) : Numbered (w.queueOut t) := by
  have hspec := (w.queueOut_spec t hnodup).queues
  exact h.congr hspec.state hspec.paths hspec.nextLink hspec.framed hspec.pending hspec.signer

theorem become_numbered {w : SendPlane} (h : Numbered w) (t : Nat) (turn : SendTurn) :
    Numbered (w.become t turn) := h.congr rfl rfl rfl rfl rfl rfl

/-! ## Frames for the control link -/

/-- Of what a call adds, the control link gets what was added to its own queue. -/
theorem framedOn_added {before after : MachineState} {paths : Assoc Nat Nat}
    (hlinks : ∀ p ∈ paths, p.2 ≠ 0) :
    ((added before after paths).filter fun frame => frame.link = 0).map Framed.bytes =
      if after.out.drop before.out.length = [] then []
      else [(after.out.drop before.out.length).flatten] := by
  have hpaths : ((paths.flatMap fun p =>
      frameOf p.2 ((after.pathQueue p.1).drop (before.pathQueue p.1).length)).filter
        fun frame => frame.link = 0) = [] := by
    refine List.filter_eq_nil_iff.mpr fun frame hframe => ?_
    obtain ⟨p, hp, hframe⟩ := List.mem_flatMap.mp hframe
    have hlink : frame.link = p.2 := by
      unfold frameOf at hframe
      split at hframe
      · cases hframe
      · rw [List.mem_singleton.mp hframe]
    rw [hlink]
    simpa using hlinks p hp
  rw [added, List.filter_append, hpaths, List.append_nil, frameOf]
  split <;> rfl

/-- The numbers after a call that added a frame to the control queue. -/
theorem numbers_framing {w : SendPlane} (h : Numbered w) (m : SessionMachine)
    {own : List Bytes} (hout : m.core.out = w.machine.core.out ++ own) :
    (w.framing m).numbers =
      w.numbers ++ (if own = [] then [] else (sequenceNumber own.flatten).toList) := by
  have hdrop : m.core.out.drop w.machine.core.out.length = own := by rw [hout, List.drop_left]
  have hadded := @framedOn_added w.machine.core m.core w.paths h.links
  rw [hdrop] at hadded
  simp only [numbers, framedOn, framing, List.filter_append, List.map_append, hadded,
    List.filterMap_append]
  split
  · rfl
  · cases hn : sequenceNumber own.flatten <;> simp [hn]

/-- A frame without a number, or with one above all others that the signer has reached. -/
theorem Numbered.frame {w : SendPlane} (h : Numbered w) {m : SessionMachine} {own : List Bytes}
    (hout : m.core.out = w.machine.core.out ++ own)
    (hstate : m.core.state = w.machine.core.state)
    (hsigner : SignsOn w.machine.core.signer m.core.signer)
    (hown : ∀ n, own ≠ [] → sequenceNumber own.flatten = some n →
      (∀ k ∈ w.numbers, k < n) ∧ m.core.Reached n)
    (hkept : ∀ sid p n, m.core.pending.get sid = some p →
      sequenceNumber p.parts.flatten = some n → m.core.Reached n) :
    Numbered (w.framing m) := by
  have hnumbers := numbers_framing h m hout
  have hlast : ∀ n ∈ (if own = [] then [] else (sequenceNumber own.flatten).toList),
      (∀ k ∈ w.numbers, k < n) ∧ m.core.Reached n := by
    intro n hn
    split at hn
    · cases hn
    · next hne => exact hown n hne (Option.mem_toList.mp hn)
  refine ⟨?_, h.links, h.fresh, ?_, fun n hn => ?_, hkept⟩
  · show MachineState.isPast m.core.state = true
    rw [hstate]
    exact h.past
  · rw [hnumbers, List.pairwise_append]
    refine ⟨h.rising, ?_, fun k hk n hn => (hlast n hn).1 k hk⟩
    split
    · exact .nil
    · cases sequenceNumber own.flatten <;> simp
  · rw [hnumbers] at hn
    rcases List.mem_append.mp hn with hn | hn
    · exact hsigner.reached (h.below n hn)
    · exact (hlast n hn).2

/-- A new number is above all that the signer has reached. -/
theorem Numbered.above {w : SendPlane} (h : Numbered w) {signer : Crypto.Signer}
    (hsigner : w.machine.core.signer = some signer) :
    ∀ k ∈ w.numbers, k < signer.seqno + 1 := by
  intro k hk
  obtain ⟨signer', hsigner', hle⟩ := h.below k hk
  rw [hsigner] at hsigner'
  cases hsigner'
  exact Nat.lt_succ_of_le hle

/-! ## Steps -/

theorem start_numbered {w : SendPlane} (hin : InOrder w) (h : Numbered w) (t : Nat)
    (asked : Asked) (path : Text) (arrive : Bool) (hopcode : asked.request.opcode ≠ kXR_sigver) :
    Numbered (w.start t asked path arrive) := by
  unfold start
  split
  · exact h
  split
  · exact h
  split
  · next core hsubmit =>
    obtain ⟨hmoved, hpending, hsigner⟩ := MachineState.submit_error hsubmit
    have hsigns : SignsOn w.machine.core.signer core.signer := by
      rcases hsigner with heq | ⟨m₁, sid, hm₁, heq⟩
      · exact .inl heq
      · rw [← hm₁, heq]
        exact frame_signsOn m₁ _ sid
    refine ⟨?_, h.links, h.fresh, h.rising, fun n hn => hsigns.reached (h.below n hn),
      fun sid p n hp hnumber => hsigns.reached (h.kept sid p n ?_ hnumber)⟩
    · show MachineState.isPast core.state = true
      rw [hmoved.state]
      exact h.past
    · rw [← hpending]
      exact hp
  · next sid core hsubmit =>
    obtain ⟨parts, hs⟩ := MachineState.submit_ok hsubmit
    obtain ⟨m₁, hm₁, hframed, hsigned⟩ := hs.framed
    have hsigns : SignsOn w.machine.core.signer core.signer := by
      rw [← hm₁, hsigned]
      exact frame_signsOn m₁ _ sid
    have hnumber : ∀ n, sequenceNumber parts.flatten = some n →
        (∀ k ∈ w.numbers, k < n) ∧ core.Reached n := by
      intro n hn
      rcases frame_number hopcode hframed with hnone | ⟨signer, hsigner, hsome, hnext⟩
      · rw [hnone] at hn
        cases hn
      · rw [hsome] at hn
        cases hn
        exact ⟨h.above (hm₁.symm.trans hsigner), _, hsigned.trans hnext, Nat.le_refl _⟩
    have hframe : Numbered (w.framing { w.machine with core := core }) := by
      refine h.frame hs.out hs.state hsigns (fun n hne hn => ?_) (fun s p n hp hn => ?_)
      · by_cases harrive : arrive = true ∧ asked.request.pathid ≠ 0
        · rw [if_pos harrive] at hne
          exact absurd rfl hne
        · rw [if_neg harrive] at hn
          exact hnumber n hn
      · obtain ⟨q, hparts, -, -, hset⟩ := hs.pending
        rw [show _ = w.machine.core.pending.set sid q from hset, Assoc.get_set] at hp
        split at hp
        · cases hp
          rw [hparts] at hn
          exact (hnumber n hn).2
        · exact hsigns.reached (h.kept s p n hp hn)
    have hqueued := queueOut_numbered hframe hin.swept.once t
    dsimp only
    split
    · exact hqueued.congr rfl rfl rfl rfl rfl rfl
    · exact become_numbered hqueued t .waiting

theorem resend_numbered {w : SendPlane} (hin : InOrder w) (h : Numbered w) (t sid : Nat)
    (hfresh : ∀ p n, w.machine.core.pending.get sid = some p →
      sequenceNumber p.parts.flatten = some n → ∀ k ∈ w.numbers, k < n) :
    Numbered (w.resend t sid) := by
  unfold resend
  split
  · exact h
  split
  · next core _ hresume =>
    obtain ⟨-, rfl, -⟩ | ⟨hnone, -⟩ := MachineState.resume_cases hresume
    · exact h.congr rfl rfl rfl rfl rfl rfl
    · cases hnone
  · next core hresume =>
    obtain ⟨hne, -⟩ | ⟨-, p, hp, hs⟩ := MachineState.resume_cases hresume
    · exact absurd rfl hne
    have hsigns : SignsOn w.machine.core.signer core.signer := .inl hs.signer
    have hframe : Numbered (w.framing { w.machine with core := core }) := by
      refine h.frame hs.out hs.state hsigns (fun n _ hn => ?_) (fun s q n hq hn => ?_)
      · exact ⟨hfresh p n hp hn, hsigns.reached (h.kept sid p n hp hn)⟩
      · rw [show core.pending = _ from hs.pending] at hq
        exact hsigns.reached (h.kept s q n hq hn)
    exact become_numbered (queueOut_numbered hframe hin.swept.once t) t .waiting

theorem issue_numbered {w : SendPlane} (h : Numbered w) (t : Nat) (request : Request) (sid : Nat)
    (cancelled : Bool) (hopcode : request.opcode ≠ kXR_sigver) :
    Numbered (w.issue t request sid cancelled) := by
  unfold issue
  split
  · have hmoved := MachineState.framePartsFor_unmoved w.machine.core request sid
    have hstreams := MachineState.framePartsFor_streams w.machine.core request sid
    have hsigns : SignsOn w.machine.core.signer
        (w.machine.core.framePartsFor request sid).2.signer := by
      unfold MachineState.framePartsFor
      split
      · exact frame_signsOn _ _ _
      · exact .inl rfl
    -- the call itself, whether or not it made a frame
    have hcore : ∀ core, core = (w.machine.core.framePartsFor request sid).2 →
        Numbered (w.onCore core) := by
      rintro core rfl
      refine ⟨?_, h.links, h.fresh, h.rising, fun n hn => hsigns.reached (h.below n hn),
        fun s p n hp hn => hsigns.reached (h.kept s p n ?_ hn)⟩
      · show MachineState.isPast (w.machine.core.framePartsFor request sid).2.state = true
        rw [hmoved.state]
        exact h.past
      · rw [← hstreams.pending]
        exact hp
    split
    · next core hframe => exact hcore core (by rw [hframe])
    · next parts core hframe =>
      have hnow := hcore core (by rw [hframe])
      split
      · exact hnow
      · -- a leased id: the frame is the machine's own, and goes out at once
        have hparts : (w.machine.core.frame request sid).1 = .ok parts ∧
            core = (w.machine.core.frame request sid).2 := by
          unfold MachineState.framePartsFor at hframe
          split at hframe
          · rw [hframe]
            exact ⟨rfl, rfl⟩
          · cases hframe
        obtain ⟨hparts, rfl⟩ := hparts
        have hnumbers : (become { w.onCore (w.machine.core.frame request sid).2 with
            framed := w.framed ++ [⟨0, parts.flatten⟩] } t (.lending parts.flatten)).numbers =
              w.numbers ++ (sequenceNumber parts.flatten).toList := by
          simp only [numbers, framedOn, become, List.filter_append, List.map_append,
            List.filterMap_append]
          cases hn : sequenceNumber parts.flatten <;> simp [hn]
        have hlast : ∀ n ∈ (sequenceNumber parts.flatten).toList, (∀ k ∈ w.numbers, k < n) ∧
            (w.machine.core.frame request sid).2.Reached n := by
          intro n hn
          rw [Option.mem_toList] at hn
          rcases frame_number hopcode hparts with hnone | ⟨signer, hsigner, hsome, hnext⟩
          · rw [hnone] at hn
            cases hn
          · rw [hsome] at hn
            cases hn
            exact ⟨h.above hsigner, _, hnext, Nat.le_refl _⟩
        refine ⟨hnow.past, h.links, h.fresh, ?_, fun n hn => ?_, hnow.kept⟩
        · rw [hnumbers, List.pairwise_append]
          refine ⟨h.rising, ?_, fun k hk n hn => (hlast n hn).1 k hk⟩
          cases sequenceNumber parts.flatten <;> simp
        · rw [hnumbers] at hn
          rcases List.mem_append.mp hn with hn | hn
          · exact hnow.below n hn
          · exact (hlast n hn).2
  · exact h

/-- Past the bring-up, no other call frames anything. -/
theorem aside_numbered {w : SendPlane} (h : Numbered w) {m : SessionMachine}
    (hc : MachineState.Carries w.machine.core m.core) : Numbered (w.framing m) := by
  obtain ⟨hpast, hout, hsigner⟩ := hc.past h.past
  have hreached : ∀ n, w.machine.core.Reached n → m.core.Reached n :=
    fun n hn => SignsOn.reached (.inl hsigner) hn
  have hnumbers := numbers_framing h m (hout.trans (List.append_nil _).symm)
  rw [if_pos rfl, List.append_nil] at hnumbers
  refine ⟨hpast, h.links, h.fresh, ?_, fun n hn => ?_, fun sid p n hp hn => ?_⟩
  · rw [hnumbers]
    exact h.rising
  · rw [hnumbers] at hn
    exact hreached n (h.below n hn)
  · obtain ⟨q, hq, hsame⟩ := hc.records sid p hp
    rw [hsame.parts] at hn
    exact hreached n (h.kept sid q n hq hn)

theorem adoptPath_numbered {w : SendPlane} (h : Numbered w) (pathid : Nat) :
    Numbered (w.adoptPath pathid) := by
  unfold adoptPath
  split
  · exact h
  · next hguard =>
    refine ⟨h.past, fun p hp => ?_, Nat.succ_ne_zero _, h.rising, h.below, h.kept⟩
    rcases Assoc.mem_of_mem_set hp with rfl | hp
    · exact h.fresh
    · exact h.links p hp

theorem closePath_numbered {w : SendPlane} (h : Numbered w) (pathid : Nat) :
    Numbered (w.closePath pathid) := by
  have hc := w.machine.forgetPath_carries pathid
  obtain ⟨hpast, -, hsigner⟩ := hc.past h.past
  have hreached : ∀ n, w.machine.core.Reached n →
      (w.machine.forgetPath pathid).core.Reached n :=
    fun n hn => SignsOn.reached (.inl hsigner) hn
  refine ⟨hpast, fun p hp => h.links p (List.mem_of_mem_filter hp), h.fresh, h.rising,
    fun n hn => hreached n (h.below n hn), fun sid p n hp hn => ?_⟩
  obtain ⟨q, hq, hsame⟩ := hc.records sid p hp
  rw [hsame.parts] at hn
  exact hreached n (h.kept sid q n hq hn)

theorem step_numbered {w : SendPlane} (hin : InOrder w) (h : Numbered w) (move : SendMove)
    (hfresh : Fresh w move) : Numbered (w.step move) := by
  cases move with
  | start t asked path arrive => exact start_numbered hin h t asked path arrive hfresh
  | resend t sid => exact resend_numbered hin h t sid hfresh
  | issue t request sid cancelled => exact issue_numbered h t request sid cancelled hfresh
  | flush t =>
    show Numbered (w.flush t)
    unfold flush
    split
    · exact h
    · exact become_numbered (queueOut_numbered h hin.swept.once t) t .waiting
  | lend t =>
    show Numbered (w.lend t)
    unfold lend
    split
    · exact h
    · have howned : Numbered { w with owner := some t } := h.congr rfl rfl rfl rfl rfl rfl
      exact become_numbered (queueOut_numbered howned hin.swept.once t) t .waiting
  | take t =>
    show Numbered (w.take t)
    unfold take
    split
    · exact h.congr rfl rfl rfl rfl rfl rfl
    · exact h
  | fetch t =>
    show Numbered (w.fetch t)
    unfold fetch
    split
    · split
      · exact become_numbered h t _
      · exact h.congr rfl rfl rfl rfl rfl rfl
    · exact h
  | put t n =>
    show Numbered (w.put t n)
    unfold put
    split
    · exact h.congr rfl rfl rfl rfl rfl rfl
    · exact h.congr rfl rfl rfl rfl rfl rfl
    · exact h
  | next t =>
    show Numbered (w.next t)
    unfold next
    split
    · split
      · exact become_numbered h t _
      · exact h
    · exact become_numbered h t _
    · exact become_numbered h t _
    · exact become_numbered h t _
    · exact h
  | release t =>
    show Numbered (w.release t)
    unfold release
    split
    · split <;> exact h.congr rfl rfl rfl rfl rfl rfl
    · exact h
  | finish t =>
    show Numbered (w.finish t)
    unfold finish
    split
    · exact become_numbered h t _
    · exact h
  | part t =>
    show Numbered (w.part t)
    unfold part
    split
    · exact h.congr rfl rfl rfl rfl rfl rfl
    · exact h
  | aside op =>
    show Numbered (w.aside op)
    unfold aside
    split
    · next haside => exact aside_numbered h (SessionMachine.step_carries w.machine haside)
    · exact h
  | adoptPath pathid => exact adoptPath_numbered h pathid
  | closePath pathid => exact closePath_numbered h pathid

theorem run_numbered {moves : List SendMove} {w : SendPlane} (hin : InOrder w) (h : Numbered w)
    (hfresh : EachMove Fresh w moves) : InOrder (w.run moves) ∧ Numbered (w.run moves) := by
  induction moves generalizing w with
  | nil => exact ⟨hin, h⟩
  | cons move moves ih =>
    exact ih (step_inOrder hin move) (step_numbered hin h move hfresh.1) hfresh.2

/-- A session that is up, before anything is sent. -/
theorem opened_numbered {m : SessionMachine} (hm : Unsent m) (hready : m.core.state = .ready) :
    Numbered (opened m) := by
  refine ⟨?_, nofun, Nat.one_ne_zero, .nil, nofun, fun sid p n hp => ?_⟩
  · show MachineState.isPast m.core.state = true
    rw [hready]
    rfl
  · rw [show (opened m).machine.core.pending = [] from hm.pending] at hp
    cases hp

/-- In every run whose steps are fresh, the frames on the control link carry numbers that
rise: what signs a request is made once for every frame, and the frames go out in the
order they were made. -/
theorem numbers_rise {m : SessionMachine} (hm : Unsent m) (hready : m.core.state = .ready)
    (moves : List SendMove) (hfresh : EachMove Fresh (opened m) moves) :
    InFrameOrder ((opened m).run moves) ∧ RisesOnWire ((opened m).run moves) := by
  obtain ⟨hin, hnumbered⟩ := run_numbered (opened_inOrder hm.out hm.outPath hm.pending)
    (opened_numbered hm hready) hfresh
  refine ⟨hin.inFrameOrder, fun sent rest part hframed _ _ => ?_⟩
  have hsub : ((sent ++ rest.take 1).filterMap sequenceNumber).Sublist
      ((opened m).run moves).numbers := by
    rw [numbers, hframed]
    exact ((List.take_sublist 1 rest).append_left sent).filterMap sequenceNumber
  exact hnumbered.rising.sublist hsub

/-- A session whose server has every request signed. -/
def signedSession : SessionMachine :=
  .of { MachineState.bare .ready with
    signer := some { key := [1], level := 4, overrides := [], secodata := false } }

/-- A thread that sends all it has taken, and finds nothing more. -/
def sendsAll (t : Nat) : List SendMove :=
  [.put t 100, .next t, .next t, .fetch t, .release t]

/-- A request on the control link has no data on a path. -/
theorem statRequest_routed : statRequest.pathid = 0 → statRequest.pathData = [] := fun _ => rfl

/-- Two requests, one after the other. -/
def twoSigned : List SendMove :=
  .start 0 ⟨statRequest, statRequest_routed⟩ [] false :: sendsAll 0 ++
    .start 1 ⟨statRequest, statRequest_routed⟩ [] false :: sendsAll 1

theorem numbers_rise_two_signed :
    ((opened signedSession).run twoSigned).numbers = [1, 2] ∧
      InFrameOrder ((opened signedSession).run twoSigned) ∧
      RisesOnWire ((opened signedSession).run twoSigned) :=
  ⟨by decide +kernel, numbers_rise ⟨rfl, rfl, rfl⟩ rfl twoSigned (by
    refine ⟨?_, trivial, trivial, trivial, trivial, trivial, ?_, trivial, trivial, trivial,
      trivial, trivial, trivial⟩
    · show statRequest.opcode ≠ kXR_sigver
      decide
    · show statRequest.opcode ≠ kXR_sigver
      decide)⟩

/-- The server puts the request off for a second, and it is sent again. -/
def putOff : List SendMove :=
  .start 0 ⟨statRequest, statRequest_routed⟩ [] false :: sendsAll 0 ++
    .aside (.receiveData 0 (headerBytes ⟨4, kXR_wait, 4⟩ ++ beBytes 4 1)) :: .resend 0 4 ::
      .take 0 :: .fetch 0 :: sendsAll 0

/-- The same number twice. -/
theorem putOff_repeats : ((opened signedSession).run putOff).numbers = [1, 1] ∧
    ¬ RisesOnWire ((opened signedSession).run putOff) := by
  refine ⟨by decide +kernel, fun h => ?_⟩
  have hall := h (((opened signedSession).run putOff).framedOn 0) [] [] (List.append_nil _).symm
    (by decide +kernel) (List.prefix_refl _)
  rw [List.take_nil, List.append_nil] at hall
  exact absurd hall (by decide +kernel)

end SendPlane

end XrdClient.Session
