/-
  Session/BulkSettle.lean --- the wire after a bulk call.

  Source: `session/bulk.py`, `settle`, `_hand_back` and the four calls.

  Each of the four calls ends in `settle`, with the wire between two frames or torn,
  and `settle` makes of it a connection that the machine can use or one that is
  marked broken.  That is proved for every list of calls on one reader and every
  list of frames in which a `kXR_status` is the whole of its answer.  Where it is
  not, the reader gives the connection back with the data of the status block on it.
-/
import Mathlib
import XrdClient.Session.BulkFrames

set_option autoImplicit false

namespace XrdClient.Proto

open XrdClient.Lib

namespace MachineState

/-! ## Ids lent and given back -/

/-- The loop of `lease_sids`: distinct ids, which the machine has on its books. -/
theorem leaseLoop_lent : ∀ (count : Nat) (m : MachineState) (taken : List Nat), m.Apart →
    taken.Nodup → (∀ s ∈ taken, s ∈ m.leased) →
    (leaseLoop count m taken).2.Apart ∧ (leaseLoop count m taken).2.retired = m.retired ∧
      ∀ sids, (leaseLoop count m taken).1 = .ok sids →
        sids.Nodup ∧ (∀ s ∈ sids, s ∈ (leaseLoop count m taken).2.leased) ∧
          sids.length = taken.length + count := by
  intro count
  induction count with
  | zero =>
    intro m taken ha hnodup hleased
    refine ⟨ha, rfl, fun sids h => ?_⟩
    cases h
    exact ⟨hnodup, hleased, rfl⟩
  | succ count ih =>
    intro m taken ha hnodup hleased
    unfold leaseLoop
    obtain ⟨sid, m₁, hacq, _⟩ | ⟨e, m₁, hacq, hsame⟩ := m.acquireSid_cases
    · rw [hacq]
      have htaken := acquireSid_taken ha hacq
      have hnew : sid ∉ taken := fun h => htaken.fresh (.inr (.inr (hleased sid h)))
      have hmore := ih { m₁ with leased := m₁.leased ++ [sid] } (taken ++ [sid]) htaken.lease.apart
        (by
          rw [List.nodup_append]
          refine ⟨hnodup, by simp, ?_⟩
          rintro s hs t ht rfl
          rw [List.mem_singleton] at ht
          exact hnew (ht ▸ hs))
        (by
          intro s hs
          rcases List.mem_append.mp hs with hs | hs
          · exact List.mem_append_left _ (htaken.leased ▸ hleased s hs)
          · exact List.mem_append_right _ hs)
      obtain ⟨hapart, hretired, hlent⟩ := hmore
      refine ⟨hapart, hretired.trans htaken.retired, fun sids h => ?_⟩
      obtain ⟨h1, h2, h3⟩ := hlent sids h
      refine ⟨h1, h2, ?_⟩
      rw [h3, List.length_append, List.length_singleton]
      omega
    · rw [hacq]
      exact ⟨hsame.apart ha, hsame.retired, fun sids h => by cases h⟩

/-- The ids given back with a reply owed are retired, and no others are. -/
theorem giveBacks_retired (owed : Nat → Bool) : ∀ (sids : List Nat) (m : MachineState) (s : Nat),
    s ∈ (sids.foldl (giveBack owed) m).retired ↔ s ∈ m.retired ∨ s ∈ sids ∧ owed s = true := by
  intro sids
  induction sids with
  | nil => intro m s; simp
  | cons sid sids ih =>
    intro m s
    have hone : s ∈ (giveBack owed m sid).retired ↔ s ∈ m.retired ∨ s = sid ∧ owed s = true := by
      unfold giveBack
      by_cases howed : owed sid = true
      · by_cases hr : sid ∈ m.retired
        · simp only [howed, if_true, hr]
          refine ⟨.inl, fun h => h.elim id fun h => h.1 ▸ hr⟩
        · simp only [howed, if_true, hr, if_false, List.mem_append, List.mem_singleton]
          refine or_congr_right ⟨fun h => ⟨h, h ▸ howed⟩, And.left⟩
      · simp only [howed]
        refine ⟨.inl, fun h => h.elim id fun h => absurd (h.1 ▸ h.2) howed⟩
    rw [List.foldl_cons, ih, hone, List.mem_cons]
    tauto

end MachineState

end XrdClient.Proto

namespace XrdClient.Session

open XrdClient.Lib
open XrdClient.Lib.Act
open XrdClient.Proto

namespace BulkReader

variable {all : List Sent} {loan : Loan} {spare : List Nat}

/-! ## Giving the ids back -/

/-- Between two calls. -/
structure Idle (all : List Sent) (r : BulkReader) : Prop where
  held : r.leased = []
  owed : r.owed = []
  apart : r.machine.Apart
  synced : Synced all r

/-- Ids given back with nothing owed go to the free ones, the others are retired. -/
theorem Lent.giveBacks {sids : List Nat} {r : BulkReader} (h : Lent ⟨sids, []⟩ [] r)
    (hs : Synced all r) (owed : Nat → Bool) (howed : ∀ s ∈ sids, owed s = true ↔ s ∈ r.owed) :
    Idle all { r with owed := [], machine := sids.foldl (MachineState.giveBack owed) r.machine } := by
  have hgiven := MachineState.giveBacks_givenUp owed sids r.machine h.apart h.nodup h.leased
  refine ⟨h.held, rfl, hgiven.apart, fun hb => ?_⟩
  obtain ⟨done, rest, hall, hin, hbal⟩ := hs hb
  refine ⟨done, rest, hall, hin, fun s => ?_⟩
  have hiff : (s ∈ ([] : List Nat) ∨ s ∈ (sids.foldl (MachineState.giveBack owed) r.machine).retired) ↔
      (s ∈ r.owed ∨ s ∈ r.machine.retired) := by
    rw [MachineState.giveBacks_retired]
    constructor
    · rintro (h0 | hr | ⟨hsid, ho⟩)
      · cases h0
      · exact .inr hr
      · exact .inl ((howed s hsid).mp ho)
    · rintro (ho | hr)
      · have hsid := h.owed s ho
        exact .inr (.inr ⟨hsid, (howed s hsid).mpr ho⟩)
      · exact .inr (.inl hr)
  have hcount := hbal s
  simp only [hiff]
  exact hcount

theorem stopped_sat {P E : BulkReader → Prop} (h : ∀ r ticks, P r → P { r with ticks := ticks }) :
    Sat P stopped (fun _ => P) E :=
  Sat.bind (tick_sat h) fun _ => Sat.get_bind fun _ => Sat.pure _ fun _ hr => hr.2

/-- `_hand_back`. -/
theorem handBack_sat (sids : List Nat) : Sat (Guarded all ⟨sids, []⟩) (handBack sids)
    (fun _ => Idle all) (Idle all) := by
  refine Sat.get_bind fun a => ?_
  -- the ids are handed back with what was owed, which is forgotten first
  refine Sat.modify_bind (M := fun r => ∃ r₀, r₀.owed = a.owed ∧ r₀.torn = a.torn ∧
    Guarded all ⟨sids, []⟩ r₀ ∧ r = { r₀ with owed := [] }) ?_ ?_
  · rintro r ⟨rfl, hr⟩
    exact ⟨r, rfl, rfl, hr, rfl⟩
  refine Sat.ite (fun hclean => Sat.modify _ ?_) fun hclean => ?_
  · rintro r ⟨r₀, howed, htorn, hr, rfl⟩
    refine hr.lent.giveBacks (hr.synced (htorn.trans hclean.2)) _ fun s _ => ?_
    rw [howed, hclean.1]
    simp
  refine Sat.bind (Q := fun stopped r => (stopped = true → a.torn = false) ∧ ∃ r₀,
    r₀.owed = a.owed ∧ r₀.torn = a.torn ∧ Guarded all ⟨sids, []⟩ r₀ ∧ r = { r₀ with owed := [] }) ?_
    fun stopped => ?_
  · refine Sat.ite (fun ht => ?_) fun ht => Sat.pure _ fun r hr => ⟨nofun, hr⟩
    refine (stopped_sat ?_).post fun stopped r hr => ⟨fun _ => ht, hr⟩
    rintro r ticks ⟨r₀, howed, htorn, hr, rfl⟩
    exact ⟨{ r₀ with ticks := ticks }, howed, htorn,
      ⟨hr.lent.same rfl rfl rfl, hr.synced⟩, rfl⟩
  refine Sat.ite (fun hstop => Sat.modify _ ?_) fun _ => Sat.modify _ ?_
  · rintro r ⟨ht, r₀, howed, htorn, hr, rfl⟩
    refine hr.lent.giveBacks (hr.synced (htorn.trans (ht hstop))) _ fun s _ => ?_
    rw [howed]
    simp
  · rintro r ⟨-, r₀, -, -, hr, rfl⟩
    exact ⟨hr.lent.held, rfl, hr.lent.apart, fun hb => by cases hb⟩

/-- `settle`, in a call that holds ids. -/
theorem settle_sat (hwhole : ∀ fr ∈ all, fr.Whole) {sids : List Nat} (hne : sids ≠ []) :
    Sat (Guarded all ⟨sids, sids⟩) settle (fun _ => Idle all) (Idle all) := by
  refine Sat.get_bind fun a => Sat.of_each fun r₀ hr₀ => ?_
  obtain ⟨rfl, hr₀⟩ := hr₀
  refine Sat.modify_bind (M := fun r => r = { r₀ with leased := [] }) (fun r hr => by rw [hr]) ?_
  have hheld : r₀.leased = sids := hr₀.lent.held
  rw [hheld]
  have hstart : Guarded all ⟨sids, []⟩ { r₀ with leased := [] } :=
    ⟨⟨rfl, hr₀.lent.apart, hr₀.lent.nodup, hr₀.lent.leased, hr₀.lent.owed, hr₀.lent.spare_nodup,
      hr₀.lent.free⟩, hr₀.synced⟩
  refine Sat.ite (fun h => absurd h hne) fun _ => ?_
  refine Sat.tryFinally (E := Guarded all ⟨sids, []⟩) ?_ (handBack_sat sids)
  refine Sat.ite (fun _ => Sat.pure _ fun r hr => hr ▸ hstart) fun hdrain => ?_
  have htorn : r₀.torn = false := by
    cases h : r₀.torn
    · rfl
    · exact absurd (.inr h) hdrain
  have hbetween : Between all ⟨sids, []⟩ [] { r₀ with leased := [] } :=
    ⟨hstart.lent, htorn, hstart.synced htorn⟩
  refine Sat.bind (Q := fun _ => Between all ⟨sids, []⟩ []) ((stopped_sat ?_).pre
    fun r hr => hr ▸ hbetween) fun stopped => ?_
  · intro r ticks hr
    exact ⟨hr.lent.same rfl rfl rfl, hr.torn, hr.synced⟩
  · exact Sat.ite (fun _ => Sat.pure _ fun r hr => hr.guarded) fun _ => drain_sat hwhole

/-! ## Sending -/

/-- `_begin`: ids to spare, and the wire between two frames. -/
theorem begin_sat : Sat (Idle all) begin
    (fun sids r => sids ≠ [] ∧ Between all ⟨sids, sids⟩ sids.reverse r) (Idle all) := by
  refine Sat.get_bind fun a => Sat.of_each fun r₀ hr₀ => ?_
  obtain ⟨rfl, hr₀⟩ := hr₀
  refine Sat.ite (fun h => absurd hr₀.held h) fun _ => ?_
  have htick : Sat (fun r => r = r₀) tick (fun _ r => ∃ ticks, r = { r₀ with ticks := ticks })
      (Idle all) :=
    (tick_sat fun r ticks hr => by
      obtain ⟨_, rfl⟩ := hr
      exact ⟨ticks, rfl⟩).pre fun r hr => ⟨r₀.ticks, hr⟩
  refine Sat.bind htick fun t => ?_
  refine Sat.modify_bind (M := fun r => r.leased = [] ∧ r.owed = [] ∧ r.torn = false ∧
    r.machine = r₀.machine ∧ Synced all r) ?_ ?_
  · rintro r ⟨ticks, rfl⟩
    exact ⟨hr₀.held, hr₀.owed, rfl, rfl, hr₀.synced⟩
  have hdepth : ¬ r₀.settings.depth < 1 := Nat.not_lt_of_le r₀.settings.depth_pos
  obtain ⟨hapart, hretired, hlent⟩ := MachineState.leaseLoop_lent r₀.settings.depth r₀.machine []
    hr₀.apart (by simp) (by simp)
  -- a machine that lent ids has retired none
  have hsynced : ∀ (r : BulkReader) (machine : MachineState) (leased : List Nat),
      r.machine = r₀.machine → machine.retired = r₀.machine.retired → Synced all r →
      Synced all { r with machine := machine, leased := leased } := by
    intro r machine leased hm hret hs hb
    obtain ⟨done, rest, hall, hin, hbal⟩ := hs hb
    refine ⟨done, rest, hall, hin, fun s => ?_⟩
    have := hbal s
    rw [hm, ← hret] at this
    exact this
  rcases hlease : r₀.machine.leaseSids r₀.settings.depth with ⟨e | sids, machine⟩
  all_goals
    unfold MachineState.leaseSids at hlease
    rw [if_neg hdepth] at hlease
    rw [hlease] at hapart hretired hlent
  · refine Sat.modify_bind (M := Idle all) ?_ (Sat.throw _ fun r hr => hr)
    rintro r ⟨hl, ho, -, hm, hs⟩
    exact ⟨hl, ho, hapart, hsynced r machine r.leased hm hretired hs⟩
  · obtain ⟨hnodup, hleased, hlen⟩ := hlent sids rfl
    refine Sat.modify_bind (M := fun r => sids ≠ [] ∧ Between all ⟨sids, sids⟩ sids.reverse r) ?_
      (Sat.pure _ fun r hr => hr)
    rintro r ⟨hl, ho, ht, hm, hs⟩
    refine ⟨?_, ⟨rfl, hapart, hnodup, hleased, ?_, List.nodup_reverse.mpr hnodup, ?_⟩, ht,
      hsynced r machine sids hm hretired hs⟩
    · rintro rfl
      simp at hlen
      omega
    · rw [show ({ r with machine := machine, leased := sids } : BulkReader).owed = [] from ho]
      simp
    · rw [show ({ r with machine := machine, leased := sids } : BulkReader).owed = [] from ho]
      simp

/-- Fewer ids to spare are ids to spare. -/
theorem Between.keep {r : BulkReader} (h : Between all loan spare r) {spare' : List Nat}
    (hnodup : spare'.Nodup) (hsub : ∀ s ∈ spare', s ∈ spare) : Between all loan spare' r :=
  ⟨⟨h.lent.held, h.lent.apart, h.lent.nodup, h.lent.leased, h.lent.owed, hnodup,
    fun s hs => h.lent.free s (hsub s hs)⟩, h.torn, h.synced⟩

theorem callOut_sat : Sat (Between all loan spare) callOut (fun _ => Between all loan spare)
    (Guarded all loan) := by
  refine Sat.bind (tick_sat fun r ticks hr => ⟨hr.lent.same rfl rfl rfl, hr.torn, hr.synced⟩)
    fun t => ?_
  exact Sat.ite (fun _ => Sat.pure _ fun r hr => hr) fun _ => Sat.throw _ fun r hr => hr.guarded

/-- A request goes out on an id to spare, and a reply to it is owed. -/
theorem Between.issued {r : BulkReader} {sid : Nat} (h : Between all loan (sid :: spare) r)
    (outgoing : Bytes) :
    Between all loan spare { r with
      outgoing := outgoing, torn := false
      owed := if sid ∈ r.owed then r.owed else r.owed ++ [sid], issued := r.issued ++ [sid] } := by
  obtain ⟨hsid, hfree⟩ := h.lent.free sid (by simp)
  obtain ⟨hnew, hnodup⟩ := List.nodup_cons.mp h.lent.spare_nodup
  rw [if_neg hfree]
  refine ⟨⟨h.lent.held, h.lent.apart, h.lent.nodup, h.lent.leased, ?_, hnodup, ?_⟩, rfl, fun hb => ?_⟩
  · intro s hs
    rcases List.mem_append.mp hs with hs | hs
    · exact h.lent.owed s hs
    · rw [List.mem_singleton] at hs
      exact hs ▸ hsid
  · intro s hs
    obtain ⟨hin, hno⟩ := h.lent.free s (by simp [hs])
    refine ⟨hin, fun hmem => ?_⟩
    rcases List.mem_append.mp hmem with hmem | hmem
    · exact hno hmem
    · rw [List.mem_singleton] at hmem
      exact hnew (hmem ▸ hs)
  · obtain ⟨done, rest, hall, hin, hbal⟩ := h.synced hb
    refine ⟨done, rest, hall, hin, fun s => ?_⟩
    have hcount := hbal s
    have hretired : sid ∉ r.machine.retired := by
      intro hr
      have h1 := h.lent.apart sid
      have h2 := List.count_pos_iff.mpr hr
      have h3 := List.count_pos_iff.mpr (h.lent.leased sid hsid)
      unfold MachineState.places at h1
      omega
    by_cases hs : s = sid
    · subst hs
      simp only [hfree, hretired, or_self, if_false] at hcount
      simp [hcount]
    · have hne : sid ≠ s := fun e => hs e.symm
      simp [hcount, hs, hne]

theorem send_sat (sid : Nat) (frames : List Bytes) :
    Sat (Between all loan (sid :: spare)) (send sid frames) (fun _ => Between all loan spare)
      (Guarded all loan) := by
  refine Sat.bind (tick_sat fun r ticks hr => ⟨hr.lent.same rfl rfl rfl, hr.torn, hr.synced⟩)
    fun t => ?_
  refine Sat.ite (fun _ => Sat.throw _ fun r hr => hr.guarded) fun _ => ?_
  refine Sat.modify_bind (M := fun r => ∃ r₀, Between all loan (sid :: spare) r₀ ∧
    r = { r₀ with torn := true }) (fun r hr => ⟨r, hr, rfl⟩) ?_
  refine Sat.ite (fun _ => Sat.throw _ ?_) fun _ => Sat.modify _ ?_
  · rintro r ⟨r₀, h₀, rfl⟩
    exact .of_torn (h₀.lent.same rfl rfl rfl) rfl
  · rintro r ⟨r₀, h₀, rfl⟩
    exact h₀.issued (r₀.outgoing ++ frames.flatten)

/-- `_issue`. -/
theorem issue_sat (sid : Nat) (request : Request) :
    Sat (Between all loan (sid :: spare)) (issue sid request) (fun _ => Between all loan spare)
      (Guarded all loan) := by
  refine Sat.get_bind fun a => ?_
  have hsame := MachineState.framePartsFor_streams a.machine request sid
  -- framing a request moves the signer of the machine, and no id
  have hframed : ∀ (r : BulkReader), r = a ∧ Between all loan (sid :: spare) r →
      Between all loan (sid :: spare) { r with machine := (a.machine.framePartsFor request sid).2 } := by
    rintro r ⟨rfl, hr⟩
    refine ⟨⟨hr.lent.held, hsame.apart hr.lent.apart, hr.lent.nodup, ?_, hr.lent.owed,
      hr.lent.spare_nodup, hr.lent.free⟩, hr.torn, fun hb => ?_⟩
    · intro s hs
      show s ∈ (r.machine.framePartsFor request sid).2.leased
      rw [hsame.leased]
      exact hr.lent.leased s hs
    · obtain ⟨done, rest, hall, hin, hbal⟩ := hr.synced hb
      refine ⟨done, rest, hall, hin, fun s => ?_⟩
      simp only [hsame.retired]
      exact hbal s
  rcases hframe : a.machine.framePartsFor request sid with ⟨e | frames, machine⟩
  all_goals rw [hframe] at hframed
  · exact Sat.modify_bind hframed (Sat.throw _ fun r hr => hr.guarded)
  · exact Sat.modify_bind hframed (send_sat sid frames)

/-! ## The four calls -/

/-- Ids of a `stream` in progress that nothing is owed on. -/
def Streaming.unasked (l : Streaming) : List Nat := l.freeSids ++ l.done

theorem ask_sat : ∀ (fuel : Nat) (l : Streaming), Sat (Between all loan l.unasked) (ask fuel l)
    (fun l' => Between all loan l'.unasked) (Guarded all loan) := by
  intro fuel
  induction fuel with
  | zero => exact fun l => Sat.pure _ fun r hr => hr
  | succ fuel ih =>
    intro l
    unfold ask
    split
    · exact Sat.pure _ fun r hr => hr
    · refine Sat.ite (fun _ => Sat.pure _ fun r hr => hr) fun _ => ?_
      split
      · exact Sat.throw _ fun r hr => hr.guarded
      · next sid sids hsids =>
        refine Sat.get_bind fun a => ?_
        refine Sat.bind ((@issue_sat all loan (sids ++ l.done) sid _).pre fun r hr => ?_) fun _ =>
          Sat.pre (ih _) fun r hr => hr
        have := hr.2
        rw [Streaming.unasked, hsids] at this
        exact this

section

variable (hwhole : ∀ fr ∈ all, fr.Whole)

include hwhole

theorem awaitLoop_sat (sid : Nat) : ∀ (fuel : Nat) (l : Streaming),
    Sat (Between all loan l.unasked) (awaitLoop sid fuel l)
      (fun l' r => sid ∈ l'.done ∧ Between all loan l'.unasked r) (Guarded all loan) := by
  intro fuel
  induction fuel with
  | zero => exact fun l => Sat.throw _ fun r hr => hr.guarded
  | succ fuel ih =>
    intro l
    refine Sat.ite (fun hmem => Sat.pure _ fun r hr => ⟨hmem, hr⟩) fun _ => ?_
    refine Sat.bind (collect_sat hwhole l.inflight) fun result => ?_
    obtain ⟨_ | finished, inflight⟩ := result
    · exact Sat.pre (ih _) fun r hr => hr
    · refine (ih _).pre fun r hr => ?_
      refine Between.keep hr (List.nodup_middle.mpr hr.lent.spare_nodup) fun s hs => ?_
      rcases List.mem_append.mp hs with hs | hs
      · exact List.mem_cons_of_mem _ (List.mem_append_left _ hs)
      · rcases List.mem_cons.mp hs with rfl | hs
        · simp
        · exact List.mem_cons_of_mem _ (List.mem_append_right _ hs)

theorem awaitInTurn_sat (sid : Nat) (l : Streaming) :
    Sat (Between all loan l.unasked) (awaitInTurn sid l)
      (fun result => Between all loan (sid :: result.2.unasked)) (Guarded all loan) := by
  refine Sat.get_bind fun a => Sat.bind ((awaitLoop_sat hwhole sid _ l).pre fun r hr => hr.2)
    fun l' => ?_
  split
  · exact Sat.throw _ fun r hr => hr.2.guarded
  · refine Sat.pure _ ?_
    rintro r ⟨hmem, hr⟩
    obtain ⟨hfree, hdone, hapart⟩ := List.nodup_append.mp hr.lent.spare_nodup
    refine hr.keep ?_ fun s hs => ?_
    · refine List.nodup_cons.mpr ⟨fun hs => ?_, List.nodup_append.mpr ⟨hfree, hdone.filter _, ?_⟩⟩
      · rcases List.mem_append.mp hs with hs | hs
        · exact hapart sid hs sid hmem rfl
        · simp at hs
      · exact fun s hs t ht => hapart s hs t (List.mem_of_mem_filter ht)
    · rcases List.mem_cons.mp hs with rfl | hs
      · exact List.mem_append_right _ hmem
      · rcases List.mem_append.mp hs with hs | hs
        · exact List.mem_append_left _ hs
        · exact List.mem_append_right _ (List.mem_of_mem_filter hs)

omit hwhole in
theorem hand_sat (entry : InFlight) : Sat (Between all loan spare) (hand entry)
    (fun _ => Between all loan spare) (Guarded all loan) := by
  refine Sat.ite (fun _ => Sat.pure _ fun r hr => hr) fun _ => ?_
  exact Sat.modify_bind (fun r hr => ⟨hr.lent.same rfl rfl rfl, hr.torn, hr.synced⟩) callOut_sat

theorem streamLoop_sat : ∀ (fuel : Nat) (l : Streaming),
    Sat (Between all loan l.unasked) (streamLoop fuel l) (fun _ => Guarded all loan)
      (Guarded all loan) := by
  intro fuel
  induction fuel with
  | zero => exact fun l => Sat.throw _ fun r hr => hr.guarded
  | succ fuel ih =>
    intro l
    refine Sat.bind (ask_sat _ l) fun l' => ?_
    split
    · exact Sat.pure _ fun r hr => hr.guarded
    · refine Sat.bind (Sat.pre (awaitInTurn_sat hwhole _ _) fun r hr => hr) fun result => ?_
      obtain ⟨entry, l''⟩ := result
      exact Sat.bind (hand_sat entry) fun _ => Sat.pre (ih _) fun r hr => hr

omit hwhole in
theorem askInto_sat (start : Nat) : ∀ (fuel : Nat) (l : Gathering),
    Sat (Between all loan l.freeSids) (askInto start fuel l)
      (fun l' => Between all loan l'.freeSids) (Guarded all loan) := by
  intro fuel
  induction fuel with
  | zero => exact fun l => Sat.pure _ fun r hr => hr
  | succ fuel ih =>
    intro l
    unfold askInto
    split
    · exact Sat.pure _ fun r hr => hr
    · next sid sids hsids =>
      refine Sat.ite (fun _ => Sat.pure _ fun r hr => hr) fun _ => Sat.get_bind fun a => ?_
      refine Sat.bind ((@issue_sat all loan sids sid _).pre fun r hr => hsids ▸ hr.2) fun _ =>
        Sat.pre (ih _) fun r hr => hr

theorem intoLoop_sat (start : Nat) : ∀ (fuel : Nat) (l : Gathering),
    Sat (Between all loan l.freeSids) (intoLoop start fuel l) (fun _ => Guarded all loan)
      (Guarded all loan) := by
  intro fuel
  induction fuel with
  | zero => exact fun l => Sat.throw _ fun r hr => hr.guarded
  | succ fuel ih =>
    intro l
    refine Sat.bind (askInto_sat start _ l) fun l' => Sat.ite (fun _ => ?_) fun _ => ?_
    · refine Sat.modify_bind (M := Guarded all loan) (fun r hr => ?_) (Sat.pure _ fun r hr => hr)
      exact ⟨hr.lent.spend.same rfl rfl rfl, fun _ => hr.synced⟩
    · refine Sat.bind (collect_sat hwhole l'.inflight) fun result => ?_
      obtain ⟨_ | finished, inflight⟩ := result
      · exact Sat.pre (ih _) fun r hr => hr
      · dsimp only
        split
        · exact Sat.throw _ fun r hr => hr.guarded
        · exact Sat.pre (ih _) fun r hr => hr

omit hwhole in
theorem askEach_sat (requests : List (Request × Nat)) : ∀ (fuel : Nat) (l : Gathering),
    Sat (Between all loan l.freeSids) (askEach requests fuel l)
      (fun l' => Between all loan l'.freeSids) (Guarded all loan) := by
  intro fuel
  induction fuel with
  | zero => exact fun l => Sat.pure _ fun r hr => hr
  | succ fuel ih =>
    intro l
    unfold askEach
    split
    · next sid sids request bound _ hsids _ =>
      refine Sat.bind ((@issue_sat all loan sids sid request).pre fun r hr => hsids ▸ hr) fun _ =>
        Sat.pre (ih _) fun r hr => hr
    · exact Sat.pure _ fun r hr => hr

theorem gatherLoop_sat (requests : List (Request × Nat)) : ∀ (fuel : Nat) (l : Gathering),
    Sat (Between all loan l.freeSids) (gatherLoop requests fuel l) (fun _ => Guarded all loan)
      (Guarded all loan) := by
  intro fuel
  induction fuel with
  | zero => exact fun l => Sat.throw _ fun r hr => hr.guarded
  | succ fuel ih =>
    intro l
    refine Sat.bind (askEach_sat requests _ l) fun l' =>
      Sat.ite (fun _ => Sat.pure _ fun r hr => hr.guarded) fun _ => ?_
    refine Sat.bind (collect_sat hwhole l'.inflight) fun result => ?_
    obtain ⟨_ | finished, inflight⟩ := result
    · exact Sat.pre (ih _) fun r hr => hr
    · dsimp only
      split
      · exact Sat.throw _ fun r hr => hr.guarded
      · exact Sat.pre (ih _) fun r hr => hr

omit hwhole in
theorem callOutIf_sat (given : Bool) : Sat (Between all loan spare) (callOutIf given)
    (fun _ => Between all loan spare) (Guarded all loan) :=
  Sat.ite (fun _ => callOut_sat) fun _ => Sat.pure _ fun _ hr => hr

omit hwhole in
theorem writeBatch_sat (check : Bool) : ∀ (source : List Bytes) (l : Writing),
    Sat (Between all loan l.freeSids) (writeBatch check source l)
      (fun l' => Between all loan l'.freeSids) (Guarded all loan) := by
  intro source
  induction source with
  | nil =>
    intro l
    unfold writeBatch
    split
    · exact Sat.pure _ fun r hr => hr
    · exact Sat.bind callOut_sat fun _ => Sat.pure _ fun r hr => hr
  | cons piece source ih =>
    intro l
    unfold writeBatch
    split
    · exact Sat.pure _ fun r hr => hr
    · next sid sids hsids =>
      refine Sat.bind callOut_sat fun _ => Sat.ite (fun _ => ih l) fun _ => Sat.get_bind fun a => ?_
      refine Sat.ite (fun _ => Sat.throw _ fun r hr => hr.2.guarded) fun _ => ?_
      refine Sat.bind ((@issue_sat all loan sids sid _).pre fun r hr => hsids ▸ hr.2) fun _ => ?_
      exact Sat.bind (callOutIf_sat check) fun _ => Sat.pre (ih _) fun r hr => hr

omit hwhole in
theorem writeAnswer_sat (replies : WriteReplies) (reply : Header) (block : Bytes)
    (span : Nat × Nat) : Sat (Between all loan spare) (writeAnswer replies reply block span)
      (fun _ => Between all loan spare) (Guarded all loan) := by
  refine Sat.ite (fun _ => ?_) fun _ => Sat.ite (fun _ => ?_) fun _ => Sat.ite (fun _ => ?_)
    fun _ => Sat.pure _ fun r hr => hr
  · refine Sat.modify_bind (M := Between all loan spare)
      (fun r hr => ⟨hr.lent.same rfl rfl rfl, hr.torn, hr.synced⟩) ?_
    exact Sat.bind (callOutIf_sat _) fun _ => Sat.pure _ fun r hr => hr
  · refine Sat.modify_bind (M := Between all loan spare)
      (fun r hr => ⟨hr.lent.same rfl rfl rfl, hr.torn, hr.synced⟩) ?_
    exact Sat.bind callOut_sat fun _ => Sat.pure _ fun r hr => hr
  · refine Sat.modify_bind (M := Guarded all loan) (fun r hr => ?_) (Sat.throw _ fun r hr => hr)
    exact .of_torn (hr.lent.same rfl rfl rfl) rfl

theorem writeLoop_sat (replies : WriteReplies) : ∀ (fuel : Nat) (l : Writing),
    Sat (Between all loan l.freeSids) (writeLoop replies fuel l) (fun _ => Guarded all loan)
      (Guarded all loan) := by
  intro fuel
  induction fuel with
  | zero => exact fun l => Sat.throw _ fun r hr => hr.guarded
  | succ fuel ih =>
    intro l
    refine Sat.bind (Q := fun l' => Between all loan l'.freeSids)
      (Sat.ite (fun _ => writeBatch_sat _ _ l) fun _ => Sat.pure _ fun r hr => hr) fun l' => ?_
    refine Sat.ite (fun _ => ?_) fun _ => ?_
    · split
      · exact Sat.throw _ fun r hr => hr.guarded
      · exact Sat.pure _ fun r hr => hr.guarded
    · refine Sat.bind (nextReply_sat hwhole) fun reply => ?_
      refine Sat.bind (Q := fun _ r => Past all loan l'.freeSids reply r ∧ r.torn = false ∧
        reply.sid ∈ r.owed ∧ reply.status ≠ kXR_waitresp) (body_sat _ ?_ ?_) fun block => ?_
      · rintro r r' data ⟨hr, howed, hlater⟩ hread hlen
        exact ⟨hr.past hread hlen, rfl, hread.owed ▸ howed, hlater⟩
      · rintro r r' data ⟨hr, -⟩ hread
        exact hread.guarded hr.lent hr.torn
      · refine Sat.ite (fun hsofar => (ih l').pre ?_) fun hsofar => ?_
        · rintro r ⟨hr, ht, -⟩
          exact hr.more hwhole (.inl hsofar) ht
        · refine Sat.modify_bind (M := Between all loan (reply.sid :: l'.freeSids)) ?_ ?_
          · rintro r ⟨hr, ht, howed, hlater⟩
            exact hr.final hwhole hsofar hlater ht howed
          · split
            · exact Sat.throw _ fun r hr => hr.guarded
            · refine Sat.bind (writeAnswer_sat replies reply block _) fun answer => ?_
              exact Sat.pre (ih _) fun r hr => hr

/-! ## Calls -/

omit hwhole in
/-- A call that took its ids ends in `settle`. -/
theorem withIds_sat {α : Type} {x : List Nat → BulkReader → Bulk α}
    {F : Bulk α → Bulk Unit → Bulk α}
    (hF : ∀ (sids : List Nat) (y : Bulk α), sids ≠ [] →
      Sat (Between all ⟨sids, sids⟩ sids.reverse) y (fun _ => Guarded all ⟨sids, sids⟩)
        (Guarded all ⟨sids, sids⟩) →
      Sat (Between all ⟨sids, sids⟩ sids.reverse) (F y settle) (fun _ => Idle all) (Idle all))
    (hx : ∀ sids r, Sat (Between all ⟨sids, sids⟩ sids.reverse) (x sids r)
      (fun _ => Guarded all ⟨sids, sids⟩) (Guarded all ⟨sids, sids⟩)) :
    Sat (Idle all) (do
      let sids ← begin
      let r ← Act.get
      F (x sids r) settle) (fun _ => Idle all) (Idle all) := by
  refine Sat.bind begin_sat fun sids => Sat.get_bind fun a => ?_
  refine Sat.of_each fun r hr => ?_
  obtain ⟨rfl, hne, hr⟩ := hr
  exact (hF sids (x sids r) hne (hx sids r)).pre fun s hs => hs ▸ hr

theorem call_idle {r : BulkReader} (h : Idle all r) (c : BulkCall) : Idle all (r.call c) := by
  have hend : ∀ {α : Type} (x : Bulk α), Sat (Idle all) x (fun _ => Idle all) (Idle all) →
      Idle all (x r).2 := by
    intro α x hx
    rcases heq : x r with ⟨_ | a, r'⟩
    · exact hx.error h heq
    · exact hx.ok h heq
  have hfinally : ∀ {α : Type} (sids : List Nat) (y : Bulk α), sids ≠ [] →
      Sat (Between all ⟨sids, sids⟩ sids.reverse) y (fun _ => Guarded all ⟨sids, sids⟩)
        (Guarded all ⟨sids, sids⟩) →
      Sat (Between all ⟨sids, sids⟩ sids.reverse) (tryFinally y settle) (fun _ => Idle all)
        (Idle all) := fun sids y hne hy => Sat.tryFinally hy (settle_sat hwhole hne)
  cases c with
  | stream start length =>
    refine hend _ (Sat.ite (fun _ => Sat.pure _ fun _ hr => hr) fun _ => ?_)
    refine withIds_sat hfinally fun sids r => Sat.pre (streamLoop_sat hwhole _ _) fun s hs => ?_
    rw [Streaming.unasked, List.append_nil]
    exact hs
  | into want start =>
    refine hend _ (Sat.ite (fun _ => Sat.pure _ fun _ hr => hr) fun _ => ?_)
    exact withIds_sat hfinally fun sids r =>
      Sat.pre (intoLoop_sat hwhole start _ _) fun s hs => hs
  | gather requests =>
    refine hend _ (Sat.ite (fun _ => Sat.pure _ fun _ hr => hr) fun _ => ?_)
    exact withIds_sat hfinally fun sids r =>
      Sat.pre (gatherLoop_sat hwhole requests _ _) fun s hs => hs
  | writeChunks replies handling pieces start =>
    refine hend _ (withIds_sat (F := tryFinallyQuiet handling) ?_ fun sids r =>
      Sat.pre (writeLoop_sat hwhole replies _ _) fun s hs => hs)
    exact fun sids y hne hy => Sat.tryFinallyQuiet handling hy (settle_sat hwhole hne)

theorem calls_idle : ∀ (cs : List BulkCall) {r : BulkReader}, Idle all r → Idle all (r.calls cs) := by
  intro cs
  induction cs with
  | nil => exact fun h => h
  | cons c cs ih => exact fun h => ih (call_idle hwhole h c)

end

/-! ## The connection that is given back -/

/-- What a call has to leave: a connection marked broken, or the wire between two
frames, nothing owed on an id that is free, and every id that is owed a reply retired. -/
def Settled (all : List Sent) (r : BulkReader) : Prop :=
  r.broken = true ∨ ∃ done rest, all = done ++ rest ∧ r.incoming = wires rest ∧
    (∀ s ∈ r.machine.free, r.issued.count s ≤ finals done s) ∧
    ∀ s, finals done s < r.issued.count s → s ∈ r.machine.retired

theorem Idle.settled {r : BulkReader} (h : Idle all r) : Settled all r := by
  cases hb : r.broken with
  | true => exact .inl hb
  | false =>
    obtain ⟨done, rest, hall, hin, hbal⟩ := h.synced hb
    have hcount : ∀ s, r.issued.count s =
        finals done s + if s ∈ r.machine.retired then 1 else 0 := by
      intro s
      have := hbal s
      simpa [h.owed] using this
    refine .inr ⟨done, rest, hall, hin, fun s hs => ?_, fun s hs => ?_⟩
    · have hno : s ∉ r.machine.retired := fun hr => h.apart.not_free (.inr (.inl hr)) hs
      have := hcount s
      rw [if_neg hno] at this
      omega
    · by_contra hno
      have := hcount s
      rw [if_neg hno] at this
      omega

/-- A reader as `Session.bulk` makes it, on a link that carries `incoming`. -/
def made (settings : BulkSettings) (machine : MachineState) (incoming : Bytes) (ticks : List Tick) :
    BulkReader where
  settings := settings
  machine := machine
  incoming := incoming
  ticks := ticks

theorem made_idle (settings : BulkSettings) {machine : MachineState} (ha : machine.Apart)
    (hidle : machine.idle = true) (all : List Sent) (ticks : List Tick) :
    Idle all (made settings machine (wires all) ticks) := by
  have hretired : machine.retired = [] := by
    simp only [MachineState.idle, Bool.and_eq_true, decide_eq_true_eq] at hidle
    exact hidle.2
  refine ⟨rfl, rfl, ha, fun _ => ⟨[], all, rfl, rfl, fun s => ?_⟩⟩
  simp [made, hretired, finals]

/-- **The wire after a bulk call.**  Whatever calls are made of a reader, on a machine
that is idle after any run of its own, whatever frames the server sends and whatever
becomes of the link, of the clocks and of the caller: the connection is settled after
every call, if each `kXR_status` among the frames is the whole of its answer. -/
theorem settled_after_calls (env : Env) (host : Text) (port : Nat) (config : Auth.Config)
    (username : Text) (wantTls : Bool) (ops : List Op)
    (hheld : SessionMachine.EachCall SessionMachine.Held
      (SessionMachine.made env host port config username wantTls []) ops)
    (settings : BulkSettings) (all : List Sent) (hwhole : ∀ fr ∈ all, fr.Whole)
    (ticks : List Tick) (cs : List BulkCall)
    (hidle : ((SessionMachine.made env host port config username wantTls []).run ops).core.idle =
      true) :
    Settled all ((made settings
      ((SessionMachine.made env host port config username wantTls []).run ops).core (wires all)
      ticks).calls cs) := by
  have hpooled := SessionMachine.run_pooled hheld
    (SessionMachine.made_pooled env host port config username wantTls []).1
  exact (calls_idle hwhole cs (made_idle settings hpooled.apart hidle all ticks)).settled

/-! ## A status block with data -/

/-- A reader of four bytes at a time, one read in flight. -/
def fourAtATime : BulkSettings where
  handle := [0, 0, 0, 1]
  chunk := 4
  depth := 1
  stallDeadline := 0
  waitBudget := 0
  chunk_pos := by decide
  chunk_le := by decide
  depth_pos := by decide

/-- A moment at which everything goes well. -/
def well : Tick := { received := .bytes 100, sent := true, goesOn := true }

/-- The read on stream 4, answered with four bytes. -/
def dataReply : Sent where
  header := ⟨4, kXR_ok, 4⟩
  body := [1, 2, 3, 4]
  data := []
  sid_lt := by decide
  status_lt := by decide
  dlen_lt := by decide
  body_length := by decide
  data_length := by decide

/-- The same answer as a final status block, its data behind it. -/
def statusReply : Sent where
  header := ⟨4, kXR_status, 16⟩
  body := [0, 0, 0, 0, 0, 4, 13, 0, 0, 0, 0, 0, 0, 0, 0, 4]
  data := [1, 2, 3, 4]
  sid_lt := by decide
  status_lt := by decide
  dlen_lt := by decide
  body_length := by decide
  data_length := by decide

/-- One read of four bytes on a fresh connection, answered with `fr`. -/
def afterRead (fr : Sent) : BulkReader :=
  (made fourAtATime (newMachine.run bringUp).core (wires [fr]) (List.replicate 8 well)).calls
    [.into 4 0]

theorem settled_after_data_reply : Settled [dataReply] (afterRead dataReply) := by
  have hwhole : ∀ fr ∈ [dataReply], fr.Whole := by
    intro fr hfr sid block hans
    rw [List.mem_singleton] at hfr
    subst hfr
    rw [show dataReply.answer = some (4, kXR_ok, [1, 2, 3, 4]) from rfl] at hans
    simp [kXR_ok, kXR_status] at hans
  exact settled_after_calls MachineState.bareEnv "server".toList 1094 {} "user".toList false bringUp
    ⟨trivial, trivial, trivial, trivial, trivial⟩ fourAtATime [dataReply] hwhole
    (List.replicate 8 well) [.into 4 0] (by decide)

/-- The connection goes back as a good one, with the data of the reply on it. -/
theorem status_data_left_on_the_wire : ¬ Settled [statusReply] (afterRead statusReply) := by
  have hbroken : (afterRead statusReply).broken = false := by decide +kernel
  have hincoming : (afterRead statusReply).incoming = [1, 2, 3, 4] := by
    decide +kernel
  rintro (hb | ⟨done, rest, hall, hin, -⟩)
  · rw [hbroken] at hb
    cases hb
  · rw [hincoming] at hin
    rcases done with _ | ⟨fr, done⟩
    · rw [List.nil_append] at hall
      rw [← hall] at hin
      exact absurd hin (by decide)
    · have hnil : rest = [] := by
        rw [List.cons_append, List.cons.injEq] at hall
        exact (List.append_eq_nil_iff.mp hall.2.symm).2
      rw [hnil] at hin
      cases hin

end BulkReader

end XrdClient.Session
