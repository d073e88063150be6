/-
  Proto/Attribution.lean --- which request a reply reaches.

  The machine reads bytes, the books are kept in units.  `InSync` ties the two:
  each link's framer stands where what is still to be decoded begins.  Along
  every run of sound steps both invariants hold, so each reply reaches the
  request it answers, and nothing can come any more for an id that is free
  (`replies_attributed`).
-/
import XrdClient.Proto.Ledger

set_option autoImplicit false

namespace XrdClient.Proto

open XrdClient.Lib
open MachineState (effective SameStreams)

namespace World

/-! ## Reading -/

section Reading

variable {w : World} {link : Nat}

theorem take_leased (h : w.Ledger) (u : Decoded) :
    (w.take link u).machine.core.leased = w.machine.core.leased := by
  rw [take_core]
  obtain hsame | ⟨p, _, hsame, _⟩ | ⟨p, p', _, hsame, _⟩ | ⟨_, _, hsame, _⟩ :=
    deliver_outcome w.machine.core u h.wire_ready
  · exact hsame.leased
  · rw [hsame.leased, MachineState.release_leased]
  · exact hsame.leased
  · exact hsame.leased

theorem take_unread (w : World) (link : Nat) (u : Decoded) :
    (w.take link u).unread = w.unread := by
  unfold take
  split <;> rfl

/-- What decoding the next units of a link leaves. -/
structure Taken (w : World) (link : Nat) (us more : List Decoded) (w' : World) : Prop where
  ledger : w'.Ledger
  machine : w'.machine = { w.machine with core := replay w.machine.core us }
  here : (w'.on link).map Prod.fst = more
  others : ∀ other, other ≠ link → w'.on other = w.on other
  unread : w'.unread = w.unread
  leased : w'.machine.core.leased = w.machine.core.leased

theorem takes : ∀ {us more : List Decoded} {w : World}, w.Ledger →
    (w.on link).map Prod.fst = us ++ more → EachUnit SoundUnit link w us →
    Taken w link us more (us.foldl (fun w u => w.take link u) w) := by
  intro us
  induction us with
  | nil =>
    intro more w h hon _
    exact ⟨h, rfl, hon, fun _ _ => rfl, rfl, rfl⟩
  | cons u us ih =>
    intro more w h hon hsound
    cases hlist : w.on link with
    | nil => simp [hlist] at hon
    | cons p rest =>
      obtain ⟨v, request⟩ := p
      rw [hlist, List.map_cons, List.cons_append, List.cons.injEq] at hon
      obtain ⟨rfl, hrest⟩ := hon
      have hledger := take_ledger h hlist hsound.1
      have hon' : ((w.take link v).on link).map Prod.fst = us ++ more := by
        rw [take_on hlist, if_pos rfl, hrest]
      have hrec := ih hledger hon' hsound.2
      refine ⟨hrec.ledger, ?_, hrec.here, ?_, ?_, ?_⟩
      · rw [List.foldl_cons, hrec.machine, take_core]
        rfl
      · intro other ho
        rw [List.foldl_cons, hrec.others other ho, take_on hlist, if_neg ho]
      · rw [List.foldl_cons, hrec.unread, take_unread]
      · rw [List.foldl_cons, hrec.leased, take_leased h]

theorem eachUnit_append {P : World → Nat → Decoded → Prop} {us vs : List Decoded} :
    ∀ {w : World}, EachUnit P link w (us ++ vs) → EachUnit P link w us := by
  induction us with
  | nil => intro w _; trivial
  | cons u us ih =>
    intro w h
    exact ⟨h.1, ih h.2⟩

/-- Everything on a link that no leased id is answered on is expected. -/
theorem foreseen_of_sound (h : w.Ledger) {log : List Decoded}
    (hleased : ∀ p ∈ w.on link, p.1.stream ∉ w.machine.core.leased)
    (hsound : EachUnit SoundUnit link w log) (n : Nat) :
    Foreseen Expected w.machine.core ((w.on link).map Prod.fst) log n := by
  intro vs u ws ws' hon hlog _
  rw [hlog] at hsound
  have htaken := takes h hon (eachUnit_append hsound)
  cases u with
  | trailer sid data => trivial
  | frame hd body =>
    refine .inr ⟨?_, ?_⟩
    · have hready := htaken.ledger.wire_ready
      rwa [htaken.machine] at hready
    · have hmem : Decoded.frame hd body ∈
          ((vs.foldl (fun w u => w.take link u) w).on link).map Prod.fst := by
        rw [htaken.here]
        simp
      obtain ⟨p, hp, hu⟩ := List.mem_map.mp hmem
      have hheld := htaken.ledger.held (streamOf hd body)
        (.inr ⟨link, p, hp, by rw [hu]; rfl⟩)
      have hold : Decoded.frame hd body ∈ (w.on link).map Prod.fst := by
        rw [hon]
        simp
      obtain ⟨q, hq, hv⟩ := List.mem_map.mp hold
      have hnot := hleased q hq
      rw [hv] at hnot
      rw [MachineState.Holding, htaken.leased] at hheld
      rw [htaken.machine] at hheld
      obtain hp | hr | hl := hheld
      · exact .inl hp
      · exact .inr hr
      · exact absurd hl hnot

end Reading

/-- Each link's framer stands where what is still to be decoded begins. -/
def InSync (w : World) : Prop :=
  ∀ link, ∃ left : Left, left.units = (w.on link).map Prod.fst ∧
    Aligned (w.machine.framer link) left (w.toRead link)

/-- A read, with its log. -/
theorem read_keeps {w : World} (h : w.Ledger) (hsync : w.InSync) {link n : Nat}
    (hrule : w.Rule (.read link n)) (hsound : w.Sound (.read link n)) :
    (w.step (.read link n)).Ledger ∧ (w.step (.read link n)).InSync := by
  obtain ⟨hpos, hlen, hleased⟩ := hrule
  obtain ⟨left, hunits, haligned⟩ := hsync link
  have hdata : (w.toRead link).take n ≠ [] := by
    intro hnil
    have := congrArg List.length hnil
    rw [List.length_take, List.length_nil] at this
    omega
  rw [← List.take_append_drop n (w.toRead link)] at haligned
  have hexp := receiveLog_expected w.machine link haligned
    (hunits ▸ foreseen_of_sound h hleased hsound _)
  obtain ⟨left', hrec⟩ := receiveLog_received w.machine link hdata haligned hexp
  have htaken := takes h (hunits.symm.trans hrec.units) hsound
  constructor
  · have hcore : (w.step (.read link n)).machine.core =
        ((w.machine.receiveLog link ((w.toRead link).take n)).1.foldl
          (fun w u => w.take link u) w).machine.core := by
      rw [htaken.machine]
      exact hrec.core
    exact htaken.ledger.of_streams (hcore ▸ .refl _)
  · intro other
    by_cases ho : other = link
    · subst ho
      refine ⟨left', htaken.here.symm, ?_⟩
      have hrest : (w.step (.read other n)).toRead other = (w.toRead other).drop n := by
        simp [step, toRead]
      rw [hrest]
      exact hrec.aligned
    · obtain ⟨left'', hunits'', haligned''⟩ := hsync other
      refine ⟨left'', ?_, ?_⟩
      · rw [hunits'', ← htaken.others other ho]
        rfl
      · have hrest : (w.step (.read link n)).toRead other = w.toRead other := by
          simp [step, toRead, Assoc.get_set, ho]
        rw [hrest]
        have hframer := hrec.framer_of_ne ho
        exact hframer.symm ▸ haligned''

/-! ## Any step -/

/-- Every step but the end of the control link keeps the books in order. -/
theorem step_ledger {w : World} (h : w.Ledger) (hsync : w.InSync) {s : Step}
    (hrule : w.Rule s) (hsound : w.Sound s) (hend : ∀ link, s = .eof link → link ≠ 0) :
    (w.step s).Ledger := by
  cases s with
  | submit request path arriveOnPath links =>
    obtain ⟨sid, m₁, hok, htaken, p, hp, hsame⟩ | ⟨e, herror, hcase⟩ :=
      MachineState.submit_cases h.apart request path arriveOnPath
    · have hquiet : ¬ w.Live sid := fun hl => htaken.fresh (h.held sid hl)
      have hget : ∀ s q, (w.machine.core.submit request path arriveOnPath).2.pending.get s = some q →
          w.machine.core.pending.get s = some q ∨ (¬ w.Live s ∧ q.status = none) := by
        intro s q hq
        rw [hsame.pending, Assoc.get_set, htaken.pending] at hq
        split at hq
        · rename_i hs
          obtain rfl := Option.some.inj hq
          exact .inr ⟨hs ▸ hquiet, hp⟩
        · exact .inl hq
      have hholding : ∀ s, w.machine.core.Holding s ∨ s = sid →
          (w.machine.core.submit request path arriveOnPath).2.Holding s := by
        intro s hs
        rw [hsame.holding]
        simp only [MachineState.Holding, MachineState.has_set, htaken.pending, htaken.retired,
          htaken.leased]
        obtain hs | hs := hs
        · exact hs.imp (fun hp => by simp [hp]) id
        · exact .inl (by simp [hs])
      have hnew : { w with machine := { w.machine with
          core := (w.machine.core.submit request path arriveOnPath).2 } }.Ledger :=
        h.recore ((hsame.state.trans htaken.state).trans h.ready)
          (hsame.apart (htaken.setPending_apart p)) (fun s hs => hholding s (.inl (h.held s hs))) hget
      have hsends := hnew.sends w.next sid links (hholding sid (.inr rfl))
        (fun ho => hquiet (.inl ho))
        (fun link q hq hs => absurd (.inr ⟨link, q, hq, hs⟩) hquiet)
        (fun q info hq hinfo => by
          obtain hold | ⟨_, hnone⟩ := hget sid q hq
          · exact absurd (.inl (Assoc.has_eq_true.mpr ⟨q, hold⟩)) htaken.fresh
          · simp [hnone] at hinfo)
      simp only [step, hok]
      exact hsends.of_next _
    · simp only [step, herror]
      obtain hsame | ⟨sid, m₁, htaken, hsame⟩ := hcase
      · exact h.of_streams hsame
      · refine h.recore ((hsame.state.trans htaken.state).trans h.ready)
          (hsame.apart htaken.apart) (fun s hs => ?_) fun s q hq => ?_
        · rw [hsame.holding]
          have hheld := h.held s hs
          simpa only [MachineState.Holding, htaken.pending, htaken.retired, htaken.leased]
            using hheld
        · rw [hsame.pending, htaken.pending] at hq
          exact .inl hq
  | resume sid links =>
    have hsame := MachineState.resume_streams w.machine.core sid
    have hbase : { w with machine := { w.machine with
        core := (w.machine.core.resume sid).1 } }.Ledger := h.of_streams hsame
    simp only [step]
    split
    · rename_i request hraised howner
      have hpend : w.machine.core.pending.has sid = true := by
        unfold MachineState.resume at hraised
        split at hraised
        · cases hraised
        · rename_i p hp
          exact Assoc.has_eq_true.mpr ⟨p, hp⟩
      obtain ⟨hclosed, hnone⟩ := h.waiting sid hpend hrule
      refine hbase.sends _ sid links (hsame.holding.mpr (.inl hpend)) hclosed ?_ ?_
      · intro link p hp hs
        refine ⟨hnone link p hp hs, ?_⟩
        have hown := h.wire_owner link p hp
        rw [hs] at hown
        exact Option.some.inj (hown.symm.trans howner)
      · intro p info hp hinfo
        rw [hsame.pending] at hp
        by_contra hfin
        exact (h.closing sid p info hp hinfo (by simpa using hfin)).2 hrule
    · exact hbase
  | release sid =>
    by_cases hp : w.machine.core.pending.has sid = true
    · refine h.giveUp (MachineState.release_givenUp h.apart sid) fun s hs => ?_
      subst hs
      exact h.redirected s hp hrule
    · have hno : w.machine.core.release sid = w.machine.core := by
        simp [MachineState.release, hp]
      refine h.of_streams ?_
      rw [hno]
      exact .refl _
  | abandon sid => exact h.giveUp (MachineState.abandon_givenUp h.apart sid) fun _ hs => hs.elim
  | lease count => exact h.giveUp (MachineState.leaseSids_givenUp h.apart count) fun _ hs => hs.elim
  | releaseSids sids =>
    obtain ⟨hnodup, hsids⟩ := hrule
    exact h.giveUp (MachineState.giveBacks_givenUp (fun _ => false) sids _ h.apart hnodup
      fun s hs => (hsids s hs).1) fun s hs => (hsids s hs.1).2
  | retireSids sids owed =>
    obtain ⟨hnodup, hsids⟩ := hrule
    exact h.giveUp (MachineState.giveBacks_givenUp (fun sid => decide (sid ∈ owed)) sids _ h.apart
      hnodup fun s hs => (hsids s hs).1) fun s hs => (hsids s hs.1).2 (by simpa using hs.2)
  | issue request sid links =>
    obtain ⟨hleased, hquiet⟩ := hrule
    have hsame := MachineState.framePartsFor_streams w.machine.core request sid
    have hbase : { w with machine := { w.machine with
        core := (w.machine.core.framePartsFor request sid).2 } }.Ledger := h.of_streams hsame
    simp only [step]
    split
    · refine Ledger.of_next (hbase.sends _ sid links (hsame.holding.mpr (.inr (.inr hleased)))
        (fun ho => hquiet (.inl ho)) (fun link q hq hs => absurd (.inr ⟨link, q, hq, hs⟩) hquiet) ?_) _
      intro p info hp _
      rw [hsame.pending] at hp
      exact absurd hleased (h.apart.of_pending (Assoc.has_eq_true.mpr ⟨p, hp⟩)).2.1
    · exact hbase
  | bulkRead link fr =>
    refine h.shrink ?_ (fun o ho => ⟨o, ho, rfl, rfl⟩) h.opened_nodup
    intro other
    rw [on_set]
    split
    · rename_i hl
      rw [hl]
      exact List.drop_suffix _ _
    · exact List.suffix_refl _
  | forgetPath pathid =>
    exact (h.dropLink pathid).giveUp (forgetPath_givenUp h.apart pathid)
      fun s hs => hsound.quiet hs
  | eof link =>
    have hne := hend link rfl
    have hgiven : MachineState.GivenUp w.machine.core
        (fun s => s ∈ SessionMachine.streamsOn w.machine.core link)
        (w.machine.receiveData [] link).1.core := by
      simp only [SessionMachine.receiveData, SessionMachine.receiveLog, if_true, if_neg hne]
      exact onPathEof_givenUp h.apart link
    exact (h.dropLink link).giveUp hgiven fun s hs => (hsound hne).quiet hs
  | read link n => exact (read_keeps h hsync hrule hsound).1
  | answer link o fr => exact h.answer hrule

/-! ## Staying in step with the links -/

theorem InSync.of_eq {w w' : World} (h : w.InSync) (hframers : w'.machine.framers = w.machine.framers)
    (hwire : w'.wire = w.wire) (hunread : w'.unread = w.unread) : w'.InSync := by
  intro link
  obtain ⟨left, hunits, haligned⟩ := h link
  refine ⟨left, by rw [hunits, on, on, hwire], ?_⟩
  rw [SessionMachine.framer, toRead, hframers, hunread]
  exact haligned

/-- Dropping a path forgets its framer and everything on it. -/
theorem InSync.dropLink {w : World} (h : w.InSync) {link : Nat} {machine : SessionMachine}
    (hhere : machine.framer link = {})
    (hothers : ∀ other, other ≠ link → machine.framer other = w.machine.framer other) :
    ({ w with machine := machine }.dropLink link).InSync := by
  intro other
  rw [dropLink_on]
  have hread : ({ w with machine := machine }.dropLink link).toRead other =
      if other = link then [] else w.toRead other := by
    simp only [World.dropLink, toRead, Assoc.get_del]
    split <;> rfl
  rw [hread]
  by_cases ho : other = link
  · subst ho
    simp only [if_true]
    refine ⟨.frames [], rfl, ⟨?_, ?_⟩⟩
    · simp only [World.dropLink, hhere]
      exact ⟨rfl, rfl, rfl⟩
    · simp only [World.dropLink, hhere]
      rfl
  · simp only [if_neg ho]
    obtain ⟨left, hunits, haligned⟩ := h other
    refine ⟨left, hunits, ?_⟩
    simp only [World.dropLink, hothers other ho]
    exact haligned

theorem InSync.answer {w : World} (h : w.InSync) (link : Nat) (o : Owed) (fr : Frame) :
    (w.step (.answer link o fr)).InSync := by
  intro other
  obtain ⟨left, hunits, haligned⟩ := h other
  have hon : (w.step (.answer link o fr)).on other =
      if other = link then w.on link ++ fr.units.map fun u => (u, o.request) else w.on other :=
    on_set w link other _
  have hread : (w.step (.answer link o fr)).toRead other =
      if other = link then w.toRead link ++ fr.wire else w.toRead other := by
    simp only [step, toRead, Assoc.get_set]
    split <;> rfl
  rw [hon, hread]
  by_cases ho : other = link
  · subst ho
    simp only [if_true]
    refine ⟨left.push fr, ?_, haligned.push fr⟩
    rw [left.units_push, hunits, List.map_append, List.map_map]
    exact congrArg _ (List.map_id _).symm
  · simp only [if_neg ho]
    exact ⟨left, hunits, haligned⟩

theorem InSync.bulkRead {w : World} (h : w.InSync) {link : Nat} {fr : Frame}
    (hrule : w.Rule (.bulkRead link fr)) : (w.step (.bulkRead link fr)).InSync := by
  obtain ⟨hidle, _, hfront⟩ := hrule
  intro other
  obtain ⟨left, hunits, haligned⟩ := h other
  have hon : (w.step (.bulkRead link fr)).on other =
      if other = link then (w.on link).drop fr.units.length else w.on other := on_set w link other _
  have hread : (w.step (.bulkRead link fr)).toRead other =
      if other = link then (w.toRead link).drop fr.wire.length else w.toRead other := by
    simp only [step, toRead, Assoc.get_set]
    split <;> rfl
  rw [hon, hread]
  by_cases ho : other = link
  · subst ho
    simp only [if_true]
    -- An idle framer stands in front of a frame, and that frame is `fr`.
    rw [List.map_take, ← hunits] at hfront
    obtain ⟨fs, hfs, hrest⟩ := haligned.head_of_idle hidle hfront
    refine ⟨.frames fs, ?_, ?_⟩
    · rw [List.map_drop, ← hunits, hfs, List.drop_left]
    · have hframer : (w.step (.bulkRead other fr)).machine.framer other = {} := hidle
      rw [hrest, List.drop_left, hframer]
      exact ⟨⟨rfl, rfl, rfl⟩, rfl⟩
  · simp only [if_neg ho]
    exact ⟨left, hunits, haligned⟩

theorem step_inSync {w : World} (h : w.Ledger) (hsync : w.InSync) {s : Step} (hrule : w.Rule s)
    (hsound : w.Sound s) (hend : ∀ link, s = .eof link → link ≠ 0) : (w.step s).InSync := by
  cases s with
  | submit request path arriveOnPath links =>
    refine hsync.of_eq ?_ ?_ ?_ <;> simp only [step] <;> split <;> rfl
  | resume sid links =>
    refine hsync.of_eq ?_ ?_ ?_ <;> simp only [step] <;> split <;> rfl
  | release sid => exact hsync.of_eq rfl rfl rfl
  | abandon sid => exact hsync.of_eq rfl rfl rfl
  | lease count => exact hsync.of_eq rfl rfl rfl
  | releaseSids sids => exact hsync.of_eq rfl rfl rfl
  | retireSids sids owed => exact hsync.of_eq rfl rfl rfl
  | issue request sid links =>
    refine hsync.of_eq ?_ ?_ ?_ <;> simp only [step] <;> split <;> rfl
  | bulkRead link fr => exact hsync.bulkRead hrule
  | forgetPath pathid =>
    refine hsync.dropLink ?_ fun other ho => ?_
    · exact (SessionMachine.framer_del w.machine _ pathid pathid).trans (if_pos rfl)
    · exact (SessionMachine.framer_del w.machine _ pathid other).trans (if_neg ho)
  | eof link =>
    have hne := hend link rfl
    refine hsync.dropLink ?_ fun other ho => ?_
    · rw [SessionMachine.receiveData_framer]
      simp [hne]
    · rw [SessionMachine.receiveData_framer, if_neg ho]
  | read link n => exact (read_keeps h hsync hrule hsound).2
  | answer link o fr => exact hsync.answer link o fr

/-! ## Whole runs -/

/-- The end of the control link ends the session, and frees no id. -/
theorem eof_attributed {w : World} (h : w.Ledger) : (w.step (.eof 0)).Attributed ∧
    (w.step (.eof 0)).machine.core.state ≠ .ready := by
  have heof : (w.machine.receiveData [] 0).1.core.state = .closed ∧
      (w.machine.receiveData [] 0).1.core.free = w.machine.core.free := by
    simp only [SessionMachine.receiveData, SessionMachine.receiveLog, if_true,
      SessionMachine.onEof, h.ready]
    exact ⟨rfl, rfl⟩
  refine ⟨⟨h.handed, fun s hs hlive => ?_⟩, ?_⟩
  · have hfree : s ∈ w.machine.core.free := by
      rw [← heof.2]
      exact hs
    exact h.attributed.free s hfree (dropLink_live hlive)
  · have hstate : (w.step (.eof 0)).machine.core.state = .closed := heof.1
    rw [hstate]
    decide

/-- What holds in every state of a run. -/
def Kept (w : World) : Prop :=
  w.Attributed ∧ (w.machine.core.state = .ready → w.Ledger ∧ w.InSync)

theorem step_kept {w : World} (h : w.Kept) {s : Step} (hready : w.machine.core.state = .ready)
    (hrule : w.Rule s) (hsound : w.Sound s) : (w.step s).Kept := by
  obtain ⟨hledger, hsync⟩ := h.2 hready
  by_cases hend : s = .eof 0
  · subst hend
    obtain ⟨hattr, hclosed⟩ := eof_attributed hledger
    exact ⟨hattr, fun hready' => absurd hready' hclosed⟩
  · have hpath : ∀ link, s = .eof link → link ≠ 0 := by
      rintro link rfl rfl
      exact hend rfl
    have hledger' := step_ledger hledger hsync hrule hsound hpath
    exact ⟨hledger'.attributed, fun _ => ⟨hledger', step_inSync hledger hsync hrule hsound hpath⟩⟩

/-- A session that is up, with no id handed out and every link between frames. -/
structure Settled (m : SessionMachine) : Prop where
  ready : m.core.state = .ready
  pending : m.core.pending = []
  retired : m.core.retired = []
  leased : m.core.leased = []
  free : m.core.free = []
  framers : ∀ link, m.framer link = {}

theorem Settled.kept {m : SessionMachine} (h : Settled m) : ({ machine := m } : World).Kept := by
  have hon : ∀ link, ({ machine := m } : World).on link = [] := fun _ => rfl
  have hledger : ({ machine := m } : World).Ledger := by
    refine ⟨h.ready, ?_, ?_, ?_, ?_, List.nodup_nil, ?_, ?_, ?_, ?_, ?_, ?_, ?_⟩
    · intro s
      simp [MachineState.places, h.pending, h.retired, h.leased, h.free, Assoc.has]
    · exact fun link p hp => by cases hp
    · exact fun o ho => by cases ho
    · rintro s (⟨o, ho, _⟩ | ⟨link, p, hp, _⟩)
      · cases ho
      · cases hp
    · exact fun link p hp => by cases hp
    · exact fun link _ p hp => by cases hp
    · exact fun link => trivial
    · intro s p info hp
      simp [h.pending] at hp
    · intro s _ hr
      cases hr
    · intro s _ hr
      cases hr
    · exact fun e he => by cases he
  refine ⟨hledger.attributed, fun _ => ⟨hledger, fun link => ⟨.frames [], rfl, ?_⟩⟩⟩
  rw [h.framers link]
  exact ⟨⟨rfl, rfl, rfl⟩, rfl⟩

theorem run_kept : ∀ {steps : List Step} {w : World}, w.Kept →
    EachStep (fun w s => w.Rule s ∧ w.Sound s) w steps → (w.run steps).Kept := by
  intro steps
  induction steps with
  | nil => intro w h _; exact h
  | cons s steps ih =>
    intro w h hsteps
    exact ih (step_kept h hsteps.1.1 hsteps.1.2.1 hsteps.1.2.2) hsteps.2

/-- In every run from a session that is up, with a driver and a server that keep to
the rules, in which no step frees an id too early, each reply reaches the request
it answers, and nothing can come any more for an id that is free. -/
theorem replies_attributed {m : SessionMachine} (hm : Settled m) {steps : List Step}
    (hsteps : EachStep (fun w s => w.Rule s ∧ w.Sound s) { machine := m } steps) :
    (({ machine := m } : World).run steps).Attributed :=
  (run_kept hm.kept hsteps).1

/-- A session that is up. -/
def upMachine : SessionMachine :=
  let m := newMachine.run bringUp
  { m with core := { m.core with events := [], out := [] } }

theorem upMachine_settled : Settled upMachine := by
  refine ⟨by decide, by decide, by decide, by decide, by decide, fun link => ?_⟩
  have hframers : upMachine.framers = [(0, {})] := by decide
  rw [SessionMachine.framer, hframers]
  by_cases hl : link = 0 <;> simp [Assoc.get, hl]

/-- Four bytes are asked for and the server sends eight, saying there is more; the
next request is given the same id, and then the rest of the first answer comes. -/
def overCapRun : List Step :=
  [.submit (readRequest [1, 0, 0, 0] 0 4) [] false [0],
    .answer 0 ⟨0, 4, [0]⟩
      (.plain 4 kXR_oksofar (List.replicate 8 65) ⟨by decide, by decide, by decide⟩ (by decide)),
    .read 0 16,
    .submit statRequest [] false [0],
    .answer 0 ⟨0, 4, [0]⟩
      (.plain 4 kXR_ok (List.replicate 4 65) ⟨by decide, by decide, by decide⟩ (by decide)),
    .read 0 12]

theorem rest_of_answer_completes_next_request : Settled upMachine ∧
    EachStep Rule { machine := upMachine } overCapRun ∧
    .completed 4 statRequest (List.replicate 4 65) none ∈
      (({ machine := upMachine } : World).run overCapRun).machine.core.events ∧
    ¬ (({ machine := upMachine } : World).run overCapRun).Attributed := by
  refine ⟨upMachine_settled, by decide, by decide, fun h => ?_⟩
  have hmem : ((0 : Nat), some 1) ∈
      (({ machine := upMachine } : World).run overCapRun).handed := by decide
  cases h.handed _ hmem

/-- The same requests, with an answer of the size that was asked for; the first is
given up on and its answer comes late. -/
def lateRun : List Step :=
  [.submit (readRequest [1, 0, 0, 0] 0 4) [] false [0],
    .abandon 4,
    .submit statRequest [] false [0],
    .answer 0 ⟨0, 4, [0]⟩
      (.plain 4 kXR_ok (List.replicate 4 65) ⟨by decide, by decide, by decide⟩ (by decide)),
    .answer 0 ⟨1, 5, [0]⟩
      (.plain 5 kXR_ok [66] ⟨by decide, by decide, by decide⟩ (by decide)),
    .read 0 21,
    .submit statRequest [] false [0]]

theorem late_answer_is_dropped : Settled upMachine ∧
    EachStep (fun w s => w.Rule s ∧ w.Sound s) { machine := upMachine } lateRun ∧
    (({ machine := upMachine } : World).run lateRun).machine.core.events =
      [.completed 5 statRequest [66] none] ∧
    (({ machine := upMachine } : World).run lateRun).Attributed := by
  have hsteps : EachStep (fun w s => w.Rule s ∧ w.Sound s) { machine := upMachine } lateRun := by
    decide
  exact ⟨upMachine_settled, hsteps, by decide, replies_attributed upMachine_settled hsteps⟩

end World

end XrdClient.Proto
