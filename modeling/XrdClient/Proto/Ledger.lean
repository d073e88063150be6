/-
  Proto/Ledger.lean --- the books of a run stay in order.

  `Ledger` is the invariant: every id for which something can come is held, by
  the request it comes for; an answer has one final frame, the last of its
  stream on its link.  A unit that is decoded soundly keeps it (`take_ledger`),
  and so does every other step.
-/
import XrdClient.Proto.World

set_option autoImplicit false

namespace XrdClient.Proto

open XrdClient.Lib
open MachineState (effective SameStreams)

namespace World

/-! ## The invariant -/

/-- The final frame of the stream has been decoded: at most its own data is
still to come. -/
structure Closing (w : World) (s : Nat) : Prop where
  closed : ¬ w.Open s
  answered : ∀ link, ∀ p ∈ w.on link, p.1.stream = s → p.1.isFinal = false
  last : ∃ link, (∀ other, other ≠ link → ¬ w.Coming other s) ∧
    (w.on link).countP (fun p => p.1.stream = s) ≤ 1

/-- The books are in order. -/
structure Ledger (w : World) : Prop where
  ready : w.machine.core.state = .ready
  apart : w.machine.core.Apart
  wire_owner : ∀ link, ∀ p ∈ w.on link, w.owner.get p.1.stream = some p.2
  opened_owner : ∀ o ∈ w.opened, w.owner.get o.sid = some o.request
  /-- An id for which something can come is held. -/
  held : ∀ s, w.Live s → w.machine.core.Holding s
  opened_nodup : (w.opened.map Owed.sid).Nodup
  /-- One final frame for each answer. -/
  final_closed : ∀ link, ∀ p ∈ w.on link, p.1.isFinal = true → ¬ w.Open p.1.stream
  final_link : ∀ link link', ∀ p ∈ w.on link, ∀ q ∈ w.on link', p.1.isFinal = true →
    q.1.isFinal = true → p.1.stream = q.1.stream → link = link'
  ordered : ∀ link, Ordered ((w.on link).map Prod.fst)
  closing : ∀ s p info, w.machine.core.pending.get s = some p → p.status = some info →
    info.isFinal = true → w.Closing s ∧ w.reply.get s ≠ some kXR_wait
  redirected : ∀ s, w.machine.core.pending.has s = true →
    w.reply.get s = some kXR_redirect → ¬ w.Live s
  waiting : ∀ s, w.machine.core.pending.has s = true → w.reply.get s = some kXR_wait →
    ¬ w.Open s ∧ ∀ link, ∀ p ∈ w.on link, p.1.stream = s → p.1.isFinal = false
  handed : ∀ h ∈ w.handed, h.2 = some h.1

theorem Ledger.attributed {w : World} (h : w.Ledger) : w.Attributed :=
  ⟨h.handed, fun s hs hlive => h.apart.not_free (h.held s hlive) hs⟩

/-- The books stay in order when ids change hands, as long as every id something
can come for stays held, and a new record is on an id nothing can come for. -/
theorem Ledger.recore {w : World} (h : w.Ledger) {machine : SessionMachine}
    {unread : Assoc Nat Bytes} (hready : machine.core.state = .ready)
    (hapart : machine.core.Apart) (hheld : ∀ s, w.Live s → machine.core.Holding s)
    (hrecords : ∀ s p, machine.core.pending.get s = some p →
      w.machine.core.pending.get s = some p ∨ (¬ w.Live s ∧ p.status = none)) :
    { w with machine := machine, unread := unread }.Ledger := by
  have hpending : ∀ s, machine.core.pending.has s = true →
      w.machine.core.pending.has s = true ∨ ¬ w.Live s := by
    intro s hs
    obtain ⟨p, hp⟩ := Assoc.has_eq_true.mp hs
    exact (hrecords s p hp).imp (fun hold => Assoc.has_eq_true.mpr ⟨p, hold⟩) And.left
  refine ⟨hready, hapart, h.wire_owner, h.opened_owner, hheld, h.opened_nodup, h.final_closed,
    h.final_link, h.ordered, ?_, ?_, ?_, h.handed⟩
  · intro s p info hp hinfo hfin
    obtain hold | ⟨_, hnone⟩ := hrecords s p hp
    · obtain ⟨hclosing, hreply⟩ := h.closing s p info hold hinfo hfin
      exact ⟨⟨hclosing.closed, hclosing.answered, hclosing.last⟩, hreply⟩
    · simp [hnone] at hinfo
  · intro s hs hreply
    obtain hold | hquiet := hpending s hs
    · exact h.redirected s hold hreply
    · exact hquiet
  · intro s hs hreply
    obtain hold | hquiet := hpending s hs
    · exact h.waiting s hold hreply
    · exact ⟨fun ho => hquiet (.inl ho),
        fun link p hp hstream => absurd (.inr ⟨link, p, hp, hstream⟩) hquiet⟩

/-- The books do not depend on anything else of the machine. -/
theorem Ledger.of_streams {w : World} (h : w.Ledger) {machine : SessionMachine}
    {unread : Assoc Nat Bytes} (hsame : SameStreams w.machine.core machine.core) :
    { w with machine := machine, unread := unread }.Ledger :=
  h.recore (hsame.state.trans h.ready) (hsame.apart h.apart)
    (fun s hs => hsame.holding.mpr (h.held s hs)) fun _ _ hp => .inl (hsame.pending ▸ hp)

theorem Ledger.of_next {w : World} (h : w.Ledger) (next : Nat) : { w with next := next }.Ledger :=
  ⟨h.ready, h.apart, h.wire_owner, h.opened_owner, h.held, h.opened_nodup, h.final_closed,
    h.final_link, h.ordered,
    fun s p info hp hinfo hfin =>
      have hc := h.closing s p info hp hinfo hfin
      ⟨⟨hc.1.closed, hc.1.answered, hc.1.last⟩, hc.2⟩,
    h.redirected, h.waiting, h.handed⟩

theorem Ledger.wire_ready {w : World} (h : w.Ledger) :
    MachineState.inBringup w.machine.core.state = false := by
  rw [h.ready]
  rfl

/-! ## Decoding keeps the books -/

section Take

variable {w : World} {link : Nat} {u : Decoded} {request : Nat} {rest : List (Decoded × Nat)}

theorem on_set (w : World) (link other : Nat) (us : List (Decoded × Nat)) :
    ((w.wire.set link us).get other).getD [] = if other = link then us else w.on other := by
  rw [Assoc.get_set]
  split <;> rfl

theorem take_on (hon : w.on link = (u, request) :: rest) (other : Nat) :
    (w.take link u).on other = if other = link then rest else w.on other := by
  simp only [take, hon]
  exact on_set w link other rest

theorem take_subset (hon : w.on link = (u, request) :: rest) {other : Nat}
    {p : Decoded × Nat} (hp : p ∈ (w.take link u).on other) : p ∈ w.on other := by
  rw [take_on hon] at hp
  split at hp
  · rename_i h
    rw [h, hon]
    exact List.mem_cons_of_mem _ hp
  · exact hp

theorem take_core (w : World) (link : Nat) (u : Decoded) :
    (w.take link u).machine = { w.machine with core := (deliver w.machine.core u).1 } := by
  unfold take
  split <;> rfl

theorem take_opened (w : World) (link : Nat) (u : Decoded) :
    (w.take link u).opened = w.opened := by
  unfold take
  split <;> rfl

theorem take_owner (w : World) (link : Nat) (u : Decoded) :
    (w.take link u).owner = w.owner := by
  unfold take
  split <;> rfl

theorem take_open (w : World) (link : Nat) (u : Decoded) (s : Nat) :
    (w.take link u).Open s ↔ w.Open s := by
  simp only [Open, take_opened]

theorem take_coming (hon : w.on link = (u, request) :: rest) {other s : Nat}
    (h : (w.take link u).Coming other s) : w.Coming other s := by
  obtain ⟨p, hp, hs⟩ := h
  exact ⟨p, take_subset hon hp, hs⟩

theorem take_live (hon : w.on link = (u, request) :: rest) {s : Nat}
    (h : (w.take link u).Live s) : w.Live s := by
  obtain ho | ⟨other, hc⟩ := h
  · exact .inl ((take_open w link u s).mp ho)
  · exact .inr ⟨other, take_coming hon hc⟩

/-- The unit itself is coming. -/
theorem coming_head (hon : w.on link = (u, request) :: rest) : w.Coming link u.stream :=
  ⟨(u, request), by simp [hon], rfl⟩

theorem take_reply (hon : w.on link = (u, request) :: rest) (s : Nat) :
    (w.take link u).reply.get s =
      if s = u.stream ∧ u.replyStatus.isSome then u.replyStatus else w.reply.get s := by
  simp only [take, hon]
  cases hr : u.replyStatus with
  | none => simp
  | some status => simp [Assoc.get_set]

/-- Once its final frame is decoded, with nothing on other links, a stream has at
most the frame's own data to come. -/
theorem closing_of_final (h : w.Ledger) (hon : w.on link = (u, request) :: rest)
    (hf : u.isFinal = true) (hothers : ∀ other, other ≠ link → ¬ w.Coming other u.stream) :
    (w.take link u).Closing u.stream ∧
      rest.countP (fun p => p.1.stream = u.stream) ≤ u.carries := by
  have hord := h.ordered link
  rw [hon, List.map_cons] at hord
  obtain ⟨hnone, hcount⟩ := hord.1 hf
  have hcount' : rest.countP (fun p => p.1.stream = u.stream) ≤ u.carries := by
    rw [List.countP_map] at hcount
    exact hcount
  have hone : u.carries ≤ 1 := by
    cases u with
    | trailer sid data => simp [Decoded.carries]
    | frame hd body =>
      simp only [Decoded.carries]
      split <;> omega
  refine ⟨⟨?_, ?_, link, ?_, ?_⟩, hcount'⟩
  · rw [take_open]
    exact h.final_closed link (u, request) (by simp [hon]) hf
  · intro other p hp hs
    by_cases ho : other = link
    · rw [take_on hon, if_pos ho] at hp
      exact hnone p.1 (List.mem_map.mpr ⟨p, hp, rfl⟩) hs
    · exact absurd ⟨p, take_subset hon hp, hs⟩ (hothers other ho)
  · intro other ho hc
    exact hothers other ho (take_coming hon hc)
  · rw [take_on hon, if_pos rfl]
    omega

/-- Nothing is left to come when this was all there was. -/
theorem quiet_of_none (hon : w.on link = (u, request) :: rest) (hclosed : ¬ w.Open u.stream)
    (hothers : ∀ other, other ≠ link → ¬ w.Coming other u.stream)
    (hnone : rest.countP (fun p => p.1.stream = u.stream) = 0) :
    ¬ (w.take link u).Live u.stream := by
  rw [List.countP_eq_zero] at hnone
  intro hlive
  obtain ho | ⟨other, hc⟩ := hlive
  · exact hclosed ((take_open w link u _).mp ho)
  · by_cases heq : other = link
    · obtain ⟨p, hp, hs⟩ := hc
      rw [take_on hon, if_pos heq] at hp
      simpa [hs] using hnone p hp
    · exact hothers other heq (take_coming hon hc)

/-- With a final frame that carries no data, nothing is left to come. -/
theorem quiet_of_final (h : w.Ledger) (hon : w.on link = (u, request) :: rest)
    (hf : u.isFinal = true) (hothers : ∀ other, other ≠ link → ¬ w.Coming other u.stream)
    (hdata : u.carries = 0) : ¬ (w.take link u).Live u.stream := by
  obtain ⟨hclosing, hcount⟩ := closing_of_final h hon hf hothers
  have hclosed := hclosing.closed
  rw [take_open] at hclosed
  exact quiet_of_none hon hclosed hothers (by omega)

/-- The last unit of a closing stream leaves nothing to come. -/
theorem Closing.quiet (h : w.Closing u.stream) (hon : w.on link = (u, request) :: rest) :
    ¬ (w.take link u).Live u.stream := by
  obtain ⟨here, hothers, hcount⟩ := h.last
  obtain rfl : link = here := by
    by_contra hne
    exact hothers link hne (coming_head hon)
  rw [hon, List.countP_cons] at hcount
  simp only [decide_true, if_true] at hcount
  exact quiet_of_none hon h.closed hothers (by omega)

theorem Closing.take {s : Nat} (h : w.Closing s) (hon : w.on link = (u, request) :: rest) :
    (w.take link u).Closing s := by
  obtain ⟨here, hothers, hcount⟩ := h.last
  refine ⟨by rw [take_open]; exact h.closed,
    fun other p hp hs => h.answered other p (take_subset hon hp) hs, here,
    fun other ho hc => hothers other ho (take_coming hon hc), ?_⟩
  rw [take_on hon]
  split
  · rename_i hhere
    rw [hhere, hon, List.countP_cons] at hcount
    omega
  · exact hcount

/-- Nothing on the other links, as a sound unit has it. -/
theorem SoundUnit.others (h : w.SoundUnit link u) (hf : u.isFinal = true)
    (hw : ¬ (u.replyStatus = some kXR_wait ∧ w.machine.core.pending.has u.stream = true)) :
    ∀ other, other ≠ link → ¬ w.Coming other u.stream :=
  fun other ho hc => h.links hf hw other (on_ne_nil hc) ho hc

/-- A unit that makes its record go, or its retired id free, was the last of its
stream. -/
theorem quiet_of_freed (h : w.Ledger) (hon : w.on link = (u, request) :: rest)
    (hsound : w.SoundUnit link u) {p : Pending}
    (found : w.machine.core.pending.get u.stream = some p)
    (cause : overran w.machine.core u = true ∨
      (u.isFinal = true ∧ u.replyStatus ≠ some kXR_wait ∧ u.carries = 0) ∨
      (∃ info, p.status = some info ∧ info.isFinal = true ∧ u.replyStatus = none)) :
    ¬ (w.take link u).Live u.stream := by
  obtain hover | ⟨hf, hwait, hdata⟩ | ⟨info, hinfo, hf, _⟩ := cause
  · rw [hsound.cap] at hover
    cases hover
  · exact quiet_of_final h hon hf (hsound.others hf fun hw => hwait hw.1) hdata
  · exact (h.closing _ p info found hinfo hf).1.quiet hon

/-- The table of ids after a sound unit. -/
theorem take_table (h : w.Ledger) (hon : w.on link = (u, request) :: rest)
    (hsound : w.SoundUnit link u) :
    (w.take link u).machine.core.state = .ready ∧ (w.take link u).machine.core.Apart ∧
      ∀ s, (w.take link u).Live s → (w.take link u).machine.core.Holding s := by
  have hheld : ∀ s, (w.take link u).Live s → w.machine.core.Holding s :=
    fun s hs => h.held s (take_live hon hs)
  rw [take_core]
  obtain hsame | ⟨p, found, hsame, cause⟩ | ⟨p, p', found, hsame, _⟩ |
    ⟨hret, lost, hsame, hf⟩ := deliver_outcome w.machine.core u h.wire_ready
  · exact ⟨hsame.state.trans h.ready, hsame.apart h.apart,
      fun s hs => hsame.holding.mpr (hheld s hs)⟩
  · have hquiet := quiet_of_freed h hon hsound found cause
    refine ⟨?_, hsame.apart (MachineState.release_apart h.apart _), fun s hs => ?_⟩
    · rw [hsame.state, MachineState.release_state, h.ready]
    · have hne : s ≠ u.stream := fun e => hquiet (e ▸ hs)
      exact hsame.holding.mpr ((MachineState.release_holding hne).mpr (hheld s hs))
  · have hhas : w.machine.core.pending.has u.stream = true := Assoc.has_eq_true.mpr ⟨p, found⟩
    exact ⟨hsame.state.trans h.ready,
      hsame.apart (MachineState.setPending_apart p' hhas h.apart),
      fun s hs => hsame.holding.mpr
        ((MachineState.setPending_holding p' hhas s).mpr (hheld s hs))⟩
  · have hquiet := quiet_of_final h hon hf
      (hsound.others hf fun hw => by simp [Assoc.has_eq_false.mpr lost] at hw)
      (hsound.retired hret hf)
    refine ⟨hsame.state.trans h.ready, hsame.apart (MachineState.freed_apart h.apart hret),
      fun s hs => ?_⟩
    have hne : s ≠ u.stream := fun e => hquiet (e ▸ hs)
    exact hsame.holding.mpr ((MachineState.freed_holding hne).mpr (hheld s hs))

/-- The records after a unit: one that was there before, with the same status, or
the one the unit was for. -/
theorem take_record (h : w.Ledger) {s : Nat} {p' : Pending}
    (hp' : (deliver w.machine.core u).1.pending.get s = some p') :
    ∃ p, w.machine.core.pending.get s = some p ∧
      (p'.status = p.status ∨ (∃ info, p'.status = some info ∧ info.isFinal = false) ∨
        (s = u.stream ∧ u.isFinal = true ∧ u.replyStatus = some kXR_status)) := by
  obtain hsame | ⟨p, found, hsame, _⟩ | ⟨p, q, found, hsame, hstatus⟩ |
    ⟨_, _, hsame, _⟩ := deliver_outcome w.machine.core u h.wire_ready
  · rw [hsame.pending] at hp'
    exact ⟨p', hp', .inl rfl⟩
  · rw [hsame.pending] at hp'
    exact ⟨p', (MachineState.release_get hp').1, .inl rfl⟩
  · rw [hsame.pending, Assoc.get_set] at hp'
    split at hp'
    · rename_i hs
      obtain rfl := Option.some.inj hp'
      refine ⟨p, hs ▸ found, hstatus.imp id (Or.imp id fun hf => ⟨hs, hf⟩)⟩
    · exact ⟨p', hp', .inl rfl⟩
  · rw [hsame.pending] at hp'
    exact ⟨p', hp', .inl rfl⟩

/-- Decoding a unit without freeing an id too early keeps the books in order. -/
theorem take_ledger (h : w.Ledger) (hon : w.on link = (u, request) :: rest)
    (hsound : w.SoundUnit link u) : (w.take link u).Ledger := by
  obtain ⟨hready, hapart, hheld⟩ := take_table h hon hsound
  have hmem : (u, request) ∈ w.on link := by simp [hon]
  have hpending : ∀ {s}, (w.take link u).machine.core.pending.has s = true →
      w.machine.core.pending.has s = true := by
    intro s hs
    rw [take_core] at hs
    obtain ⟨p', hp'⟩ := Assoc.has_eq_true.mp hs
    obtain ⟨p, hp, _⟩ := take_record h hp'
    exact Assoc.has_eq_true.mpr ⟨p, hp⟩
  refine ⟨hready, hapart, ?_, ?_, hheld, ?_, ?_, ?_, ?_, ?_, ?_, ?_, ?_⟩
  · intro other p hp
    rw [take_owner]
    exact h.wire_owner other p (take_subset hon hp)
  · rw [take_opened, take_owner]
    exact h.opened_owner
  · rw [take_opened]
    exact h.opened_nodup
  · intro other p hp hf
    rw [take_open]
    exact h.final_closed other p (take_subset hon hp) hf
  · intro l l' p hp q hq
    exact h.final_link l l' p (take_subset hon hp) q (take_subset hon hq)
  · intro other
    rw [take_on hon]
    split
    · have hord := h.ordered link
      rw [hon] at hord
      exact hord.2
    · exact h.ordered other
  · intro s p' info hp' hinfo hfin
    rw [take_core] at hp'
    obtain ⟨p, hp, hstatus⟩ := take_record h hp'
    have hold : p.status = some info → (w.take link u).Closing s ∧
        (w.take link u).reply.get s ≠ some kXR_wait := by
      intro hinfo'
      obtain ⟨hclosing, hreply⟩ := h.closing s p info hp hinfo' hfin
      refine ⟨hclosing.take hon, ?_⟩
      rw [take_reply hon]
      split
      · rename_i hs
        -- A wait would be a second final frame.
        intro hwait
        have hf := isFinal_of_wait hwait
        rw [hclosing.answered link _ hmem hs.1.symm] at hf
        cases hf
      · exact hreply
    obtain hsame | ⟨info', hinfo', hpart⟩ | ⟨hs, hf, hst⟩ := hstatus
    · exact hold (hsame ▸ hinfo)
    · rw [hinfo] at hinfo'
      obtain rfl := Option.some.inj hinfo'
      rw [hfin] at hpart
      cases hpart
    · subst hs
      have hne : u.replyStatus ≠ some kXR_wait := by simp [hst, kXR_status, kXR_wait]
      refine ⟨(closing_of_final h hon hf (hsound.others hf fun hw => hne hw.1)).1, ?_⟩
      rw [take_reply hon, hst]
      simp [kXR_status, kXR_wait]
  · intro s hs hreply
    rw [take_reply hon] at hreply
    split at hreply
    · rename_i heq
      obtain ⟨rfl, _⟩ := heq
      obtain ⟨hf, hdata⟩ := final_of_redirect hreply
      have hne : u.replyStatus ≠ some kXR_wait := by simp [hreply, kXR_redirect, kXR_wait]
      exact quiet_of_final h hon hf (hsound.others hf fun hw => hne hw.1) hdata
    · exact fun hlive => h.redirected s (hpending hs) hreply (take_live hon hlive)
  · intro s hs hreply
    rw [take_reply hon] at hreply
    rw [take_open]
    split at hreply
    · rename_i heq
      obtain ⟨rfl, _⟩ := heq
      have hf := isFinal_of_wait hreply
      refine ⟨h.final_closed link _ hmem hf, fun other p hp hstream => ?_⟩
      by_contra hp'
      have hpf : p.1.isFinal = true := by simpa using hp'
      obtain rfl := h.final_link other link p (take_subset hon hp) _ hmem hpf hf hstream
      have hord := h.ordered other
      rw [hon] at hord
      rw [take_on hon, if_pos rfl] at hp
      exact hp' ((hord.1 hf).1 p.1 (List.mem_map.mpr ⟨p, hp, rfl⟩) hstream)
    · obtain ⟨hclosed, hnone⟩ := h.waiting s (hpending hs) hreply
      exact ⟨hclosed, fun other p hp => hnone other p (take_subset hon hp)⟩
  · intro e he
    simp only [take, hon, List.mem_append] at he
    obtain hold | hnew := he
    · exact h.handed e hold
    · split at hnew
      · obtain rfl := List.mem_singleton.mp hnew
        exact h.wire_owner link _ hmem
      · cases hnew

end Take

/-! ## The other steps -/

theorem Ledger.giveUp {w : World} (h : w.Ledger) {machine : SessionMachine}
    {unread : Assoc Nat Bytes} {lost : Nat → Prop}
    (hg : MachineState.GivenUp w.machine.core lost machine.core)
    (hlost : ∀ s, lost s → ¬ w.Live s) :
    { w with machine := machine, unread := unread }.Ledger :=
  h.recore (hg.state.trans h.ready) hg.apart
    (fun s hs => (hg.holding s (h.held s hs)).resolve_right fun hl => hlost s hl hs)
    fun s p hp => .inl (hg.records s p hp)

/-- A request goes out on an id that is held, is owed no answer and whose record,
if it has one, is not about to be closed by an earlier answer. -/
theorem Ledger.sends {w : World} (h : w.Ledger) (request sid : Nat) (links : List Nat)
    (hheld : w.machine.core.Holding sid) (hclosed : ¬ w.Open sid)
    (hfinal : ∀ link, ∀ p ∈ w.on link, p.1.stream = sid → p.1.isFinal = false ∧ p.2 = request)
    (hstatus : ∀ p info, w.machine.core.pending.get sid = some p → p.status = some info →
      info.isFinal = false) : (w.sends request sid links).Ledger := by
  have hopen : ∀ s, (w.sends request sid links).Open s ↔ w.Open s ∨ s = sid := by
    intro s
    simp [Open, World.sends, or_and_right, exists_or, eq_comm]
  have hlive : ∀ s, (w.sends request sid links).Live s ↔ w.Live s ∨ s = sid := by
    intro s
    simp only [Live, hopen]
    exact or_right_comm
  have howner : ∀ s, (w.sends request sid links).owner.get s =
      if s = sid then some request else w.owner.get s := fun s => Assoc.get_set _ _ _ _
  have hreply : ∀ s, (w.sends request sid links).reply.get s =
      if s = sid then none else w.reply.get s := fun s => Assoc.get_del _ _ _
  refine ⟨h.ready, h.apart, ?_, ?_, ?_, ?_, ?_, h.final_link, h.ordered, ?_, ?_, ?_, h.handed⟩
  · intro link p hp
    rw [howner]
    split
    · rename_i hs
      rw [(hfinal link p hp hs).2]
    · exact h.wire_owner link p hp
  · intro o ho
    rw [howner]
    obtain hold | hnew := List.mem_append.mp ho
    · rw [if_neg fun e => hclosed ⟨o, hold, e⟩]
      exact h.opened_owner o hold
    · obtain rfl := List.mem_singleton.mp hnew
      simp
  · intro s hs
    obtain hold | rfl := (hlive s).mp hs
    · exact h.held s hold
    · exact hheld
  · have hnew : sid ∉ w.opened.map Owed.sid := by
      intro hmem
      obtain ⟨o, ho, hs⟩ := List.mem_map.mp hmem
      exact hclosed ⟨o, ho, hs⟩
    simp only [World.sends, List.map_append, List.map_cons, List.map_nil]
    exact List.nodup_append.mpr ⟨h.opened_nodup, by simp, fun a ha b hb e => by
      obtain rfl := List.mem_singleton.mp hb
      exact hnew (e ▸ ha)⟩
  · intro link p hp hf ho
    obtain hold | hs := (hopen _).mp ho
    · exact h.final_closed link p hp hf hold
    · rw [(hfinal link p hp hs).1] at hf
      cases hf
  · intro s p info hp hinfo hfin
    by_cases hs : s = sid
    · subst hs
      rw [hstatus p info hp hinfo] at hfin
      cases hfin
    · obtain ⟨hclosing, hwait⟩ := h.closing s p info hp hinfo hfin
      refine ⟨⟨?_, hclosing.answered, hclosing.last⟩, ?_⟩
      · rw [hopen]
        exact fun ho => ho.elim hclosing.closed hs
      · rwa [hreply, if_neg hs]
  · intro s hs hr
    rw [hreply] at hr
    split at hr
    · cases hr
    · rename_i hne
      rw [hlive]
      exact fun hl => hl.elim (h.redirected s hs hr) hne
  · intro s hs hr
    rw [hreply] at hr
    split at hr
    · cases hr
    · rename_i hne
      obtain ⟨hcl, hnone⟩ := h.waiting s hs hr
      refine ⟨?_, hnone⟩
      rw [hopen]
      exact fun ho => ho.elim hcl hne

/-- The books stay in order when the front of what is coming on a link is taken by
someone else or lost, and when the server gives an answer up. -/
theorem Ledger.shrink {w : World} (h : w.Ledger) {wire : Assoc Nat (List (Decoded × Nat))}
    {unread : Assoc Nat Bytes} {opened : List Owed}
    (hwire : ∀ link, (wire.get link).getD [] <:+ w.on link)
    (hopened : ∀ o ∈ opened, ∃ o' ∈ w.opened, o'.sid = o.sid ∧ o'.request = o.request)
    (hnodup : (opened.map Owed.sid).Nodup) :
    { w with wire := wire, unread := unread, opened := opened }.Ledger := by
  have hsub : ∀ link, ∀ p ∈ (wire.get link).getD [], p ∈ w.on link :=
    fun link p hp => (hwire link).subset hp
  have hopen : ∀ s, { w with wire := wire, unread := unread, opened := opened }.Open s →
      w.Open s := by
    rintro s ⟨o, ho, rfl⟩
    obtain ⟨o', ho', hs, _⟩ := hopened o ho
    exact ⟨o', ho', hs⟩
  have hlive : ∀ s, { w with wire := wire, unread := unread, opened := opened }.Live s →
      w.Live s := by
    intro s hs
    obtain ho | ⟨link, p, hp, hs⟩ := hs
    · exact .inl (hopen s ho)
    · exact .inr ⟨link, p, hsub link p hp, hs⟩
  refine ⟨h.ready, h.apart, fun link p hp => h.wire_owner link p (hsub link p hp), ?_,
    fun s hs => h.held s (hlive s hs), hnodup,
    fun link p hp hf ho => h.final_closed link p (hsub link p hp) hf (hopen _ ho),
    fun l l' p hp q hq => h.final_link l l' p (hsub l p hp) q (hsub l' q hq),
    fun link => (h.ordered link).of_suffix ((hwire link).map _), ?_,
    fun s hs hr hl => h.redirected s hs hr (hlive s hl), ?_, h.handed⟩
  · intro o ho
    obtain ⟨o', ho', hs, hr⟩ := hopened o ho
    rw [← hs, ← hr]
    exact h.opened_owner o' ho'
  · intro s p info hp hinfo hfin
    obtain ⟨hclosing, hwait⟩ := h.closing s p info hp hinfo hfin
    obtain ⟨link, hothers, hcount⟩ := hclosing.last
    refine ⟨⟨fun ho => hclosing.closed (hopen s ho),
      fun l q hq => hclosing.answered l q (hsub l q hq), link, ?_, ?_⟩, hwait⟩
    · rintro other ho ⟨q, hq, hs⟩
      exact hothers other ho ⟨q, hsub other q hq, hs⟩
    · exact Nat.le_trans ((hwire link).sublist.countP_le) hcount
  · intro s hs hr
    obtain ⟨hcl, hnone⟩ := h.waiting s hs hr
    exact ⟨fun ho => hcl (hopen s ho), fun l q hq => hnone l q (hsub l q hq)⟩

/-- The server sends a reply to a request it has still to finish. -/
theorem Ledger.answer {w : World} (h : w.Ledger) {link : Nat} {o : Owed} {fr : Frame}
    (hrule : w.Rule (.answer link o fr)) : (w.step (.answer link o fr)).Ledger := by
  obtain ⟨ho, hsid, _⟩ := hrule
  have hopen : w.Open fr.sid := ⟨o, ho, hsid.symm⟩
  -- The answer is open, so no final frame of its stream is on its way.
  have hnofinal : ∀ l, ∀ p ∈ w.on l, p.1.stream = fr.sid → p.1.isFinal = false := by
    intro l p hp hs
    by_contra hf
    exact h.final_closed l p hp (by simpa using hf) (hs ▸ hopen)
  have hpending : ∀ s p info, w.machine.core.pending.get s = some p → p.status = some info →
      info.isFinal = true → s ≠ fr.sid := by
    rintro s p info hp hinfo hfin rfl
    exact (h.closing _ p info hp hinfo hfin).1.closed hopen
  have hon : ∀ l, (w.step (.answer link o fr)).on l =
      if l = link then w.on link ++ fr.units.map fun u => (u, o.request) else w.on l :=
    fun l => on_set w link l _
  have hmem : ∀ l p, p ∈ (w.step (.answer link o fr)).on l →
      p ∈ w.on l ∨ (l = link ∧ p.1 ∈ fr.units ∧ p.1.stream = fr.sid ∧ p.2 = o.request) := by
    intro l p hp
    rw [hon] at hp
    split at hp
    · rename_i hl
      obtain hold | hnew := List.mem_append.mp hp
      · exact .inl (hl ▸ hold)
      · obtain ⟨u, hu, rfl⟩ := List.mem_map.mp hnew
        exact .inr ⟨hl, hu, stream_units hu, rfl⟩
    · exact .inl hp
  have hsub : ∀ o', o' ∈ (w.step (.answer link o fr)).opened → o' ∈ w.opened ∧
      ((Decoded.frame fr.header fr.body).isFinal = true → o'.sid ≠ fr.sid) := by
    intro o' ho'
    simp only [step] at ho'
    split at ho'
    · obtain ⟨hmem', hne⟩ := List.mem_filter.mp ho'
      refine ⟨hmem', fun _ => ?_⟩
      rw [hsid]
      simpa using hne
    · rename_i hf
      exact ⟨ho', fun hf' => absurd hf' hf⟩
  have hopen' : ∀ s, (w.step (.answer link o fr)).Open s → w.Open s ∧
      ((Decoded.frame fr.header fr.body).isFinal = true → s ≠ fr.sid) := by
    rintro s ⟨o', ho', rfl⟩
    obtain ⟨hold, hne⟩ := hsub o' ho'
    exact ⟨⟨o', hold, rfl⟩, hne⟩
  have hlive : ∀ s, (w.step (.answer link o fr)).Live s → w.Live s := by
    intro s hs
    obtain ho' | ⟨l, p, hp, rfl⟩ := hs
    · exact .inl (hopen' s ho').1
    · obtain hold | ⟨_, _, hstream, _⟩ := hmem l p hp
      · exact .inr ⟨l, p, hold, rfl⟩
      · exact .inl (hstream ▸ hopen)
  refine ⟨h.ready, h.apart, ?_, ?_, fun s hs => h.held s (hlive s hs), ?_, ?_, ?_, ?_, ?_, ?_, ?_,
    h.handed⟩
  · intro l p hp
    obtain hold | ⟨_, _, hstream, hreq⟩ := hmem l p hp
    · exact h.wire_owner l p hold
    · rw [hstream, hreq, hsid]
      exact h.opened_owner o ho
  · exact fun o' ho' => h.opened_owner o' (hsub o' ho').1
  · simp only [step]
    split
    · exact h.opened_nodup.sublist (List.filter_sublist.map _)
    · exact h.opened_nodup
  · intro l p hp hf ho'
    obtain ⟨hold', hne⟩ := hopen' _ ho'
    obtain hold | ⟨_, hu, hstream, _⟩ := hmem l p hp
    · exact h.final_closed l p hold hf hold'
    · exact hne (isFinal_units hu hf ▸ hf) hstream
  · intro l l' p hp q hq hf hf' hs
    obtain hold | ⟨hl, _, hstream, _⟩ := hmem l p hp
    · obtain hold' | ⟨_, _, hstream', _⟩ := hmem l' q hq
      · exact h.final_link l l' p hold q hold' hf hf' hs
      · rw [hnofinal l p hold (hs.trans hstream')] at hf
        cases hf
    · obtain hold' | ⟨hl', _⟩ := hmem l' q hq
      · rw [hnofinal l' q hold' (hs.symm.trans hstream)] at hf'
        cases hf'
      · exact hl.trans hl'.symm
  · intro l
    rw [hon]
    split
    · rename_i hl
      rw [List.map_append, List.map_map]
      have hid : fr.units.map (Prod.fst ∘ fun u => (u, o.request)) = fr.units := List.map_id _
      rw [hid]
      refine (h.ordered link).append (ordered_units fr) fun u hu hf v hv hs => ?_
      obtain ⟨p, hp, rfl⟩ := List.mem_map.mp hu
      rw [hnofinal link p hp (hs.symm.trans (stream_units hv))] at hf
      cases hf
    · exact h.ordered l
  · intro s p info hp hinfo hfin
    have hne := hpending s p info hp hinfo hfin
    obtain ⟨hclosing, hwait⟩ := h.closing s p info hp hinfo hfin
    obtain ⟨at', hothers, hcount⟩ := hclosing.last
    have hcoming : ∀ l, ∀ q ∈ (w.step (.answer link o fr)).on l, q.1.stream = s → q ∈ w.on l := by
      intro l q hq hs
      exact (hmem l q hq).resolve_right fun hnew => hne (hs.symm.trans hnew.2.2.1)
    refine ⟨⟨fun ho' => hclosing.closed (hopen' s ho').1,
      fun l q hq hs => hclosing.answered l q (hcoming l q hq hs) hs, at', ?_, ?_⟩, hwait⟩
    · rintro other hother ⟨q, hq, hs⟩
      exact hothers other hother ⟨q, hcoming other q hq hs, hs⟩
    · rw [hon]
      split
      · rename_i hl
        have hzero : (fr.units.map fun u => (u, o.request)).countP (fun p => p.1.stream = s) = 0 := by
          rw [List.countP_eq_zero]
          intro q hq
          obtain ⟨u, hu, rfl⟩ := List.mem_map.mp hq
          simpa [stream_units hu] using hne.symm
        rw [List.countP_append, hzero, ← hl]
        exact hcount
      · exact hcount
  · exact fun s hs hr hl => h.redirected s hs hr (hlive s hl)
  · intro s hs hr
    obtain ⟨hcl, hnone⟩ := h.waiting s hs hr
    refine ⟨fun ho' => hcl (hopen' s ho').1, fun l p hp hstream => ?_⟩
    obtain hold | ⟨_, _, hstream', _⟩ := hmem l p hp
    · exact hnone l p hold hstream
    · exact absurd hopen (hstream'.symm.trans hstream ▸ hcl)

theorem dropLink_on (w : World) (link other : Nat) :
    (w.dropLink link).on other = if other = link then [] else w.on other := by
  simp only [dropLink, on, Assoc.get_del]
  split <;> rfl

theorem dropLink_opened {w : World} {link : Nat} {o : Owed} (h : o ∈ (w.dropLink link).opened) :
    ∃ o' ∈ w.opened, o'.sid = o.sid ∧ o'.request = o.request ∧
      ∃ other ∈ o'.links, other ≠ link := by
  obtain ⟨hmem, hne⟩ := List.mem_filter.mp h
  obtain ⟨o', ho', rfl⟩ := List.mem_map.mp hmem
  refine ⟨o', ho', rfl, rfl, ?_⟩
  obtain ⟨other, hother⟩ := List.exists_mem_of_ne_nil _ (of_decide_eq_true hne)
  obtain ⟨hin, hother⟩ := List.mem_filter.mp hother
  exact ⟨other, hin, by simpa using hother⟩

theorem Ledger.dropLink {w : World} (h : w.Ledger) (link : Nat) : (w.dropLink link).Ledger := by
  refine h.shrink ?_ ?_ ?_
  · intro other
    have hon := dropLink_on w link other
    unfold on at hon
    simp only [World.dropLink] at hon
    rw [hon]
    split
    · exact List.nil_suffix
    · exact List.suffix_refl _
  · intro o ho
    obtain ⟨o', ho', hs, hr, _⟩ := dropLink_opened ho
    exact ⟨o', ho', hs, hr⟩
  · have hsub := (List.filter_sublist (p := fun o : Owed => decide (o.links ≠ []))
      (l := w.opened.map fun o => { o with links := o.links.filter (· ≠ link) })).map Owed.sid
    refine List.Nodup.sublist hsub ?_
    rw [List.map_map]
    exact h.opened_nodup

theorem dropLink_live {w : World} {link s : Nat} (h : (w.dropLink link).Live s) : w.Live s := by
  obtain ⟨o, ho, rfl⟩ | ⟨other, p, hp, hs⟩ := h
  · obtain ⟨o', ho', hs, _⟩ := dropLink_opened ho
    exact .inl ⟨o', ho', hs⟩
  · rw [dropLink_on] at hp
    split at hp
    · cases hp
    · exact .inr ⟨other, p, hp, hs⟩

/-- A stream that had no other link is owed nothing once its path is gone. -/
theorem SoundDrop.quiet {w : World} {pathid : Nat} (h : w.SoundDrop pathid) {s : Nat}
    (hs : s ∈ SessionMachine.streamsOn w.machine.core pathid) :
    ¬ (w.dropLink pathid).Live s := by
  obtain ⟨hopened, hothers⟩ := h s hs
  intro hlive
  obtain ⟨o, ho, rfl⟩ | ⟨other, p, hp, hs⟩ := hlive
  · obtain ⟨o', ho', hs, _, link, hlink, hne⟩ := dropLink_opened ho
    exact hne (hopened o' ho' hs link hlink)
  · rw [dropLink_on] at hp
    split at hp
    · cases hp
    · rename_i hne
      have hc : w.Coming other s := ⟨p, hp, hs⟩
      exact hothers other (on_ne_nil hc) hne hc

theorem forgetPath_givenUp {m : SessionMachine} (h : m.core.Apart) (pathid : Nat) :
    MachineState.GivenUp m.core (fun s => s ∈ SessionMachine.streamsOn m.core pathid)
      (m.forgetPath pathid).core := by
  have hrel := MachineState.releases_givenUp (SessionMachine.streamsOn m.core pathid) m.core h
  exact ⟨hrel.state, hrel.apart, hrel.records, hrel.holding⟩

theorem onPathEof_givenUp {m : SessionMachine} (h : m.core.Apart) (pathid : Nat) :
    MachineState.GivenUp m.core (fun s => s ∈ SessionMachine.streamsOn m.core pathid)
      (m.onPathEof pathid).core := by
  -- The failures are reported first; that leaves the table as it is.
  have hrel := forgetPath_givenUp (m := { m with core := { m.core with
    events := m.core.events ++ (m.core.pending.filter fun p => p.2.pathid = pathid).map
      fun p => .failed (some p.1) (some p.2.request) (.pathClosed pathid) } }) h pathid
  exact ⟨hrel.state, hrel.apart, hrel.records, hrel.holding⟩

end World

end XrdClient.Proto
