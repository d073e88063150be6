/-
  Session/Into.lean --- a read into the caller's buffer.

  Source: `session/bulk.py`, `BulkReader.into`.

  Each request in flight lands in its own slice of the buffer, and what `into` returns
  is how much landed in all.  The first bytes of the buffer are the file's exactly when
  nothing landed beyond a short reply: a reply that was in flight behind a short one is
  counted like any other, though the bytes between the two never came.
-/
import Mathlib
import XrdClient.Session.Served

set_option autoImplicit false

namespace XrdClient.Session

open XrdClient.Lib
open XrdClient.Lib.Act
open XrdClient.Proto

namespace BulkReader

/-! ## The loop -/

/-- The loop of `into`, with its variables. -/
structure Filling (base : BulkReader) (want : Nat) (asked : List (Nat × (Nat × Nat)))
    (done : List Sent) (answered : List (Lib.Answer (Nat × Nat) (Nat × Bytes) UInt8)) (l : Gathering)
    (r : BulkReader) : Prop where
  flying : Flying base (chunks base.settings.chunk want) asked done answered l.inflight r
  settings : r.settings = base.settings
  free_nodup : l.freeSids.Nodup
  free : ∀ s ∈ l.freeSids, s ∉ r.owed
  landed : l.landed = answered.map fun a => (a.request.1, a.data)
  /-- Requests go out chunk by chunk, and none after a short reply. -/
  reach : l.stop = want ∧ l.cursor = min (asked.length * base.settings.chunk) want ∨
    l.stop ≤ l.cursor

/-- How far the loop has come: without a short reply it stops at what was wanted. -/
structure Reaching (base : BulkReader) (want : Nat) (asked : List (Nat × (Nat × Nat)))
    (answered : List (Lib.Answer (Nat × Nat) (Nat × Bytes) UInt8)) (l : Gathering) (r : BulkReader) :
    Prop where
  stop : l.stop = want ∨ ∃ a ∈ answered, a.data.length < a.request.2
  cursor : l.cursor ≤ min (asked.length * base.settings.chunk) want
  ids : ∃ s, s ∈ l.freeSids ∨ s ∈ r.owed

variable {base r : BulkReader} {want : Nat} {asked : List (Nat × (Nat × Nat))}
  {done frames : List Sent} {answered : List (Lib.Answer (Nat × Nat) (Nat × Bytes) UInt8)}

/-- `into`'s inner loop: it ends without a free id, or with nothing left to ask for. -/
theorem askInto_at (start : Nat) : ∀ (fuel : Nat) (l : Gathering) (asked : List (Nat × (Nat × Nat)))
    (r : BulkReader), Filling base want asked done answered l r → Reaching base want asked answered l r →
    l.freeSids.length ≤ fuel →
    Sat (At r frames) (askInto start fuel l) (fun l' s => ∃ asked r,
      Filling base want asked done answered l' r ∧ Reaching base want asked answered l' r ∧
      (l'.freeSids = [] ∨ l'.stop ≤ l'.cursor) ∧ At r frames s) (fun _ => True) := by
  intro fuel
  induction fuel with
  | zero =>
    exact fun l asked r h hreach hfuel => Sat.pure _ fun s hs =>
      ⟨asked, r, h, hreach, .inl (List.eq_nil_of_length_eq_zero (by omega)), hs⟩
  | succ fuel ih =>
    intro l asked r h hreach hfuel
    unfold askInto
    split
    · next hsids => exact Sat.pure _ fun s hs => ⟨asked, r, h, hreach, .inl hsids, hs⟩
    · next sid sids hsids =>
      refine Sat.ite (fun hall => Sat.pure _ fun s hs => ⟨asked, r, h, hreach, .inr hall, hs⟩)
        fun hmore => ?_
      refine Sat.get_bind fun a => Sat.of_each fun s₀ h₀ => ?_
      obtain ⟨rfl, hat⟩ := h₀
      have hsettings : s₀.settings = base.settings := by
        obtain ⟨_, _, _, _, _, _, rfl⟩ := hat.kept
        exact h.settings
      have hchunk := base.settings.chunk_pos
      obtain ⟨hstop, hcursor⟩ := h.reach.resolve_right hmore
      have hlt : asked.length * base.settings.chunk < want := by omega
      rw [Nat.min_eq_left (Nat.le_of_lt hlt)] at hcursor
      obtain ⟨hfresh, hnodup⟩ := List.nodup_cons.mp (hsids ▸ h.free_nodup)
      have hsid : sid ∉ r.owed := h.free sid (by simp [hsids])
      refine Sat.bind (((@issue_at _ frames sid _).conseq (fun s hs => hs ▸ hat)
        (fun _ s hs => hs) fun _ _ => trivial)) fun _ => Sat.of_each fun s₁ h₁ => ?_
      obtain ⟨parts, machine, -, hat₁⟩ := h₁
      refine Sat.pre (ih _ (asked ++ [(sid, l.cursor, min s₀.settings.chunk (l.stop - l.cursor))])
        (r.sent sid parts machine) ?_ ⟨hreach.stop, ?_, ⟨sid, .inr ?_⟩⟩ ?_) fun s hs => hs ▸ hat₁
      · refine ⟨?_, h.settings, hnodup, ?_, h.landed, .inl ⟨hstop, ?_⟩⟩
        · refine h.flying.ask hsid ?_ 0 parts machine
          rw [getElem?_chunks hchunk hlt, hsettings, hcursor, hstop]
        · intro s hs
          have hold : s ∉ r.owed := h.free s (by simp [hsids, hs])
          have hne : s ≠ sid := fun e => hfresh (e ▸ hs)
          show s ∉ if sid ∈ r.owed then r.owed else r.owed ++ [sid]
          rw [if_neg hsid]
          simp [hold, hne]
        · rw [List.length_append, List.length_singleton, Nat.succ_mul]
          dsimp only
          rw [hsettings, hcursor, hstop]
          omega
      · rw [List.length_append, List.length_singleton, Nat.succ_mul]
        dsimp only
        rw [hsettings, hcursor, hstop]
        omega
      · show sid ∈ if sid ∈ r.owed then r.owed else r.owed ++ [sid]
        rw [if_neg hsid]
        simp
      · rw [hsids] at hfuel
        exact Nat.le_of_succ_le_succ hfuel

/-- The loop of `into` returns when every request that went out is answered. -/
theorem intoLoop_at (start : Nat) (all : List Sent) : ∀ (fuel : Nat) (l : Gathering)
    (asked : List (Nat × (Nat × Nat))) (done : List Sent)
    (answered : List (Lib.Answer (Nat × Nat) (Nat × Bytes) UInt8)) (r : BulkReader) (frames : List Sent),
    Filling base want asked done answered l r → Reaching base want asked answered l r →
    all = done ++ frames →
    Sat (At r frames) (intoLoop start fuel l) (fun landed s => ∃ asked done rest answered,
      all = done ++ rest ∧ landed = answered.map (fun a => (a.request.1, a.data)) ∧
      s.issued = base.issued ++ asked.map Prod.fst ∧
      asked.map Prod.snd <+: chunks base.settings.chunk want ∧
      Pipeline.Matched asked (replies done) [] answered ∧ (∀ a ∈ answered, a.verdict.1 = kXR_ok) ∧
      (want ≤ asked.length * base.settings.chunk ∨ ∃ a ∈ answered, a.data.length < a.request.2))
      (fun _ => True) := by
  intro fuel
  induction fuel with
  | zero => exact fun l asked done answered r frames _ _ _ => Sat.throw _ fun _ _ => trivial
  | succ fuel ih =>
    intro l asked done answered r frames h hreach hall
    refine Sat.bind (askInto_at start _ l asked r h hreach (Nat.le_refl _)) fun l₁ =>
      Sat.of_each fun s₁ h₁ => ?_
    obtain ⟨asked, r, h, hreach, hdone, hat⟩ := h₁
    refine Sat.ite (fun hempty => ?_) fun _ => ?_
    · refine Sat.modify_bind (M := fun s => s.issued = r.issued) ?_ (Sat.pure _ fun s hs => ?_)
      · rintro s rfl
        exact hat.kept.recorded.issued
      · have howed : r.owed = [] := by
          refine List.eq_nil_iff_forall_not_mem.mpr fun s hs => ?_
          obtain ⟨entry, hentry, -⟩ := h.flying.data s hs
          rw [hempty] at hentry
          cases hentry
        have hids : l₁.freeSids ≠ [] := by
          obtain ⟨sid, hfree | howes⟩ := hreach.ids
          · exact List.ne_nil_of_mem hfree
          · rw [howed] at howes
            cases howes
        refine ⟨asked, done, frames, answered, hall, h.landed, hs.trans h.flying.issued,
          h.flying.planned, h.flying.landed howed, h.flying.ok, hreach.stop.imp (fun hstop => ?_) id⟩
        have hcursor := hreach.cursor
        have hall := hdone.resolve_left hids
        omega
    refine Sat.bind (((@collect_at _ frames l₁.inflight).conseq (fun s hs => hs ▸ hat)
      (fun _ s hs => hs) fun _ _ => trivial)) fun result => Sat.of_each fun s₂ h₂ => ?_
    obtain ⟨taken, rest, sid, entry, data, rfl, -, howed, hentry, hfits, hresult, hcase⟩ :=
      h.flying.collect h₂
    have hall' : all = (done ++ taken) ++ rest := by rw [hall, List.append_assoc]
    obtain ⟨finished, inflight⟩ := result
    rcases hcase with ⟨hnone, hat', hflying⟩ | ⟨hsome, hat', hflying⟩
    · dsimp only at hnone hflying
      subst hnone
      have hnext : Filling base want asked (done ++ taken) answered { l₁ with inflight := inflight } r :=
        ⟨hflying, h.settings, h.free_nodup, h.free, h.landed, h.reach⟩
      exact Sat.pre (ih _ asked (done ++ taken) answered r rest hnext
        ⟨hreach.stop, hreach.cursor, hreach.ids⟩ hall') fun s hs => hs ▸ hat'
    · dsimp only at hsome hresult hflying
      subst hsome hresult
      dsimp only
      rw [Assoc.get_set_self]
      dsimp only
      have hnotowed : sid ∉ (r.without sid).owed := by simp [without]
      refine Sat.pre (ih _ asked (done ++ taken) _ (r.without sid) rest
        ⟨hflying.del hnotowed, h.settings, ?_, ?_, ?_, ?_⟩ ⟨?_, ?_, ⟨sid, .inl (by simp)⟩⟩ hall')
        fun s hs => hs ▸ hat'
      · exact List.nodup_cons.mpr ⟨fun hs => h.free sid hs howed, h.free_nodup⟩
      · intro s hs
        rcases List.mem_cons.mp hs with rfl | hs
        · exact hnotowed
        · exact fun hin => h.free s hs (List.mem_of_mem_filter hin)
      · rw [List.map_append, h.landed]
        rfl
      · by_cases hshort : (entry.dest ++ data).length < entry.length
        · -- what was asked for ends at the cursor, and a short reply ends before that
          refine .inr ?_
          simp only [hshort, if_true]
          have hle : entry.offset + (entry.dest ++ data).length ≤ l₁.cursor ∨ l₁.stop ≤ l₁.cursor := by
            refine h.reach.imp (fun hreach => ?_) id
            have hmem : entry.asked ∈ asked.map Prod.snd := by
              obtain ⟨_, hmatched, -⟩ := hflying.matched
              refine hmatched.perm.mem_iff.mpr (List.mem_append_left _ ?_)
              simp
            have hend := chunks_prefix_le base.settings.chunk_pos h.flying.planned hmem
            rw [List.length_map, ← hreach.2] at hend
            have hasked : entry.asked = (entry.offset, entry.length) := rfl
            rw [hasked] at hend
            dsimp only at hend
            omega
          omega
        · simp only [hshort, if_false]
          exact h.reach.imp (fun hreach => ⟨hreach.1, by omega⟩) (by omega)
      · -- the answer that has just come may be the short one
        dsimp only
        split
        · next hshort => exact .inr ⟨_, List.mem_append_right _ (List.mem_singleton_self _), hshort⟩
        · exact hreach.stop.imp id fun hold => hold.imp fun a ha => ⟨List.mem_append_left _ ha.1, ha.2⟩
      · exact Nat.le_trans (Nat.min_le_left _ _) hreach.cursor

/-- What `into` returns is what the server gave for the requests of the call. -/
theorem into_answered {r r' : BulkReader} {frames : List Sent} {want start : Nat}
    {landed : List (Nat × Bytes)} (hready : Ready r frames)
    (hrun : into want start r = (.ok landed, r')) :
    ∃ answered sorted stop, landed = answered.map (fun p : Landed UInt8 => (p.1.1, p.2)) ∧
      answered = served (BulkReader.asked (chunks r.settings.chunk want) r r') frames ∧
      answered.Perm sorted ∧ Chain 0 (sorted.map Prod.fst) stop ∧ stop ≤ want ∧
      (stop = want ∨ ∃ p ∈ answered, p.2.length < p.1.2) := by
  have hsat : Sat (fun s => s = r) (into want start) (fun landed s => ∃ asked done rest answered,
      frames = done ++ rest ∧ landed = answered.map (fun a => (a.request.1, a.data)) ∧
      s.issued = r.issued ++ asked.map Prod.fst ∧
      asked.map Prod.snd <+: chunks r.settings.chunk want ∧
      Pipeline.Matched asked (replies done) [] answered ∧ (∀ a ∈ answered, a.verdict.1 = kXR_ok) ∧
      (want ≤ asked.length * r.settings.chunk ∨ ∃ a ∈ answered, a.data.length < a.request.2))
      (fun _ => True) := by
    refine Sat.ite (fun hnone => Sat.pure _ ?_) fun _ => ?_
    · rintro s rfl
      exact ⟨[], [], frames, [], rfl, rfl, by simp, by simp, .nil, by simp, .inl (by simp [hnone])⟩
    refine Sat.bind ((begin_at hready.apart).conseq (fun s hs => hs) (fun _ s hs => hs)
      fun _ _ => trivial) fun sids => Sat.get_bind fun a => Sat.of_each fun b hb => ?_
    obtain ⟨heq, hnodup, hcount, hrec, htorn, hin, howed, hsettings⟩ := hb
    subst heq
    have hfill : Filling b want [] [] [] { freeSids := sids.reverse, stop := want } b := by
      refine ⟨.begun rfl (howed.trans hready.owed), rfl, List.nodup_reverse.mpr hnodup, ?_, rfl,
        .inl ⟨rfl, by simp⟩⟩
      rw [howed, hready.owed]
      simp
    have hreach : Reaching b want [] [] { freeSids := sids.reverse, stop := want } b := by
      have hdepth := r.settings.depth_pos
      obtain ⟨sid, hsid⟩ := List.exists_mem_of_length_pos (by omega : 0 < sids.length)
      exact ⟨.inl rfl, by simp, sid, .inl (List.mem_reverse.mpr hsid)⟩
    have hloop := intoLoop_at start frames (b.incoming.length + 1) _ [] [] [] b frames hfill hreach rfl
    rw [hsettings] at hloop
    refine Sat.tryFinally_value (hloop.pre fun s hs => by
        rw [hs]
        exact .refl htorn (hin.trans hready.incoming))
      (fun landed => Sat.of_each fun s₁ h₁ => ?_) (fun s _ => ?_)
    · obtain ⟨asked, done, rest, answered, h1, h2, h3, h4⟩ := h₁
      refine ((settle_recorded (r := s₁)).conseq (fun s hs => hs ▸ .refl s₁) (fun _ s hs => ?_)
        fun _ _ => trivial)
      exact ⟨asked, done, rest, answered, h1, h2, by rw [hs.issued, h3, hrec.issued], h4⟩
    · rcases settle s with ⟨_ | _, _⟩ <;> trivial
  obtain ⟨sent, done, rest, answered, rfl, hlanded, hissued, hplan, hmatched, hok, hreach⟩ :=
    hsat.ok rfl hrun
  obtain ⟨sorted, hperm, hsorted⟩ := exists_perm_map Answer.request hmatched.complete.symm
  obtain ⟨tail, htail⟩ := hplan
  have hcut : Chain 0 (sent.map Prod.snd ++ tail) want := htail ▸ chain_cut want r.settings.chunk_pos
  obtain ⟨stop, hchain, hbehind⟩ := hcut.split
  refine ⟨answered.map fun a => (a.request, a.data), sorted.map fun a => (a.request, a.data), stop,
    ?_, ?_, hperm.map _, ?_, hbehind.le.1, ?_⟩
  · rw [hlanded, List.map_map]
    rfl
  · have hall : answered.filter (fun a => decide (a.verdict.1 = kXR_ok)) = answered :=
      List.filter_eq_self.mpr fun a ha => by simpa using hok a ha
    rw [asked_eq hissued ⟨tail, htail⟩, served, replies_append, hmatched.answers_append, hall]
  · rw [List.map_map, show (Prod.fst ∘ fun a : Lib.Answer (Nat × Nat) (Nat × Bytes) UInt8 =>
      (a.request, a.data)) = Answer.request from rfl, hsorted]
    exact hchain
  · refine hreach.imp (fun hall => ?_) fun ⟨a, ha, hshort⟩ => ⟨_, List.mem_map_of_mem ha, hshort⟩
    -- every chunk went out, so nothing is behind them
    have hlen := congrArg List.length htail
    have hcount : (want + r.settings.chunk - 1) / r.settings.chunk ≤ sent.length := by
      rw [Nat.div_le_iff_le_mul_add_pred r.settings.chunk_pos, Nat.mul_comm]
      have hchunk := r.settings.chunk_pos
      omega
    rw [List.length_append, List.length_map, chunks, List.length_map, List.length_range] at hlen
    have hnil : tail = [] := List.eq_nil_of_length_eq_zero (by omega)
    rw [hnil] at hbehind
    exact hbehind

/-! ## What is counted -/

/-- The buffer of a call after it: each piece in its own slice. -/
def viewed (view : Bytes) (landed : List (Nat × Bytes)) : Bytes :=
  landed.foldl (fun view p => writeAt 0 view p.1 p.2) view

/-- What `into` returns. -/
def counted (landed : List (Nat × Bytes)) : Nat := (landed.map fun p => p.2.length).sum

/-- Every byte that is counted has landed. -/
def Contiguous (landed : List (Nat × Bytes)) : Prop :=
  ∀ i < counted landed, ∃ p ∈ landed, p.1 ≤ i ∧ i < p.1 + p.2.length

/-- **A read into a buffer returns a prefix exactly when nothing lands beyond a short
reply.**  For every file, every buffer and whatever was in it, every chunk and depth, every
order and fragmentation of the replies and every server that answers a read with a prefix
of its range: the bytes that `into` says are there are those of the file, and each of them
has landed, when no read was answered with data while one in front of it was answered
short, and only then. -/
theorem into_prefix_iff {r r' : BulkReader} {frames : List Sent} {content : Bytes}
    {want start : Nat} {landed : List (Nat × Bytes)} (hready : Ready r frames)
    (hrun : into want start r = (.ok landed, r'))
    (hserver : Truthful content start
      (served (BulkReader.asked (chunks r.settings.chunk want) r r') frames)) :
    ((∀ view : Bytes, view.length = want →
        (viewed view landed).take (counted landed) = slice content start (counted landed)) ↔
      NoneBeyond (served (BulkReader.asked (chunks r.settings.chunk want) r r') frames)) ∧
    (Contiguous landed ↔
      NoneBeyond (served (BulkReader.asked (chunks r.settings.chunk want) r r') frames)) := by
  obtain ⟨pieces, sorted, stop, rfl, hpieces, hperm, hchain, hstop, -⟩ := into_answered hready hrun
  rw [← hpieces] at hserver ⊢
  have hcount : counted (pieces.map fun p => (p.1.1, p.2)) = landedTotal pieces := by
    rw [counted, List.map_map]
    rfl
  have hview : ∀ view : Bytes, viewed view (pieces.map fun p => (p.1.1, p.2)) =
      filled 0 view pieces := fun view => List.foldl_map
  have hcovered : Contiguous (pieces.map fun p => (p.1.1, p.2)) ↔
      ∀ i < landedTotal pieces, Covered pieces i := by
    unfold Contiguous
    rw [hcount]
    refine forall₂_congr fun i _ => ⟨?_, ?_⟩
    · rintro ⟨_, hp, hin⟩
      obtain ⟨q, hq, rfl⟩ := List.mem_map.mp hp
      exact ⟨q, hq, hin⟩
    · rintro ⟨q, hq, hin⟩
      exact ⟨_, List.mem_map_of_mem hq, hin⟩
  have hfits : ∀ p ∈ pieces, p.1.1 + p.1.2 ≤ want := fun p hp =>
    Nat.le_trans (hchain.ends _ (List.mem_map_of_mem (hperm.mem_iff.mp hp))) hstop
  have htotal : landedTotal pieces ≤ want := by
    have hle := hchain.total_le fun p hp => hserver.fits (hperm.mem_iff.mpr hp)
    rw [← landedTotal_perm hperm] at hle
    omega
  have hiff := covered_iff hperm hchain fun p hp => hserver.fits hp
  have : Nontrivial UInt8 := ⟨0, 1, by decide⟩
  constructor
  · rw [hcount, ← hiff, ← filled_take_iff 0 hserver hfits htotal]
    simp only [hview]
  · rw [hcovered, hiff]

/-- A server that answers each read with all that the file has of its range fills the buffer
with what the file has there. -/
theorem into_exact {r r' : BulkReader} {frames : List Sent} {content view : Bytes} {start : Nat}
    {landed : List (Nat × Bytes)} (hready : Ready r frames)
    (hrun : into view.length start r = (.ok landed, r'))
    (hserver : Exact (content.drop start)
      (served (BulkReader.asked (chunks r.settings.chunk view.length) r r') frames)) :
    counted landed = (slice content start view.length).length ∧
      (viewed view landed).take (counted landed) = slice content start view.length := by
  obtain ⟨pieces, sorted, stop, rfl, hpieces, hperm, hchain, hstop, hend⟩ := into_answered hready hrun
  rw [← hpieces] at hserver
  have hcount : counted (pieces.map fun p => (p.1.1, p.2)) = landedTotal pieces := by
    rw [counted, List.map_map]
    rfl
  have hview : viewed view (pieces.map fun p => (p.1.1, p.2)) = filled 0 view pieces :=
    List.foldl_map
  obtain ⟨htotal, hfilled⟩ := hserver.filled 0 hperm hchain hstop hend
  rw [hcount, hview]
  exact ⟨by rw [htotal, length_slice, List.length_drop], hfilled⟩

/-! ## Two reads in flight -/

/-- The first of two reads, answered with two bytes of its four. -/
def shortFirst : Sent := .plain 5 kXR_ok [1, 2] fullFirst.sid_lt fullFirst.status_lt (by decide) (by decide)

/-- Two reads, the first one answered short. -/
def shortened : BulkReader := fresh [shortFirst, fullSecond]

theorem into_prefix_iff_swapped :
    (∀ view : Bytes, view.length = 8 →
      (viewed view [(4, [5, 6, 7, 8]), (0, [1, 2, 3, 4])]).take 8 = slice eightBytes 0 8) ∧
    Contiguous [(4, [5, 6, 7, 8]), (0, [1, 2, 3, 4])] := by
  have hvalue : (into 8 0 swapped).1 = .ok [(4, [5, 6, 7, 8]), (0, [1, 2, 3, 4])] := by
    decide +kernel
  have hserver : Truthful eightBytes 0 (served
      (BulkReader.asked (chunks swapped.settings.chunk 8) swapped (into 8 0 swapped).2)
      [fullSecond, fullFirst]) := by decide +kernel
  have hnone : NoneBeyond (served
      (BulkReader.asked (chunks swapped.settings.chunk 8) swapped (into 8 0 swapped).2)
      [fullSecond, fullFirst]) := by decide +kernel
  have hiff := into_prefix_iff (fresh_ready _) (eq_of_value hvalue) hserver
  exact ⟨hiff.1.mpr hnone, hiff.2.mpr hnone⟩

/-- Six bytes are counted, and two of them never came. -/
theorem counted_beyond_a_gap : ¬ ∀ (r r' : BulkReader) (frames : List Sent) (content : Bytes)
    (want start : Nat) (landed : List (Nat × Bytes)), Ready r frames →
    into want start r = (.ok landed, r') →
    Truthful content start
      (served (BulkReader.asked (chunks r.settings.chunk want) r r') frames) →
    ∀ view : Bytes, view.length = want →
      (viewed view landed).take (counted landed) = slice content start (counted landed) := by
  intro hall
  have hvalue : (into 8 0 shortened).1 = .ok [(0, [1, 2]), (4, [5, 6, 7, 8])] := by decide +kernel
  have hserver : Truthful eightBytes 0 (served
      (BulkReader.asked (chunks shortened.settings.chunk 8) shortened (into 8 0 shortened).2)
      [shortFirst, fullSecond]) := by decide +kernel
  have hsame := hall _ _ _ eightBytes 8 0 _ (fresh_ready _) (eq_of_value hvalue) hserver
    (List.replicate 8 0) rfl
  exact absurd hsame (by decide)

end BulkReader

end XrdClient.Session
