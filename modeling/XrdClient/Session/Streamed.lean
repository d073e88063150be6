/-
  Session/Streamed.lean --- a read in the file's order.

  Source: `session/bulk.py`, `BulkReader.stream`, `_await_in_turn`.

  THE PIECES.  Reads go out chunk by chunk and are handed over in the order in which they
  went out, whatever the order of the answers.  With a server that gives each read what the
  file has of its range, the pieces follow one another from the start, and at the end of the
  call they are the file's bytes, up to its end or to the end of what was asked for.

  THE BUFFERS.  Four containers are recycled at different moments: the free ids, the free
  slots, the reads in flight and those that are done and wait for their turn.  The same call
  with a log (`streamLogged`) says when a slot is asked for, when something lands in it, when
  it is free again and from when to when its piece is the consumer's.  A watch over that log
  objects to an id that is used while an answer is owed on it, and to a slot that is asked for
  or filled by anyone but the read that has it.  The watch never objects.
-/
import XrdClient.Lib.Logged
import XrdClient.Session.Calm

set_option autoImplicit false

namespace XrdClient.Session

open XrdClient.Lib
open XrdClient.Lib.Act
open XrdClient.Proto

namespace BulkReader

/-! ## The call with a log -/

/-- What `stream` does to ids and scratch buffers. -/
inductive StreamEvent where
  /-- A read goes out on `sid`, to land in `slot`. -/
  | asked (sid slot : Nat)
  /-- Bytes of the answer on `sid` land in `slot`. -/
  | landed (sid slot : Nat)
  /-- The last of the answer on `sid` is in. -/
  | answered (sid : Nat)
  /-- `free_slots.append(entry.slot)`. -/
  | freed (slot : Nat)
  /-- `yield`: the piece in `slot` is the consumer's. -/
  | handed (slot : Nat)
  /-- The consumer asks for the next piece. -/
  | resumed
  deriving DecidableEq

abbrev Logged : Type → Type := Act (BulkReader × List StreamEvent) BulkError

/-- Bytes that came for an entry, in its slot. -/
def landings (before after : Assoc Nat InFlight) : List StreamEvent :=
  (after.filter (· ∉ before)).map fun p => .landed p.1 p.2.slot

/-- An answer that is over. -/
def overs : Option Nat → List StreamEvent
  | none => []
  | some sid => [.answered sid]

/-- `_collect`. -/
def collectLogged (inflight : Assoc Nat InFlight) : Logged (Option Nat × Assoc Nat InFlight) := do
  let result ← lift (collect inflight)
  emit (landings inflight result.2 ++ overs result.1)
  pure result

/-- `stream`'s inner loop. -/
def askLogged : Nat → Streaming → Logged Streaming
  | 0, l => pure l
  | fuel + 1, l =>
      match l.freeSlots with
      | [] => pure l
      | slot :: slots =>
          if l.stop ≤ l.offset then pure l
          else
            match l.freeSids with
            | [] => Act.throw .missing
            | sid :: sids => do
                let r ← lift Act.get
                let want := min r.settings.chunk (l.stop - l.offset)
                lift (issue sid (readRequest r.settings.handle l.offset want))
                emit [.asked sid slot]
                askLogged fuel { l with
                  freeSids := sids, freeSlots := slots
                  inflight := l.inflight.set sid ⟨l.offset, want, slot, []⟩
                  issued := l.issued ++ [sid], offset := l.offset + want }

/-- `_await_in_turn`'s loop. -/
def awaitLoopLogged (sid : Nat) : Nat → Streaming → Logged Streaming
  | 0, _ => Act.throw (.closed HEADER)
  | fuel + 1, l =>
      if sid ∈ l.done then pure l
      else do
        match ← collectLogged l.inflight with
        | (none, inflight) => awaitLoopLogged sid fuel { l with inflight := inflight }
        | (some finished, inflight) =>
            awaitLoopLogged sid fuel { l with inflight := inflight, done := finished :: l.done }

/-- `_await_in_turn`. -/
def awaitInTurnLogged (sid : Nat) (l : Streaming) : Logged (InFlight × Streaming) := do
  let r ← lift Act.get
  let l ← awaitLoopLogged sid (r.incoming.length + 1) l
  match l.inflight.get sid with
  | none => Act.throw .missing
  | some entry =>
      pure (entry, { l with
        inflight := l.inflight.del sid, done := l.done.filter (· ≠ sid) })

/-- `yield entry.offset, entry.dest[: entry.got]`. -/
def handLogged (entry : InFlight) : Logged Unit :=
  if entry.dest = [] then pure ()
  else do
    emit [.handed entry.slot]
    lift (Act.modify fun r => { r with
      delivered := r.delivered + entry.dest.length
      yielded := r.yielded ++ [(entry.offset, entry.dest)] })
    lift callOut
    emit [.resumed]

/-- The loop of `stream`. -/
def streamLoopLogged : Nat → Streaming → Logged Unit
  | 0, _ => Act.throw (.closed HEADER)
  | fuel + 1, l => do
      let l ← askLogged l.freeSlots.length l
      match l.issued with
      | [] => pure ()
      | sid :: issued => do
          let (entry, l) ← awaitInTurnLogged sid { l with issued := issued }
          let l := { l with freeSids := sid :: l.freeSids, freeSlots := entry.slot :: l.freeSlots }
          emit [.freed entry.slot]
          handLogged entry
          let stop := if entry.dest.length < entry.length then
            min l.stop (entry.offset + entry.dest.length) else l.stop
          streamLoopLogged fuel { l with stop := stop, offset := min l.offset stop }

/-- `stream`. -/
def streamLogged (start length : Nat) : Logged Unit :=
  if length = 0 then pure ()
  else do
    let sids ← lift begin
    let r ← lift Act.get
    Act.tryFinally
      (streamLoopLogged (r.incoming.length + 1)
        { freeSids := sids.reverse, freeSlots := (List.range r.settings.depth).reverse
          offset := start, stop := start + length })
      (lift settle)

/-! The log is beside the call. -/

theorem askLogged_erases : ∀ fuel l, Erases (askLogged fuel l) (ask fuel l) := by
  intro fuel
  induction fuel with
  | zero => exact fun l => .pure l
  | succ fuel ih =>
    intro l
    unfold askLogged ask
    cases l.freeSlots with
    | nil => exact .pure l
    | cons slot slots =>
      refine .ite (.pure l) ?_
      cases l.freeSids with
      | nil => exact .throw _
      | cons sid sids =>
        exact .bind (.lift _) fun r => .bind (.lift _) fun _ => .emit_bind (ih _)

theorem collectLogged_erases (inflight : Assoc Nat InFlight) :
    Erases (collectLogged inflight) (collect inflight) := by
  rw [← bind_pure_self (collect inflight)]
  exact .bind (.lift _) fun result => .emit_bind (.pure result)

theorem awaitLoopLogged_erases (sid : Nat) :
    ∀ fuel l, Erases (awaitLoopLogged sid fuel l) (awaitLoop sid fuel l) := by
  intro fuel
  induction fuel with
  | zero => exact fun l => .throw _
  | succ fuel ih =>
    intro l
    refine .ite (.pure l) (.bind (collectLogged_erases _) fun result => ?_)
    obtain ⟨_ | finished, inflight⟩ := result
    · exact ih _
    · exact ih _

theorem awaitInTurnLogged_erases (sid : Nat) (l : Streaming) :
    Erases (awaitInTurnLogged sid l) (awaitInTurn sid l) := by
  refine .bind (.lift _) fun r => .bind (awaitLoopLogged_erases sid _ _) fun l => ?_
  cases l.inflight.get sid with
  | none => exact .throw _
  | some entry => exact .pure _

theorem handLogged_erases (entry : InFlight) : Erases (handLogged entry) (hand entry) := by
  unfold hand
  rw [← bind_pure_self callOut]
  refine .ite (.pure ()) (.emit_bind (.bind (.lift _) fun _ => .bind (.lift _) fun _ => ?_))
  exact fun r log => rfl

theorem streamLoopLogged_erases : ∀ fuel l, Erases (streamLoopLogged fuel l) (streamLoop fuel l) := by
  intro fuel
  induction fuel with
  | zero => exact fun l => .throw _
  | succ fuel ih =>
    intro l
    refine .bind (askLogged_erases _ l) fun l => ?_
    cases l.issued with
    | nil => exact .pure ()
    | cons sid issued =>
      refine .bind (awaitInTurnLogged_erases sid _) fun result => ?_
      exact .emit_bind (.bind (handLogged_erases _) fun _ => ih _)

/-- `streamLogged` is `stream`. -/
theorem streamLogged_erases (start length : Nat) :
    Erases (streamLogged start length) (stream start length) := by
  refine .ite (.pure ()) (.bind (.lift _) fun sids => .bind (.lift _) fun r => ?_)
  exact .tryFinally (streamLoopLogged_erases _ _) settle

/-! ## The watch -/

/-- What the log has said so far: the ids owed an answer, the id each slot is held for, and the
slot of the piece that the consumer has. -/
structure Watch where
  owed : List Nat := []
  holders : Assoc Nat Nat := []
  current : Option Nat := none
  deriving DecidableEq

/-- One event; nothing if the watch objects to it. -/
def Watch.see (w : Watch) : StreamEvent → Option Watch
  | .asked sid slot =>
      if sid ∉ w.owed ∧ w.holders.get slot = none ∧ w.current ≠ some slot then
        some { w with owed := sid :: w.owed, holders := w.holders.set slot sid }
      else none
  | .landed sid slot =>
      if sid ∈ w.owed ∧ w.holders.get slot = some sid ∧ w.current ≠ some slot then some w else none
  | .answered sid => some { w with owed := w.owed.filter (· ≠ sid) }
  | .freed slot => some { w with holders := w.holders.del slot }
  | .handed slot => some { w with current := some slot }
  | .resumed => some { w with current := none }

/-- Some events. -/
def Watch.sees (w : Watch) (events : List StreamEvent) : Option Watch :=
  events.foldl (fun w e => w.bind (·.see e)) (some w)

/-- No id is used while an answer is owed on it, and no slot is asked for or filled but by the
read that has it, nor while its piece is the consumer's. -/
def Disciplined (log : List StreamEvent) : Prop := (({} : Watch).sees log).isSome

theorem Watch.sees_append (w : Watch) (first second : List StreamEvent) :
    w.sees (first ++ second) = (w.sees first).bind (·.sees second) := by
  unfold Watch.sees
  rw [List.foldl_append]
  cases List.foldl (fun w e => w.bind (·.see e)) (some w) first with
  | some w => rfl
  | none =>
    induction second with
    | nil => rfl
    | cons e second ih => exact ih

/-- A reader in `P`, and a log after which the watch is `w`. -/
def Seen (P : BulkReader → Prop) (w : Watch) (b : BulkReader × List StreamEvent) : Prop :=
  P b.1 ∧ ({} : Watch).sees b.2 = some w

theorem lift_seen {α : Type} {P : BulkReader → Prop} {x : Bulk α} {Q : α → BulkReader → Prop}
    {E : BulkReader → Prop} (h : Sat P x Q E) (w : Watch) :
    Sat (Seen P w) (lift x) (fun a => Seen (Q a) w) (Seen E w) := by
  rintro ⟨r, log⟩ ⟨hr, hlog⟩
  have := h r hr
  unfold lift
  rcases hx : x r with ⟨_ | a, r'⟩ <;> rw [hx] at this <;> exact ⟨this, hlog⟩

theorem get_seen {P : BulkReader → Prop} {E : BulkReader × List StreamEvent → Prop} (w : Watch) :
    Sat (Seen P w) (lift Act.get : Logged BulkReader) (fun a => Seen (fun s => s = a ∧ P s) w) E :=
  fun _ hb => ⟨⟨rfl, hb.1⟩, hb.2⟩

theorem emit_seen {P : BulkReader → Prop} {E : BulkReader × List StreamEvent → Prop} {w w' : Watch}
    {events : List StreamEvent} (h : w.sees events = some w') :
    Sat (Seen P w) (emit events : Logged Unit) (fun _ => Seen P w') E := by
  rintro ⟨r, log⟩ ⟨hr, hlog⟩
  refine ⟨hr, ?_⟩
  rw [Watch.sees_append, hlog]
  exact h

/-! ## The loop -/

/-- The reads of a stream: chunk by chunk, from `start`. -/
def spans (chunk start length : Nat) : List (Nat × Nat) :=
  (chunks chunk length).map fun c => (start + c.1, c.2)

theorem getElem?_spans {chunk start length i : Nat} (hchunk : 0 < chunk) (h : i * chunk < length) :
    (spans chunk start length)[i]? =
      some (start + i * chunk, min chunk (length - i * chunk)) := by
  rw [spans, List.getElem?_map, getElem?_chunks hchunk h, Option.map_some]

/-- The reads so far end where the next one starts. -/
theorem spans_prefix_le {chunk start length : Nat} (hchunk : 0 < chunk) {first : List (Nat × Nat)}
    (h : first <+: spans chunk start length) {x : Nat × Nat} (hx : x ∈ first) :
    x.1 + x.2 ≤ start + min (first.length * chunk) length := by
  have htake := List.prefix_iff_eq_take.mp h
  have hlen : ((chunks chunk length).take first.length).length = first.length := by
    have := h.length_le
    rw [spans, List.length_map] at this
    rw [List.length_take]
    omega
  rw [htake, spans, ← List.map_take] at hx
  obtain ⟨c, hc, rfl⟩ := List.mem_map.mp hx
  have hle := chunks_prefix_le hchunk (List.take_prefix first.length _) hc
  rw [hlen] at hle
  dsimp only
  omega

/-- An empty piece is not handed over. -/
theorem nonEmpty_snoc (handed : List (Landed UInt8)) (p : Landed UInt8) :
    nonEmpty (handed ++ [p]) = nonEmpty handed ++ if p.2 = [] then [] else [(p.1.1, p.2)] := by
  unfold nonEmpty
  rw [List.filter_append, List.map_append]
  by_cases h : p.2 = [] <;> simp [h]

/-- The loop of `stream`, with its variables: `handed` are the pieces whose turn has come, and
`queue` the ids of the reads whose turn is still to come, in order. -/
structure Turning (base : BulkReader) (start length : Nat) (asked : List (Nat × (Nat × Nat)))
    (done : List Sent) (answered : List (Lib.Answer (Nat × Nat) (Nat × Bytes) UInt8))
    (handed : List (Landed UInt8)) (queue : List Nat) (l : Streaming) (r : BulkReader) (w : Watch) :
    Prop where
  flying : Flying base (spans base.settings.chunk start length) asked done answered l.inflight r
  settings : r.settings = base.settings
  free_nodup : l.freeSids.Nodup
  free : ∀ s ∈ l.freeSids, s ∉ r.owed ∧ s ∉ queue
  queue_nodup : queue.Nodup
  queued : ∃ old cur, asked = old ++ cur ∧ cur.map Prod.fst = queue ∧
    old.map Prod.snd = handed.map Prod.fst ∧
    ∀ q ∈ cur, ∃ entry, l.inflight.get q.1 = some entry ∧ entry.asked = q.2
  owed : ∀ s ∈ r.owed, s ∈ queue ∧ s ∉ l.done
  whole : ∀ s ∈ l.done, s ∈ queue ∧ ∀ entry, l.inflight.get s = some entry →
    (entry.asked, entry.dest) ∈ answered.map fun a => (a.request, a.data)
  fits : ∀ s entry, l.inflight.get s = some entry → entry.dest.length ≤ entry.length
  given : ∀ p ∈ handed, p ∈ answered.map fun a => (a.request, a.data)
  yielded : r.yielded = base.yielded ++ nonEmpty handed
  /-- Reads go out one behind the other, and none after a short piece. -/
  reach : l.stop = start + length ∧
      l.offset = start + min (asked.length * base.settings.chunk) length ∨
    l.stop ≤ l.offset ∧ ∃ p ∈ handed, p.2.length < p.1.2
  watched : ∀ s, s ∈ w.owed ↔ s ∈ r.owed
  current : w.current = none
  held : ∀ s entry, l.inflight.get s = some entry → w.holders.get entry.slot = some s
  slots : ∀ slot ∈ l.freeSlots, w.holders.get slot = none
  slots_nodup : l.freeSlots.Nodup
  count : l.freeSlots.length + queue.length = base.settings.depth
  /-- A read whose turn is to come is owed its answer, or has it. -/
  due : ∀ s ∈ queue, s ∈ r.owed ∨ s ∈ l.done
  paired : l.freeSids.length = l.freeSlots.length
  own : ∀ s, s ∈ l.freeSids ∨ s ∈ queue → s ∈ r.leased

section

variable {base r : BulkReader} {start length : Nat} {asked : List (Nat × (Nat × Nat))}
  {done frames : List Sent} {answered : List (Lib.Answer (Nat × Nat) (Nat × Bytes) UInt8)}
  {handed : List (Landed UInt8)} {queue : List Nat} {l : Streaming} {w : Watch} {calm : Prop}

/-- A read goes out, on an id that nothing is owed on, into a slot that nobody has. -/
theorem Turning.ask (h : Turning base start length asked done answered handed queue l r w)
    {slot sid want : Nat} {slots sids : List Nat} (hslots : l.freeSlots = slot :: slots)
    (hsids : l.freeSids = sid :: sids) (hmore : ¬ l.stop ≤ l.offset)
    (hwant : want = min base.settings.chunk (l.stop - l.offset)) (parts : List Bytes)
    (machine : MachineState) :
    ∃ w', w.sees [.asked sid slot] = some w' ∧
      Turning base start length (asked ++ [(sid, l.offset, want)]) done answered handed
        (queue ++ [sid])
        { l with
          freeSids := sids, freeSlots := slots
          inflight := l.inflight.set sid ⟨l.offset, want, slot, []⟩
          issued := l.issued ++ [sid], offset := l.offset + want }
        (r.sent sid parts machine) w' := by
  obtain ⟨howed, hqueue⟩ := h.free sid (by simp [hsids])
  obtain ⟨hfresh, hnodup⟩ := List.nodup_cons.mp (hsids ▸ h.free_nodup)
  obtain ⟨hslot, hslots_nodup⟩ := List.nodup_cons.mp (hslots ▸ h.slots_nodup)
  have hfreeslot : w.holders.get slot = none := h.slots slot (by simp [hslots])
  have hnotdone : sid ∉ l.done := fun hs => hqueue (h.whole sid hs).1
  have hsent : (r.sent sid parts machine).owed = r.owed ++ [sid] := if_neg howed
  have hchunk := base.settings.chunk_pos
  obtain ⟨hstop, hoffset⟩ := h.reach.resolve_right fun hr => hmore hr.1
  have hlt : asked.length * base.settings.chunk < length := by omega
  rw [Nat.min_eq_left (Nat.le_of_lt hlt)] at hoffset
  refine ⟨{ w with owed := sid :: w.owed, holders := w.holders.set slot sid }, ?_, ?_⟩
  · have hok : sid ∉ w.owed ∧ w.holders.get slot = none ∧ w.current ≠ some slot :=
      ⟨fun hs => howed ((h.watched sid).mp hs), hfreeslot, by simp [h.current]⟩
    show (some w).bind (·.see (.asked sid slot)) = _
    rw [Option.bind_some, Watch.see, if_pos hok]
  obtain ⟨old, cur, rfl, hcur, hold, hentries⟩ := h.queued
  have hne : ∀ q ∈ cur, q.1 ≠ sid := fun q hq e => hqueue (hcur ▸ e ▸ List.mem_map_of_mem hq)
  refine ⟨h.flying.ask howed ?_ slot parts machine, h.settings, hnodup, ?_, ?_,
    ⟨old, cur ++ [(sid, l.offset, want)], by simp, by simp [hcur], hold, ?_⟩, ?_, ?_, ?_, h.given,
    h.yielded, .inl ⟨hstop, ?_⟩, ?_, h.current, ?_, ?_, hslots_nodup, ?_, ?_, ?_, ?_⟩
  · rw [getElem?_spans hchunk hlt, hoffset, hwant, hstop]
    congr 2
    omega
  · intro s hs
    obtain ⟨h1, h2⟩ := h.free s (by simp [hsids, hs])
    have hsid : s ≠ sid := fun e => hfresh (e ▸ hs)
    exact ⟨by simp [hsent, h1, hsid], by simp [h2, hsid]⟩
  · exact List.nodup_append.mpr ⟨h.queue_nodup, by simp, fun s hs t ht e => by
      rw [List.mem_singleton] at ht
      exact hqueue (ht ▸ e ▸ hs)⟩
  · intro q hq
    rcases List.mem_append.mp hq with hq | hq
    · obtain ⟨entry, hentry, hask⟩ := hentries q hq
      exact ⟨entry, by rw [Assoc.get_set_of_ne _ _ (hne q hq)]; exact hentry, hask⟩
    · rw [List.mem_singleton] at hq
      subst hq
      exact ⟨_, Assoc.get_set_self _ _ _, rfl⟩
  · intro s hs
    rw [hsent, List.mem_append, List.mem_singleton] at hs
    rcases hs with hs | rfl
    · exact ⟨List.mem_append_left _ (h.owed s hs).1, (h.owed s hs).2⟩
    · exact ⟨by simp, hnotdone⟩
  · intro s hs
    refine ⟨List.mem_append_left _ (h.whole s hs).1, fun entry hentry => ?_⟩
    have hsid : s ≠ sid := fun e => hnotdone (e ▸ hs)
    rw [Assoc.get_set_of_ne _ _ hsid] at hentry
    exact (h.whole s hs).2 entry hentry
  · intro s entry hentry
    rw [Assoc.get_set] at hentry
    split at hentry
    · obtain rfl := Option.some.inj hentry
      exact Nat.zero_le _
    · exact h.fits s entry hentry
  · rw [List.length_append, List.length_singleton, Nat.succ_mul]
    dsimp only
    rw [hwant, hoffset, hstop]
    omega
  · intro s
    rw [hsent, List.mem_cons, List.mem_append, List.mem_singleton, h.watched s]
    exact or_comm
  · intro s entry hentry
    rw [Assoc.get_set] at hentry
    split at hentry
    · next hs =>
      obtain rfl := Option.some.inj hentry
      rw [hs]
      exact Assoc.get_set_self _ _ _
    · have hkeeps := h.held s entry hentry
      have hother : entry.slot ≠ slot := by
        rintro e
        rw [e, hfreeslot] at hkeeps
        cases hkeeps
      dsimp only
      rw [Assoc.get_set_of_ne _ _ hother]
      exact hkeeps
  · intro slot' hs
    have hother : slot' ≠ slot := fun e => hslot (e ▸ hs)
    dsimp only
    rw [Assoc.get_set_of_ne _ _ hother]
    exact h.slots slot' (by simp [hslots, hs])
  · have hcount := h.count
    rw [hslots, List.length_cons] at hcount
    rw [List.length_append, List.length_singleton]
    dsimp only
    omega
  · intro s hs
    rw [hsent, List.mem_append, List.mem_singleton]
    rcases List.mem_append.mp hs with hs | hs
    · exact (h.due s hs).imp .inl id
    · exact .inl (.inr (List.mem_singleton.mp hs))
  · have hpaired := h.paired
    rw [hsids, hslots] at hpaired
    exact Nat.succ.inj hpaired
  · intro s hs
    refine h.own s ?_
    rw [hsids, List.mem_cons]
    rw [List.mem_append, List.mem_singleton] at hs
    rcases hs with hs | hs | hs
    · exact .inl (.inr hs)
    · exact .inr hs
    · exact .inl (.inl hs)

/-- The landings of one part are in the slot of its own read. -/
theorem landings_seen {inflight : Assoc Nat InFlight} {sid : Nat} {entry : InFlight}
    (howed : sid ∈ w.owed) (hheld : w.holders.get entry.slot = some sid) (hcurrent : w.current = none) :
    w.sees (landings inflight (inflight.set sid entry)) = some w := by
  have hall : ∀ p ∈ (inflight.set sid entry).filter (· ∉ inflight), p = (sid, entry) := by
    intro p hp
    obtain ⟨hin, hnew⟩ := List.mem_filter.mp hp
    exact (Assoc.mem_of_mem_set hin).resolve_right (by simpa using hnew)
  unfold landings Watch.sees
  revert hall
  generalize (inflight.set sid entry).filter (· ∉ inflight) = changed
  intro hall
  induction changed with
  | nil => rfl
  | cons p changed ih =>
    have hok : sid ∈ w.owed ∧ w.holders.get entry.slot = some sid ∧ w.current ≠ some entry.slot :=
      ⟨howed, hheld, by simp [hcurrent]⟩
    rw [List.map_cons, List.foldl_cons, hall p (List.mem_cons_self ..), Option.bind_some, Watch.see,
      if_pos hok]
    exact ih fun q hq => hall q (List.mem_cons_of_mem _ hq)

/-- A part of an answer is taken. -/
theorem Turning.collect (h : Turning base start length asked done answered handed queue l r w)
    {s : BulkReader} {result : Option Nat × Assoc Nat InFlight}
    (hc : Collected r frames l.inflight result s) :
    ∃ taken rest w', frames = taken ++ rest ∧ taken ≠ [] ∧
      w.sees (landings l.inflight result.2 ++ overs result.1) = some w' ∧
      (result.1 = none ∧ At r rest s ∧ Turning base start length asked (done ++ taken) answered
          handed queue { l with inflight := result.2 } r w' ∨
        ∃ finished answered', result.1 = some finished ∧ At (r.without finished) rest s ∧
          Turning base start length asked (done ++ taken) answered' handed queue
            { l with inflight := result.2, done := finished :: l.done } (r.without finished) w') := by
  obtain ⟨taken, rest, sid, entry, data, rfl, htaken, howed, hentry, hfits, hresult, hcase⟩ :=
    h.flying.collect hc
  obtain ⟨hqueue, hnotdone⟩ := h.owed sid howed
  have hheld := h.held sid entry hentry
  have hlanded : w.sees (landings l.inflight result.2) = some w := by
    rw [hresult]
    exact landings_seen ((h.watched sid).mpr howed) hheld h.current
  -- the entry has grown, and nothing else of the table has changed
  have hget : ∀ i e, result.2.get i = some e →
      (i = sid ∧ e = { entry with dest := entry.dest ++ data }) ∨ i ≠ sid ∧ l.inflight.get i = some e := by
    intro i e he
    rw [hresult, Assoc.get_set] at he
    split at he
    · next hi => exact .inl ⟨hi, (Option.some.inj he).symm⟩
    · next hi => exact .inr ⟨hi, he⟩
  obtain ⟨old, cur, hasked, hcur, hold, hentries⟩ := h.queued
  have hqueued : ∃ old cur, asked = old ++ cur ∧ cur.map Prod.fst = queue ∧
      old.map Prod.snd = handed.map Prod.fst ∧
      ∀ q ∈ cur, ∃ entry, result.2.get q.1 = some entry ∧ entry.asked = q.2 := by
    refine ⟨old, cur, hasked, hcur, hold, fun q hq => ?_⟩
    obtain ⟨e, he, hask⟩ := hentries q hq
    rw [hresult, Assoc.get_set]
    by_cases hi : q.1 = sid
    · rw [hi, hentry] at he
      obtain rfl := Option.some.inj he
      exact ⟨_, if_pos hi, hask⟩
    · exact ⟨e, by rw [if_neg hi]; exact he, hask⟩
  have hfit : ∀ i e, result.2.get i = some e → e.dest.length ≤ e.length := by
    intro i e he
    rcases hget i e he with ⟨-, rfl⟩ | ⟨-, he⟩
    · exact hfits
    · exact h.fits i e he
  have hholds : ∀ i e, result.2.get i = some e → w.holders.get e.slot = some i := by
    intro i e he
    rcases hget i e he with ⟨rfl, rfl⟩ | ⟨-, he⟩
    · exact hheld
    · exact h.held i e he
  have hstill : ∀ i ∈ l.done, i ∈ queue ∧ ∀ e, result.2.get i = some e →
      (e.asked, e.dest) ∈ answered.map fun a => (a.request, a.data) := by
    intro i hi
    refine ⟨(h.whole i hi).1, fun e he => ?_⟩
    rcases hget i e he with ⟨rfl, -⟩ | ⟨-, he⟩
    · exact absurd hi hnotdone
    · exact (h.whole i hi).2 e he
  rcases hcase with ⟨hnone, hat, hflying⟩ | ⟨hsome, hat, hflying⟩
  · refine ⟨taken, rest, w, rfl, htaken, by rw [hnone, overs, List.append_nil, hlanded],
      .inl ⟨hnone, hat, ?_⟩⟩
    exact ⟨hflying, h.settings, h.free_nodup, h.free, h.queue_nodup, hqueued, h.owed, hstill, hfit,
      h.given, h.yielded, h.reach, h.watched, h.current, hholds, h.slots, h.slots_nodup, h.count,
      h.due, h.paired, h.own⟩
  · have hmem : ∀ i, i ∈ (r.without sid).owed ↔ i ∈ r.owed ∧ i ≠ sid := fun i => by simp [without]
    refine ⟨taken, rest, { w with owed := w.owed.filter (· ≠ sid) }, rfl, htaken, ?_,
      .inr ⟨sid, _, hsome, hat, hflying, h.settings, h.free_nodup, fun i hi => ?_, h.queue_nodup,
        hqueued, fun i hi => ?_, fun i hi => ?_, hfit, fun p hp => ?_, h.yielded, h.reach, fun i => ?_,
        h.current, hholds, h.slots, h.slots_nodup, h.count, fun i hi => ?_, h.paired, h.own⟩⟩
    · rw [hsome, Watch.sees_append, hlanded]
      rfl
    · exact ⟨fun hin => (h.free i hi).1 ((hmem i).mp hin).1, (h.free i hi).2⟩
    · obtain ⟨hin, hne⟩ := (hmem i).mp hi
      exact ⟨(h.owed i hin).1, by simp [hne, (h.owed i hin).2]⟩
    · rcases List.mem_cons.mp hi with rfl | hi
      · refine ⟨hqueue, fun e he => ?_⟩
        rcases hget i e he with ⟨-, rfl⟩ | ⟨hne, -⟩
        · simp [InFlight.asked]
        · exact absurd rfl hne
      · refine ⟨(hstill i hi).1, fun e he => ?_⟩
        rw [List.map_append]
        exact List.mem_append_left _ ((hstill i hi).2 e he)
    · rw [List.map_append]
      exact List.mem_append_left _ (h.given p hp)
    · show i ∈ w.owed.filter (· ≠ sid) ↔ _
      rw [hmem, List.mem_filter, h.watched i]
      simp
    · by_cases heq : i = sid
      · exact .inr (by rw [heq]; exact List.mem_cons_self)
      · exact (h.due i hi).imp (fun hin => (hmem i).mpr ⟨hin, heq⟩) (List.mem_cons_of_mem _)

/-- The reader when a piece was handed over. -/
def handing (r : BulkReader) (entry : InFlight) : BulkReader :=
  if entry.dest = [] then r
  else { r with
    delivered := r.delivered + entry.dest.length
    yielded := r.yielded ++ [(entry.offset, entry.dest)] }

/-- The read whose turn it is leaves the table, with its id and its slot. -/
theorem Turning.hand {sid : Nat}
    (h : Turning base start length asked done answered handed (sid :: queue) l r w)
    (hdone : sid ∈ l.done) {entry : InFlight} (hentry : l.inflight.get sid = some entry)
    {stop : Nat} (hstop : stop = if entry.dest.length < entry.length then
      min l.stop (entry.offset + entry.dest.length) else l.stop) :
    Turning base start length asked done answered (handed ++ [(entry.asked, entry.dest)]) queue
      { l with
        inflight := l.inflight.del sid, done := l.done.filter (· ≠ sid)
        freeSids := sid :: l.freeSids, freeSlots := entry.slot :: l.freeSlots
        stop := stop, offset := min l.offset stop }
      (r.handing entry) { w with holders := w.holders.del entry.slot } := by
  obtain ⟨hfresh, hnodup⟩ := List.nodup_cons.mp h.queue_nodup
  have hnotowed : sid ∉ r.owed := fun hs => (h.owed sid hs).2 hdone
  have hheld := h.held sid entry hentry
  have hpiece := (h.whole sid hdone).2 entry hentry
  have hrecord : (r.handing entry).issued = r.issued ∧ (r.handing entry).owed = r.owed ∧
      (r.handing entry).settings = r.settings := by
    unfold handing
    split <;> exact ⟨rfl, rfl, rfl⟩
  have hleased : (r.handing entry).leased = r.leased := by
    unfold handing
    split <;> rfl
  obtain ⟨old, cur, hasked, hcur, hold, hentries⟩ := h.queued
  cases cur with
  | nil => cases hcur
  | cons q cur =>
    obtain ⟨hq, hcur⟩ := List.cons.inj hcur
    have hask : entry.asked = q.2 := by
      obtain ⟨e, he, hask⟩ := hentries q (List.mem_cons_self ..)
      rw [hq, hentry] at he
      exact Option.some.inj he ▸ hask
    have hget : ∀ i e, (l.inflight.del sid).get i = some e → i ≠ sid ∧ l.inflight.get i = some e := by
      intro i e he
      rw [Assoc.get_del] at he
      split at he
      · cases he
      · next hi => exact ⟨hi, he⟩
    have hflying := h.flying.del hnotowed
    refine ⟨⟨hrecord.1.trans hflying.issued, hflying.planned, ?_, ?_, hflying.ok⟩,
      hrecord.2.2.trans h.settings, ?_, fun i hi => ?_, hnodup,
      ⟨old ++ [q], cur, by simp [hasked], hcur, by simp [hold, hask], fun q' hq' => ?_⟩,
      fun i hi => ?_, fun i hi => ?_, fun i e he => h.fits i e (hget i e he).2, fun p hp => ?_, ?_, ?_,
      fun i => ?_, h.current, fun i e he => ?_, fun slot hs => ?_, ?_, ?_, fun i hi => ?_, ?_,
      fun i hi => ?_⟩
    · rw [hrecord.2.1]
      exact hflying.matched
    · rw [hrecord.2.1]
      exact hflying.data
    · exact List.nodup_cons.mpr ⟨fun hs => (h.free sid hs).2 (by simp), h.free_nodup⟩
    · rw [hrecord.2.1]
      rcases List.mem_cons.mp hi with rfl | hi
      · exact ⟨hnotowed, hfresh⟩
      · exact ⟨(h.free i hi).1, fun hin => (h.free i hi).2 (List.mem_cons_of_mem _ hin)⟩
    · obtain ⟨e, he, hask'⟩ := hentries q' (List.mem_cons_of_mem _ hq')
      have hne : q'.1 ≠ sid := fun e => hfresh (hcur ▸ e ▸ List.mem_map_of_mem hq')
      exact ⟨e, by rw [Assoc.get_del_of_ne _ hne]; exact he, hask'⟩
    · rw [hrecord.2.1] at hi
      have hne : i ≠ sid := fun e => hnotowed (e ▸ hi)
      exact ⟨(List.mem_cons.mp (h.owed i hi).1).resolve_left hne, fun hin =>
        (h.owed i hi).2 (List.mem_of_mem_filter hin)⟩
    · obtain ⟨hin, hne⟩ := List.mem_filter.mp hi
      have hne : i ≠ sid := by simpa using hne
      exact ⟨(List.mem_cons.mp (h.whole i hin).1).resolve_left hne,
        fun e he => (h.whole i hin).2 e (hget i e he).2⟩
    · rcases List.mem_append.mp hp with hp | hp
      · exact h.given p hp
      · exact List.mem_singleton.mp hp ▸ hpiece
    · rw [nonEmpty_snoc]
      unfold handing
      by_cases hnil : entry.dest = []
      · simp [hnil, h.yielded]
      · simp [hnil, h.yielded, InFlight.asked]
    · by_cases hshort : entry.dest.length < entry.length
      · rw [if_pos hshort] at hstop
        refine .inr ⟨?_, _, List.mem_append_right _ (List.mem_singleton.mpr rfl), hshort⟩
        have hle : entry.offset + entry.dest.length ≤ l.offset ∨ l.stop ≤ l.offset := by
          refine h.reach.imp (fun hreach => ?_) And.left
          have hmem : entry.asked ∈ asked.map Prod.snd := by
            rw [hasked, hask]
            simp
          have hend := spans_prefix_le base.settings.chunk_pos h.flying.planned hmem
          rw [List.length_map, ← hreach.2, show entry.asked = (entry.offset, entry.length) from rfl] at hend
          dsimp only at hend
          omega
        dsimp only
        omega
      · rw [if_neg hshort] at hstop
        refine h.reach.imp (fun hreach => ⟨hstop.trans hreach.1, ?_⟩) fun hreach =>
          ⟨?_, hreach.2.imp fun p hp => ⟨List.mem_append_left _ hp.1, hp.2⟩⟩
        · dsimp only
          rw [hstop, hreach.1, hreach.2]
          omega
        · dsimp only
          omega
    · rw [hrecord.2.1]
      exact h.watched i
    · obtain ⟨hne, he⟩ := hget i e he
      have hother : e.slot ≠ entry.slot := by
        intro heq
        have := h.held i e he
        rw [heq, hheld] at this
        exact hne (Option.some.inj this).symm
      dsimp only
      rw [Assoc.get_del_of_ne _ hother]
      exact h.held i e he
    · dsimp only
      rw [Assoc.get_del]
      split
      · rfl
      · next hne => exact h.slots slot ((List.mem_cons.mp hs).resolve_left hne)
    · refine List.nodup_cons.mpr ⟨fun hs => ?_, h.slots_nodup⟩
      rw [h.slots _ hs] at hheld
      cases hheld
    · have hcount := h.count
      rw [List.length_cons] at hcount
      rw [List.length_cons]
      omega
    · rw [hrecord.2.1]
      have hne : i ≠ sid := fun e => hfresh (e ▸ hi)
      exact (h.due i (List.mem_cons_of_mem _ hi)).imp id fun hin => by simp [hin, hne]
    · rw [List.length_cons, List.length_cons, h.paired]
    · rw [hleased]
      rcases hi with hi | hi
      · rcases List.mem_cons.mp hi with rfl | hi
        · exact h.own _ (.inr List.mem_cons_self)
        · exact h.own i (.inl hi)
      · exact h.own i (.inr (List.mem_cons_of_mem _ hi))

/-! ## A server that answers -/

/-- A server that answers the reads it was sent, and nothing else: every answer of its, promised, in
part or whole, is on an id that it owes one on, every read gets one, none is a refusal, and what it
sends decodes. -/
structure Answered (sent : List (Nat × (Nat × Nat))) (frames : List Sent) : Prop where
  asked : ∀ before fr rest, frames = before ++ fr :: rest → ∀ sid status block,
    fr.answer = some (sid, status, block) →
    Pipeline.overs sid (replies before) < (Pipeline.requestsOn sid sent).length
  answered : ∀ sid, (Pipeline.requestsOn sid sent).length ≤ Pipeline.overs sid (replies frames)
  granted : ∀ fr ∈ frames, ∀ sid status block, fr.answer = some (sid, status, block) →
    status = kXR_ok ∨ status = kXR_oksofar ∨ status = kXR_waitresp
  decodes : ∀ fr ∈ frames, fr.Decodes

/-- What such a server says of an answer that is over is `kXR_ok`. -/
theorem Answered.verdict {sent : List (Nat × (Nat × Nat))} (h : Answered sent frames)
    {a : Lib.Answer (Nat × Nat) (Nat × Bytes) UInt8} (ha : a ∈ Pipeline.answers sent (replies frames)) :
    a.verdict.1 = kXR_ok := by
  obtain ⟨p, hp, hclosing⟩ := Pipeline.verdict_of_answers ha
  obtain ⟨fr, hfr, hreply⟩ := List.mem_filterMap.mp hp
  unfold Sent.reply at hreply
  split at hreply
  · cases hreply
  · next sid status block hans =>
    split at hreply
    · cases hreply
    · next hlater =>
      obtain rfl := Option.some.inj hreply
      dsimp only at hclosing
      split at hclosing
      · cases hclosing
      · next hsofar =>
        rw [← Option.some.inj hclosing]
        exact ((h.granted fr hfr sid status block hans).resolve_right
          fun hor => hor.elim hsofar hlater)

/-- With such a server, a read whose answer is not in is answered by what is still to come. -/
theorem Turning.answers (h : Turning base start length asked done answered handed queue l r w)
    {content : Bytes} (hexact : Exact content (served asked (done ++ frames)))
    (hserver : Answered asked (done ++ frames)) {sid : Nat} (hqueue : sid ∈ queue)
    (hdone : sid ∉ l.done) : Due r frames l.inflight := by
  obtain ⟨owed, hmatched, htable⟩ := h.flying.matched
  have howed : ∀ {s}, s ∈ r.owed → (owed.get s).isSome = true := fun {s} hs => by
    obtain ⟨entry, hentry, -⟩ := h.flying.data s hs
    rw [htable, if_pos hs, hentry]
    rfl
  refine ⟨fun hnil => ?_, fun fr hfr => hserver.decodes fr (List.mem_append_right _ hfr), ?_⟩
  · have hin := (h.due sid hqueue).resolve_right hdone
    have hall := hserver.answered sid
    have hcount := hmatched.count sid
    rw [howed hin, if_pos rfl] at hcount
    rw [replies_append, hnil, List.append_nil] at hall
    omega
  · rintro before fr rest rfl hquiet s status block hans
    have hall : done ++ (before ++ fr :: rest) = (done ++ before) ++ fr :: rest := by simp
    have hin : s ∈ r.owed := by
      have hfew := hserver.asked (done ++ before) fr rest hall s status block hans
      have hcount := hmatched.count s
      rw [replies_append, hquiet, List.append_nil] at hfew
      by_contra hno
      rw [htable, if_neg hno] at hcount
      simp only [Option.isSome_none, Bool.false_eq_true, if_false] at hcount
      omega
    refine ⟨hin, fun hlater => ?_⟩
    have hstatus : status = kXR_ok ∨ status = kXR_oksofar := by
      have := hserver.granted fr (by simp) s status block hans
      exact this.imp id fun hor => hor.resolve_right hlater
    obtain ⟨entry, hentry, hdest⟩ := h.flying.data s hin
    refine ⟨hstatus, entry, hentry, ?_⟩
    -- the answer that this part is of is all that the file has of the range
    have hreply := Sent.reply_of_answer hans hlater
    have hreplies : replies (done ++ (before ++ fr :: rest)) = replies done ++
        ⟨s, if status = kXR_oksofar then none else some (status, block), block⟩ :: replies rest := by
      rw [replies_append, replies_append, hquiet, List.nil_append, ← List.singleton_append,
        replies_append, replies_singleton hreply]
      rfl
    have hrequest := hmatched.request s entry.asked (by rw [htable, if_pos hin, hentry]; rfl)
    have hover : Pipeline.overs s (replies done) <
        Pipeline.overs s (replies (done ++ (before ++ fr :: rest))) := by
      have hcount := hmatched.count s
      rw [howed hin, if_pos rfl] at hcount
      have := hserver.answered s
      omega
    rw [hreplies] at hover
    obtain ⟨a, ha, hfor, hdata⟩ := Pipeline.answers_part (p := ⟨s, _, block⟩) hrequest hover
    rw [← hreplies] at ha
    have hserved : (a.request, a.data) ∈ served asked (done ++ (before ++ fr :: rest)) :=
      List.mem_map.mpr ⟨a, List.mem_filter.mpr ⟨ha, by simpa using hserver.verdict ha⟩, rfl⟩
    have hlen := congrArg List.length (hexact _ hserved)
    have hle := hdata.length_le
    rw [List.length_append, ← hdest] at hle
    rw [length_slice, hfor] at hlen
    have : entry.asked.2 = entry.length := rfl
    dsimp only at hlen hle
    omega

/-- A read that was handed over was answered. -/
theorem Turning.length_handed_le (h : Turning base start length asked done answered handed queue l r w) :
    handed.length ≤ done.length := by
  obtain ⟨owed, hmatched, htable⟩ := h.flying.matched
  obtain ⟨old, cur, hasked, hcur, hold, -⟩ := h.queued
  have hperm := hmatched.perm.length_eq
  have howed : owed.length ≤ queue.length := by
    have hsub : owed.map Prod.fst ⊆ queue := by
      intro s hs
      obtain ⟨⟨s, x⟩, hmem, rfl⟩ := List.mem_map.mp hs
      have hx := Assoc.get_of_mem hmatched.nodup hmem
      rw [htable] at hx
      split at hx
      · next hin => exact (h.owed s hin).1
      · cases hx
    have := (hmatched.nodup.subperm hsub).length_le
    rwa [List.length_map] at this
  have hanswers := Pipeline.length_answers_le asked (replies done)
  rw [hmatched.answered] at hanswers
  have hreplies : (replies done).length ≤ done.length := List.length_filterMap_le _ _
  have hlens := congrArg List.length hold
  have hlenq := congrArg List.length hcur
  rw [hasked] at hperm
  simp only [List.length_map, List.length_append] at hperm hlens hlenq
  omega

/-! ## Every run -/

/-- What a stream leaves, however it ended: the requests of the call, and the pieces that were
handed over, each the answer to its request, in the order of the requests. -/
structure Given (base : BulkReader) (start length : Nat) (all : List Sent)
    (asked : List (Nat × (Nat × Nat))) (handed : List (Landed UInt8)) (s : BulkReader) : Prop where
  issued : s.issued = base.issued ++ asked.map Prod.fst
  planned : asked.map Prod.snd <+: spans base.settings.chunk start length
  turns : handed.map Prod.fst <+: asked.map Prod.snd
  served : ∀ p ∈ handed, p ∈ served asked all
  yielded : s.yielded = base.yielded ++ nonEmpty handed

theorem Given.recorded {all : List Sent} {s s' : BulkReader}
    (h : Given base start length all asked handed s) (hs : Recorded s s') :
    Given base start length all asked handed s' :=
  ⟨hs.issued.trans h.issued, h.planned, h.turns, h.served, hs.yielded.trans h.yielded⟩

theorem Turning.leaves (h : Turning base start length asked done answered handed queue l r w)
    (frames : List Sent) : Given base start length (done ++ frames) asked handed r := by
  obtain ⟨old, cur, hasked, -, hold, -⟩ := h.queued
  obtain ⟨_, hmatched, -⟩ := h.flying.matched
  refine ⟨h.flying.issued, h.flying.planned, ⟨cur.map Prod.snd, by rw [hasked, List.map_append, hold]⟩,
    fun p hp => ?_, h.yielded⟩
  obtain ⟨a, ha, rfl⟩ := List.mem_map.mp (h.given p hp)
  have hin : a ∈ Pipeline.answers asked (replies (done ++ frames)) := by
    rw [replies_append]
    exact (Pipeline.answers_prefix asked _ _).subset (hmatched.answered ▸ ha)
  exact List.mem_map.mpr ⟨a, List.mem_filter.mpr ⟨hin, by simpa using h.flying.ok a ha⟩, rfl⟩

/-- A stream that is cut off: in a calm world, with a server that has not answered. -/
def CutOff (calm : Prop) (base : BulkReader) (start length : Nat) (all : List Sent)
    (b : BulkReader × List StreamEvent) : Prop :=
  (∃ asked handed, Given base start length all asked handed b.1 ∧
    (calm → ∀ content, Exact content (served asked all) → ¬ Answered asked all)) ∧ Disciplined b.2

theorem Turning.cutOff (h : Turning base start length asked done answered handed queue l r w)
    {b : BulkReader × List StreamEvent} (hb : Seen (Recorded r) w b)
    (hbad : calm → ∀ content, Exact content (served asked (done ++ frames)) →
      ¬ Answered asked (done ++ frames)) : CutOff calm base start length (done ++ frames) b :=
  ⟨⟨asked, handed, (h.leaves frames).recorded hb.1, hbad⟩, by rw [Disciplined, hb.2]; rfl⟩

/-- How often the call may still look at a clock to send a read, or to hand over a piece. -/
def toSpare (base : BulkReader) (start length : Nat) (asked : List (Nat × (Nat × Nat)))
    (handed : List (Landed UInt8)) : Nat :=
  (spans base.settings.chunk start length).length - asked.length +
    ((spans base.settings.chunk start length).length - handed.length)

/-- In front of `frames`, with a supply that will do if the world is a calm one. -/
def Going (calm : Prop) (base : BulkReader) (start length : Nat) (asked : List (Nat × (Nat × Nat)))
    (handed : List (Landed UInt8)) (r : BulkReader) (frames : List Sent) (s : BulkReader) : Prop :=
  At r frames s ∧ (calm → Supply (spans base.settings.chunk start length)
    (toSpare base start length asked handed) s)

theorem Seen.recorded {b : BulkReader × List StreamEvent}
    (h : Seen (Going calm base start length asked handed r frames) w b) : Seen (Recorded r) w b :=
  ⟨h.1.1.kept.recorded, h.2⟩

/-- The next read is one of the plan, and takes one of the moments that there are to spare. -/
theorem Turning.next_read (h : Turning base start length asked done answered handed queue l r w)
    (hmore : ¬ l.stop ≤ l.offset) :
    (l.offset, min base.settings.chunk (l.stop - l.offset)) ∈ spans base.settings.chunk start length ∧
      ∀ x, toSpare base start length asked handed = toSpare base start length (asked ++ [x]) handed + 1 := by
  have hchunk := base.settings.chunk_pos
  obtain ⟨hstop, hoffset⟩ := h.reach.resolve_right fun hr => hmore hr.1
  have hlt : asked.length * base.settings.chunk < length := by omega
  rw [Nat.min_eq_left (Nat.le_of_lt hlt)] at hoffset
  have hget : (spans base.settings.chunk start length)[asked.length]? = some (start + asked.length *
    base.settings.chunk, min base.settings.chunk (length - asked.length * base.settings.chunk)) :=
    getElem?_spans hchunk hlt
  have hlen := (List.getElem?_eq_some_iff.mp hget).1
  refine ⟨?_, fun x => ?_⟩
  · have hsame : length - asked.length * base.settings.chunk = l.stop - l.offset := by omega
    rw [hsame, ← hoffset] at hget
    exact List.mem_of_getElem? hget
  · simp only [toSpare, List.length_append, List.length_singleton]
    omega

/-- `stream`'s inner loop. -/
theorem askLogged_at : ∀ (fuel : Nat) (l : Streaming) (asked : List (Nat × (Nat × Nat)))
    (r : BulkReader) (w : Watch),
    Turning base start length asked done answered handed l.issued l r w →
    Sat (Seen (Going calm base start length asked handed r frames) w) (askLogged fuel l)
      (fun l' b => ∃ asked r w, Turning base start length asked done answered handed l'.issued l' r w ∧
        Seen (Going calm base start length asked handed r frames) w b ∧
        (l.freeSlots.length ≤ fuel → l'.freeSlots = [] ∨ l'.stop ≤ l'.offset))
      (CutOff calm base start length (done ++ frames)) := by
  intro fuel
  induction fuel with
  | zero =>
    refine fun l asked r w h => Sat.pure _ fun b hb => ⟨asked, r, w, h, hb, fun hle => .inl ?_⟩
    exact List.length_eq_zero_iff.mp (Nat.le_zero.mp hle)
  | succ fuel ih =>
    intro l asked r w h
    unfold askLogged
    cases hslots : l.freeSlots with
    | nil => exact Sat.pure _ fun b hb => ⟨asked, r, w, h, hb, fun _ => .inl hslots⟩
    | cons slot slots =>
      refine Sat.ite (fun hover => Sat.pure _ fun b hb => ⟨asked, r, w, h, hb, fun _ => .inr hover⟩)
        fun hmore => ?_
      cases hsids : l.freeSids with
      | nil =>
        have hpaired := h.paired
        rw [hslots, hsids] at hpaired
        cases hpaired
      | cons sid sids =>
        refine Sat.bind (get_seen w) fun a => Sat.of_each fun b₀ hb₀ => ?_
        obtain ⟨⟨rfl, hgoing⟩, hlog⟩ := hb₀
        have hsettings : b₀.1.settings = r.settings := by
          obtain ⟨_, _, _, _, _, _, hkept⟩ := hgoing.1.kept
          rw [hkept]
        obtain ⟨hplanned, hspare⟩ := h.next_read hmore
        rw [hsettings, h.settings]
        generalize hwant : min base.settings.chunk (l.stop - l.offset) = want at hplanned
        have hissue := @issue_calm _ (toSpare base start length (asked ++ [(sid, l.offset, want)]) handed)
          _ frames calm _ _ (h.own sid (.inl (by simp [hsids]))) hplanned
        rw [h.settings] at hissue
        refine Sat.bind ((lift_seen hissue w).conseq (fun b hb => ?_) (fun _ b hb => hb) fun b hb => ?_)
          fun _ => Sat.of_each fun b₁ hb₁ => ?_
        · rw [hb]
          refine ⟨⟨hgoing.1, fun hc => ?_⟩, hlog⟩
          rw [← hspare]
          exact hgoing.2 hc
        · exact h.cutOff ⟨hb.1.1, hb.2⟩ fun hc => (hb.1.2 hc).elim
        obtain ⟨⟨⟨parts, machine, -, hat₁⟩, hsupply⟩, hlog₁⟩ := hb₁
        obtain ⟨w', hsees, hnext⟩ := h.ask hslots hsids hmore hwant.symm parts machine
        refine Sat.bind ((emit_seen (P := Going calm base start length (asked ++ [(sid, l.offset, want)])
          handed (r.sent sid parts machine) frames) hsees).pre
          fun b hb => hb ▸ ⟨⟨hat₁, hsupply⟩, hlog₁⟩) fun _ => (ih _ _ _ _ hnext).post fun l' b hb => ?_
        obtain ⟨asked', r', w'', h', hb', hend⟩ := hb
        exact ⟨asked', r', w'', h', hb', fun hle => hend (by
          rw [List.length_cons] at hle
          exact Nat.le_of_succ_le_succ hle)⟩

/-- `_await_in_turn`'s loop. -/
theorem awaitLoopLogged_at (all : List Sent) {sid : Nat} (hqueue : sid ∈ queue) : ∀ (fuel : Nat)
    (l : Streaming) (done : List Sent) (answered : List (Lib.Answer (Nat × Nat) (Nat × Bytes) UInt8))
    (r : BulkReader) (w : Watch) (frames : List Sent), all = done ++ frames → frames.length < fuel →
    Turning base start length asked done answered handed queue l r w →
    Sat (Seen (Going calm base start length asked handed r frames) w) (awaitLoopLogged sid fuel l)
      (fun l' b => ∃ done answered r w frames,
        all = done ++ frames ∧ Turning base start length asked done answered handed queue l' r w ∧
        Seen (Going calm base start length asked handed r frames) w b ∧ sid ∈ l'.done ∧
        l'.issued = l.issued)
      (CutOff calm base start length all) := by
  intro fuel
  induction fuel with
  | zero => exact fun _ _ _ _ _ _ _ hfuel => absurd hfuel (Nat.not_lt_zero _)
  | succ fuel ih =>
    rintro l done answered r w frames rfl hfuel h
    refine Sat.ite (fun hin => Sat.pure _ fun b hb =>
      ⟨done, answered, r, w, frames, rfl, h, hb, hin, rfl⟩) fun hout => ?_
    refine Sat.bind (Q := fun result b => ∃ s, Collected r frames l.inflight result s ∧
      (calm → Supply (spans base.settings.chunk start length) (toSpare base start length asked handed) s) ∧
      b.1 = s ∧ ∀ w', w.sees (landings l.inflight result.2 ++ overs result.1) = some w' →
        ({} : Watch).sees b.2 = some w') ?_ fun result => Sat.of_each fun b₁ hb₁ => ?_
    · refine Sat.bind ((lift_seen (@collect_calm _ _ _ frames calm l.inflight) w).conseq
        (fun b hb => hb) (fun _ b hb => hb) fun b hb => h.cutOff ⟨hb.1.1, hb.2⟩ fun hc content hexact hserver =>
          hb.1.2 hc (h.answers hexact hserver hqueue hout)) fun result => ?_
      refine Sat.bind (Sat.emit _ fun s log hs => ?_) fun _ => Sat.pure _ fun b hb => hb
      refine ⟨s, hs.1.1, hs.1.2, rfl, fun w' hw' => ?_⟩
      show ({} : Watch).sees (log ++ _) = _
      rw [Watch.sees_append, hs.2]
      exact hw'
    obtain ⟨s, hcollected, hsupply, rfl, hlog⟩ := hb₁
    obtain ⟨taken, rest, w', rfl, htaken, hsees, hcase⟩ := h.collect hcollected
    have hall : done ++ (taken ++ rest) = (done ++ taken) ++ rest := (List.append_assoc ..).symm
    have hfuel : rest.length < fuel := by
      have := List.length_pos_iff.mpr htaken
      rw [List.length_append] at hfuel
      omega
    obtain ⟨finished, inflight⟩ := result
    rcases hcase with ⟨hnone, hat, hnext⟩ | ⟨finished', answered', hsome, hat, hnext⟩
    · dsimp only at hnone
      subst hnone
      exact Sat.pre (ih { l with inflight := inflight } _ _ _ _ rest hall hfuel hnext) fun b hb =>
        hb ▸ ⟨⟨hat, hsupply⟩, hlog w' hsees⟩
    · dsimp only at hsome
      subst hsome
      exact Sat.pre (ih { l with inflight := inflight, done := finished' :: l.done } _ _ _ _ rest hall
        hfuel hnext) fun b hb => hb ▸ ⟨⟨hat, hsupply⟩, hlog w' hsees⟩

/-- A piece is the consumer's from the `yield` until it asks for the next one. -/
theorem handLogged_at (hcurrent : w.current = none) (entry : InFlight) {reads : List (Nat × Nat)} {k : Nat} :
    Sat (Seen (fun s => At r frames s ∧ (calm → Supply reads (k + 1) s)) w) (handLogged entry)
      (fun _ => Seen (fun s => At (r.handing entry) frames s ∧ (calm → Supply reads k s)) w)
      (fun b => (Recorded (r.handing entry) b.1 ∧ (calm → False)) ∧ Disciplined b.2) := by
  refine Sat.ite (fun hnil => Sat.pure _ fun b hb => ?_) fun hne => ?_
  · rw [handing, if_pos hnil]
    exact ⟨⟨hb.1.1, fun hc => (hb.1.2 hc).le (Nat.le_succ k)⟩, hb.2⟩
  have hhanded : w.sees [.handed entry.slot] = some { w with current := some entry.slot } := rfl
  have hresumed : ({ w with current := some entry.slot } : Watch).sees [.resumed] = some w := by
    show some ({ w with current := none } : Watch) = some w
    rw [← hcurrent]
  refine Sat.bind (emit_seen hhanded) fun _ => ?_
  have hmodify : Sat (fun s => At r frames s ∧ (calm → Supply reads (k + 1) s))
      (Act.modify fun r => { r with
        delivered := r.delivered + entry.dest.length
        yielded := r.yielded ++ [(entry.offset, entry.dest)] } : Bulk Unit)
      (fun _ s => At (r.handing entry) frames s ∧ (calm → Supply reads (k + 1) s))
      (fun s => Recorded (r.handing entry) s ∧ (calm → False)) := by
    refine Sat.modify _ fun s hs => ⟨⟨?_, hs.1.torn, hs.1.incoming⟩, fun hc =>
      (hs.2 hc).same rfl rfl rfl rfl rfl rfl rfl⟩
    obtain ⟨incoming, ticks, torn, by_, expires, notices, rfl⟩ := hs.1.kept
    rw [handing, if_neg hne]
    exact ⟨incoming, ticks, torn, by_, expires, notices, rfl⟩
  have hcut : ∀ {w' : Watch} (b : BulkReader × List StreamEvent),
      Seen (fun s => Recorded (r.handing entry) s ∧ (calm → False)) w' b →
      (Recorded (r.handing entry) b.1 ∧ (calm → False)) ∧ Disciplined b.2 :=
    fun b hb => ⟨hb.1, by rw [Disciplined, hb.2]; rfl⟩
  refine Sat.bind ((lift_seen hmodify _).conseq (fun b hb => hb) (fun _ b hb => hb) hcut) fun _ => ?_
  refine Sat.bind ((lift_seen callOut_calm _).conseq (fun b hb => hb) (fun _ b hb => hb) hcut)
    fun _ => ?_
  exact emit_seen hresumed

/-- A stream that came to its end: every read was handed over, or one that was short. -/
def Ended (base : BulkReader) (start length : Nat) (all : List Sent)
    (b : BulkReader × List StreamEvent) : Prop :=
  (∃ asked handed, Given base start length all asked handed b.1 ∧
    (handed.map Prod.fst = spans base.settings.chunk start length ∨
      ∃ p ∈ handed, p.2.length < p.1.2)) ∧ Disciplined b.2

/-- With no read left and none to ask for, the plan is through, or a piece was short. -/
theorem Turning.ended (h : Turning base start length asked done answered handed [] l r w)
    (hend : l.freeSlots = [] ∨ l.stop ≤ l.offset) :
    handed.map Prod.fst = spans base.settings.chunk start length ∨
      ∃ p ∈ handed, p.2.length < p.1.2 := by
  have hchunk := base.settings.chunk_pos
  have hstop : l.stop ≤ l.offset := by
    refine hend.resolve_left fun hnil => ?_
    have hcount := h.count
    rw [hnil] at hcount
    have := base.settings.depth_pos
    simp at hcount
    omega
  refine h.reach.imp (fun hreach => ?_) And.right
  obtain ⟨old, cur, hasked, hcur, hold, -⟩ := h.queued
  have hnil : cur = [] := List.map_eq_nil_iff.mp hcur
  rw [hnil, List.append_nil] at hasked
  rw [← hold, ← hasked]
  refine h.flying.planned.eq_of_length_le ?_
  have hcover : length ≤ asked.length * base.settings.chunk := by omega
  rw [spans, List.length_map, chunks, List.length_map, List.length_range, List.length_map]
  refine Nat.le_of_lt_succ ((Nat.div_lt_iff_lt_mul hchunk).mpr ?_)
  rw [Nat.succ_mul]
  omega

/-- A piece that is handed over takes one of the moments that there are to spare. -/
theorem Turning.next_piece {sid : Nat}
    (h : Turning base start length asked done answered handed (sid :: queue) l r w)
    (piece : Landed UInt8) :
    toSpare base start length asked handed = toSpare base start length asked (handed ++ [piece]) + 1 := by
  obtain ⟨old, cur, hasked, hcur, hold, -⟩ := h.queued
  have hplanned := h.flying.planned.length_le
  have hlens := congrArg List.length hold
  have hlenq := congrArg List.length hcur
  rw [hasked] at hplanned
  simp only [List.length_map, List.length_append, List.length_cons] at hplanned hlens hlenq
  simp only [toSpare, List.length_append, List.length_singleton]
  omega

/-- The loop of `stream`. -/
theorem streamLoopLogged_at (all : List Sent) : ∀ (fuel : Nat) (l : Streaming)
    (asked : List (Nat × (Nat × Nat))) (done : List Sent)
    (answered : List (Lib.Answer (Nat × Nat) (Nat × Bytes) UInt8)) (handed : List (Landed UInt8))
    (r : BulkReader) (w : Watch) (frames : List Sent), all = done ++ frames →
    all.length < handed.length + fuel →
    Turning base start length asked done answered handed l.issued l r w →
    Sat (Seen (Going calm base start length asked handed r frames) w) (streamLoopLogged fuel l)
      (fun _ b => Ended base start length all b ∧ b.1.owed = [] ∧ b.1.torn = false)
      (CutOff calm base start length all) := by
  intro fuel
  induction fuel with
  | zero =>
    rintro l asked done answered handed r w frames rfl hfuel h
    -- as many pieces were handed over as there are frames
    have hle := h.length_handed_le
    rw [List.length_append] at hfuel
    omega
  | succ fuel ih =>
    rintro l asked done answered handed r w frames rfl hfuel h
    refine Sat.bind (askLogged_at _ l asked r w h) fun l => Sat.of_each fun b₁ hb₁ => ?_
    obtain ⟨asked, r, w, h, hb₁, hend⟩ := hb₁
    cases hissued : l.issued with
    | nil =>
      refine Sat.pure _ fun b hb => ?_
      subst hb
      rw [hissued] at h
      have hnone : r.owed = [] := List.eq_nil_iff_forall_not_mem.mpr fun s hs =>
        absurd (h.owed s hs).1 List.not_mem_nil
      exact ⟨⟨⟨asked, handed, (h.leaves frames).recorded hb₁.recorded.1,
        h.ended (hend (Nat.le_refl _))⟩, by rw [Disciplined, hb₁.2]; rfl⟩,
        hb₁.1.1.kept.owed.trans hnone, hb₁.1.1.torn⟩
    | cons sid issued =>
      rw [hissued] at h
      have hpopped : Turning base start length asked done answered handed (sid :: issued)
          { l with issued := issued } r w :=
        ⟨h.flying, h.settings, h.free_nodup, h.free, h.queue_nodup, h.queued, h.owed, h.whole, h.fits,
          h.given, h.yielded, h.reach, h.watched, h.current, h.held, h.slots, h.slots_nodup, h.count,
          h.due, h.paired, h.own⟩
      refine Sat.bind (Q := fun result b => ∃ l₁ done' answered' r w frames',
        done ++ frames = done' ++ frames' ∧
        Turning base start length asked done' answered' handed (sid :: issued) l₁ r w ∧
        Seen (Going calm base start length asked handed r frames') w b ∧ sid ∈ l₁.done ∧ l₁.issued = issued ∧
        l₁.inflight.get sid = some result.1 ∧ result.2 = { l₁ with
          inflight := l₁.inflight.del sid, done := l₁.done.filter (· ≠ sid) }) ?_ fun result => ?_
      · refine Sat.bind ((get_seen w).pre fun b hb => hb ▸ hb₁) fun a => Sat.of_each fun b₂ hb₂ => ?_
        obtain ⟨⟨rfl, hgoing⟩, hlog⟩ := hb₂
        have hframes : frames.length < b₂.1.incoming.length + 1 := by
          rw [hgoing.1.incoming]
          exact Nat.lt_succ_of_le (length_le_wires frames)
        refine Sat.bind ((awaitLoopLogged_at _ List.mem_cons_self _ _ done answered r w frames rfl hframes
          hpopped).pre fun b hb => hb ▸ ⟨hgoing, hlog⟩) fun l₁ => Sat.of_each fun b₃ hb₃ => ?_
        obtain ⟨done', answered', r', w', frames', hall, h', hb₃, hdone, hl₁⟩ := hb₃
        cases hentry : l₁.inflight.get sid with
        | none =>
          obtain ⟨old, cur, -, hcur, -, hentries⟩ := h'.queued
          obtain ⟨q, hq, hid⟩ := List.mem_map.mp (hcur ▸ List.mem_cons_self : sid ∈ cur.map Prod.fst)
          obtain ⟨entry, hsome, -⟩ := hentries q hq
          rw [hid, hentry] at hsome
          cases hsome
        | some entry =>
          exact Sat.pure _ fun b hb => ⟨l₁, done', answered', r', w', frames', hall, h', hb ▸ hb₃,
            hdone, hl₁, hentry, rfl⟩
      · refine Sat.of_each fun b₂ hb₂ => ?_
        obtain ⟨entry, l₂⟩ := result
        obtain ⟨l₁, done', answered', r', w', frames', hall, h', hb₂, hdone, hl₁, hentry, hl₂⟩ := hb₂
        dsimp only at hentry hl₂
        subst hl₂
        have hnext := h'.hand hdone hentry rfl
        have hspare := h'.next_piece (entry.asked, entry.dest)
        have hfreed : w'.sees [.freed entry.slot] =
            some { w' with holders := w'.holders.del entry.slot } := rfl
        refine Sat.bind ((emit_seen (P := Going calm base start length asked handed r' frames') hfreed).pre
          fun b hb => hb ▸ hb₂) fun _ => ?_
        refine Sat.bind (Q := fun _ => Seen (Going calm base start length asked
          (handed ++ [(entry.asked, entry.dest)]) (r'.handing entry) frames')
          { w' with holders := w'.holders.del entry.slot })
          ((handLogged_at hnext.current entry).conseq (fun b hb => ⟨⟨hb.1.1, fun hc => ?_⟩, hb.2⟩)
          (fun _ b hb => hb) fun b hb => ?_) fun _ => ?_
        · rw [← hspare]
          exact hb.1.2 hc
        · rw [hall]
          exact ⟨⟨asked, _, (hnext.leaves frames').recorded hb.1.1, fun hc => (hb.1.2 hc).elim⟩, hb.2⟩
        · subst hl₁
          refine ih _ asked done' answered' (handed ++ [(entry.asked, entry.dest)]) _ _ frames' hall ?_ hnext
          have hmore : (handed ++ [(entry.asked, entry.dest)]).length = handed.length + 1 := by simp
          rw [hmore]
          omega

/-- A stream, run to its end or cut off wherever: what it leaves. -/
theorem streamLogged_at {frames : List Sent} (hready : Ready r frames) :
    Sat (fun b => b = (r, [])) (streamLogged start length) (fun _ => Ended r start length frames)
      (CutOff (Calm (spans r.settings.chunk start length)
        (2 * (spans r.settings.chunk start length).length) r) r start length frames) := by
  generalize hcalm : Calm (spans r.settings.chunk start length)
    (2 * (spans r.settings.chunk start length).length) r = calm
  have hempty : Given r start length frames [] [] r :=
    ⟨by simp, by simp, by simp, by simp, by simp [nonEmpty]⟩
  refine Sat.ite (fun hlength => Sat.pure _ ?_) fun _ => ?_
  · rintro b rfl
    refine ⟨⟨[], [], hempty, .inl ?_⟩, rfl⟩
    have hchunk := r.settings.chunk_pos
    rw [hlength, spans, chunks, Nat.zero_add, Nat.div_eq_of_lt (by omega)]
    rfl
  have hbegin : Sat (fun s => (s = r ∧ s = r) ∧ (calm → True)) begin (fun sids s =>
      ((sids.Nodup ∧ sids.length = r.settings.depth ∧ Recorded r s ∧ s.torn = false ∧
        s.incoming = r.incoming ∧ s.owed = r.owed ∧ s.settings = r.settings) ∧
        s.leased = sids ∧ ∀ sid ∈ s.leased, sid ∈ s.machine.leased) ∧
      (calm → Supply (spans r.settings.chunk start length)
        (2 * (spans r.settings.chunk start length).length) s))
      (fun s => (Recorded r s ∧ True) ∧ (calm → False)) :=
    ((begin_at hready.apart).and (begin_leases hready.apart)).under
      fun hc => (begin_calm hready.apart (hcalm ▸ hc)).pre fun s hs => hs.1.1
  refine Sat.bind ((hbegin.lift []).conseq (fun b hb => ?_) (fun _ b hb => hb) fun b hb => ?_) fun sids => ?_
  · rw [hb]
    exact ⟨⟨⟨rfl, rfl⟩, fun _ => trivial⟩, rfl⟩
  · obtain ⟨s, log⟩ := b
    obtain ⟨⟨⟨hs, -⟩, hno⟩, rfl⟩ := hb
    exact ⟨⟨[], [], hempty.recorded hs, fun hc => (hno hc).elim⟩, rfl⟩
  refine Sat.bind (Q := fun a b => b = (a, []) ∧ sids.Nodup ∧ sids.length = r.settings.depth ∧
    Recorded r a ∧ a.torn = false ∧ a.incoming = r.incoming ∧ a.owed = r.owed ∧
    a.settings = r.settings ∧ a.leased = sids ∧ (calm → Supply (spans r.settings.chunk start length)
      (2 * (spans r.settings.chunk start length).length) a))
    (fun b hb => ?_) fun a => Sat.of_each fun b₀ hb₀ => ?_
  · obtain ⟨⟨⟨⟨hnodup, hcount, hrec, htorn, hin, howed, hsettings⟩, hleases⟩, hsupply⟩, hlog⟩ := hb
    exact ⟨Prod.ext rfl hlog, hnodup, hcount, hrec, htorn, hin, howed, hsettings, hleases.1, hsupply⟩
  obtain ⟨rfl, hnodup, hcount, hrec, htorn, hin, howed, hsettings, hleased, hsupply⟩ := hb₀
  -- the call is recorded from its start, or from where its ids were taken
  have hgiven : ∀ {asked handed s}, Given a start length frames asked handed s →
      Given r start length frames asked handed s := fun h =>
    ⟨by rw [h.issued, hrec.issued], hsettings ▸ h.planned, h.turns, h.served,
      by rw [h.yielded, hrec.yielded]⟩
  have hstart : Turning a start length [] [] [] [] []
      { freeSids := sids.reverse, freeSlots := (List.range a.settings.depth).reverse
        offset := start, stop := start + length } a {} := by
    have hnone : a.owed = [] := howed.trans hready.owed
    refine ⟨.begun rfl hnone, rfl, List.nodup_reverse.mpr hnodup, fun s _ => by simp [hnone],
      List.nodup_nil, ⟨[], [], rfl, rfl, rfl, fun _ h => by cases h⟩, fun s hs => ?_, (fun _ h => by cases h),
      (fun _ _ h => by cases h), (fun _ h => by cases h), by simp [nonEmpty], .inl ⟨rfl, by simp⟩,
      fun s => by simp [hnone], rfl, (fun _ _ h => by cases h), fun _ _ => rfl,
      List.nodup_reverse.mpr List.nodup_range, by simp, (fun _ h => by cases h), by simp [hcount, hsettings],
      fun s hs => ?_⟩
    · rw [hnone] at hs
      cases hs
    · rw [hleased]
      exact List.mem_reverse.mp (hs.resolve_right List.not_mem_nil)
  have hsettle : ∀ {b : BulkReader × List StreamEvent}, Sat (fun b' => b' = b) (lift settle)
      (fun _ b' => Recorded b.1 b'.1 ∧ b'.2 = b.2) (fun b' => Recorded b.1 b'.1 ∧ b'.2 = b.2) := by
    intro b
    exact ((settle_recorded (r := b.1)).lift b.2).pre fun b' hb' => by rw [hb']; exact ⟨.refl _, rfl⟩
  refine Sat.tryFinally_value (E := CutOff calm a start length frames)
    ((streamLoopLogged_at frames _ _ [] [] [] [] a {} frames rfl ?_ hstart).pre fun b hb => ?_) (fun _ => Sat.of_each fun b hb => ?_) (Sat.of_each fun b hb => ?_)
  · rw [List.length_nil, Nat.zero_add, hin, hready.incoming]
    exact Nat.lt_succ_of_le (length_le_wires frames)
  · rw [hb]
    refine ⟨⟨.refl htorn (hin.trans hready.incoming), fun hc => ?_⟩, rfl⟩
    rw [hsettings]
    refine (hsupply hc).le ?_
    simp only [toSpare, hsettings, List.length_nil]
    omega
  · obtain ⟨⟨⟨asked, handed, hleft, hend⟩, hdisc⟩, hnone, hquiet⟩ := hb
    refine ((hsettle (b := b)).and (settle_calm.lift b.2)).conseq (fun b' hb' => ?_) (fun _ b' hs => ?_)
      fun b' hs => hs.2.1.elim
    · rw [hb']
      exact ⟨rfl, ⟨hnone, hquiet⟩, rfl⟩
    · exact ⟨⟨asked, handed, (hgiven hleft).recorded hs.1.1, hsettings ▸ hend⟩, by rw [hs.1.2]; exact hdisc⟩
  · obtain ⟨⟨asked, handed, hleft, hbad⟩, hdisc⟩ := hb
    have hcut : ∀ {b' : BulkReader × List StreamEvent}, Recorded b.1 b'.1 ∧ b'.2 = b.2 →
        CutOff calm r start length frames b' := fun hs =>
      ⟨⟨asked, handed, (hgiven hleft).recorded hs.1, hbad⟩, by rw [hs.2]; exact hdisc⟩
    exact hsettle.conseq (fun b' hb' => hb') (fun _ b' hs => hcut hs) fun b' hs => hcut hs

/-- A reader on a connection where both reads are answered, the second one first, with time to spare. -/
def unhurried : BulkReader := { swapped with ticks := List.replicate 64 well }

/-- Both of the two reads are answered, the second one first. -/
theorem swapped_answered : Answered [(5, (0, 4)), (4, (4, 4))] [fullSecond, fullFirst] := by
  have hsecond : fullSecond.answer = some (4, kXR_ok, [5, 6, 7, 8]) := rfl
  have hfirst : fullFirst.answer = some (5, kXR_ok, [1, 2, 3, 4]) := rfl
  have hreplies : replies [fullSecond, fullFirst] =
      [⟨4, some (kXR_ok, [5, 6, 7, 8]), [5, 6, 7, 8]⟩, ⟨5, some (kXR_ok, [1, 2, 3, 4]), [1, 2, 3, 4]⟩] := rfl
  refine ⟨fun before fr rest hsplit sid status block hanswer => ?_, fun sid => ?_,
    fun fr hfr sid status block hanswer => ?_, fun fr hfr => ?_⟩
  · rcases before with _ | ⟨x, _ | ⟨y, before⟩⟩ <;>
      simp only [List.nil_append, List.cons_append, List.cons.injEq, List.nil_eq, List.append_eq_nil_iff,
        List.cons_ne_nil, and_false] at hsplit
    · obtain ⟨rfl, -⟩ := hsplit
      cases hsecond.symm.trans hanswer
      decide
    · obtain ⟨rfl, rfl, -⟩ := hsplit
      cases hfirst.symm.trans hanswer
      decide
  · rw [hreplies]
    by_cases h5 : sid = 5 <;> by_cases h4 : sid = 4 <;>
      simp [Pipeline.requestsOn, Pipeline.overs, h5, h4, eq_comm]
  · rcases List.mem_pair.mp hfr with rfl | rfl
    · cases hsecond.symm.trans hanswer
      exact .inl rfl
    · cases hfirst.symm.trans hanswer
      exact .inl rfl
  · rcases List.mem_pair.mp hfr with rfl | rfl
    · exact ⟨by decide, (by cases ·), (by cases ·), fun sid block h => (by cases hsecond.symm.trans h)⟩
    · exact ⟨by decide, (by cases ·), (by cases ·), fun sid block h => (by cases hfirst.symm.trans h)⟩

/-- The pieces of a call that went from `r` to `r'`. -/
def piecesOf (r r' : BulkReader) : List (Nat × Bytes) := r'.yielded.drop r.yielded.length

/-- **A stream yields the file in order.**  For every file, start, length, chunk and depth, with
a server that answers each read with what the file has of its range, in any order and any
fragments, with deferrals and notices between them: the pieces that a stream yields follow one
another from the start and are the file's bytes there, in every run; when the stream comes to
its end they are all of the bytes from `start` to the end of the range or of the file, and in a
calm world, with every read answered, it does come to its end.  The run with a log is the same
run, and the watch over the log has nothing to object to. -/
theorem stream_in_order {frames : List Sent} {content : Bytes} (hready : Ready r frames)
    (hserver : Exact content (served
      (BulkReader.asked (spans r.settings.chunk start length) r (stream start length r).2) frames)) :
    (∃ stop, Chain start ((piecesOf r (stream start length r).2).map fun p => (p.1, p.2.length))
        stop) ∧
      (piecesOf r (stream start length r).2).flatMap Prod.snd <+: slice content start length ∧
      ((stream start length r).1 = .ok () →
        (piecesOf r (stream start length r).2).flatMap Prod.snd = slice content start length) ∧
      ((streamLogged start length (r, [])).1, (streamLogged start length (r, [])).2.1) =
        stream start length r ∧
      Disciplined (streamLogged start length (r, [])).2.2 ∧
      (Calm (spans r.settings.chunk start length) (2 * (spans r.settings.chunk start length).length) r →
        Answered (BulkReader.asked (spans r.settings.chunk start length) r (stream start length r).2)
          frames → (stream start length r).1 = .ok ()) := by
  have herase := streamLogged_erases start length r []
  -- what is left of a run is in order
  have horder : ∀ {asked handed}, Given r start length frames asked handed (stream start length r).2 →
      piecesOf r (stream start length r).2 = nonEmpty handed ∧ Exact content handed ∧
      ∃ stop ≤ start + length, Chain start (handed.map Prod.fst) stop ∧
        (handed.map Prod.fst = spans r.settings.chunk start length → stop = start + length) := by
    intro asked handed h
    have hasked := asked_eq h.issued h.planned
    rw [hasked] at hserver
    refine ⟨by rw [piecesOf, h.yielded, List.drop_left], fun p hp => hserver p (h.served p hp), ?_⟩
    have hwhole : Chain start (spans r.settings.chunk start length) (start + length) :=
      (chain_cut length r.settings.chunk_pos).shift start
    obtain ⟨rest, hrest⟩ := h.turns.trans h.planned
    rw [← hrest] at hwhole
    obtain ⟨stop, hfirst, hbehind⟩ := hwhole.split
    refine ⟨stop, hbehind.le.1, hfirst, fun hall => ?_⟩
    rw [← hrest] at hall
    have hnil : rest = [] := by simpa using hall
    rw [hnil] at hbehind
    exact hbehind
  have hfront : ∀ {stop : Nat}, stop ≤ start + length →
      slice content start (stop - start) <+: slice content start length := fun hstop =>
    List.take_prefix_take_left (by omega)
  rcases hrun : streamLogged start length (r, []) with ⟨_ | u, b⟩
  · rw [hrun] at herase
    obtain ⟨⟨asked, handed, hleft, hbad⟩, hdisc⟩ := (streamLogged_at hready).error rfl hrun
    rw [show b.1 = (stream start length r).2 from congrArg Prod.snd herase] at hleft
    obtain ⟨hpieces, hexact, stop, hstop, hchain, -⟩ := horder hleft
    obtain ⟨hfollow, hflat⟩ := hexact.in_order hchain
    rw [hpieces]
    refine ⟨⟨_, hfollow⟩, by rw [hflat]; exact hfront hstop, fun hok => ?_, herase, hdisc,
      fun hcalm hanswered => ?_⟩
    · rw [← herase] at hok
      cases hok
    · rw [asked_eq hleft.issued hleft.planned] at hserver hanswered
      exact absurd hanswered (hbad hcalm content hserver)
  · rw [hrun] at herase
    obtain ⟨⟨asked, handed, hleft, hend⟩, hdisc⟩ := (streamLogged_at hready).ok rfl hrun
    rw [show b.1 = (stream start length r).2 from congrArg Prod.snd herase] at hleft
    obtain ⟨hpieces, hexact, stop, hstop, hchain, hall⟩ := horder hleft
    obtain ⟨hfollow, hflat⟩ := hexact.in_order hchain
    rw [hpieces]
    refine ⟨⟨_, hfollow⟩, by rw [hflat]; exact hfront hstop, fun _ => ?_, herase, hdisc,
      fun _ _ => congrArg Prod.fst herase.symm⟩
    rw [hflat]
    rcases hend with hend | ⟨p, hp, hshort⟩
    · rw [hall hend, Nat.add_sub_cancel_left]
    · -- a short piece is at the end of the file
      have hlen := congrArg List.length (hexact p hp)
      rw [length_slice] at hlen
      have hends := hchain.ends _ (List.mem_map_of_mem hp)
      refine (hfront hstop).eq_of_length_le ?_
      rw [length_slice, length_slice]
      omega

theorem stream_in_order_swapped :
    (stream 0 8 unhurried).1 = .ok () ∧
      (piecesOf unhurried (stream 0 8 unhurried).2).flatMap Prod.snd = slice eightBytes 0 8 := by
  have hready : Ready unhurried [fullSecond, fullFirst] :=
    let h := fresh_ready [fullSecond, fullFirst]
    ⟨h.owed, h.apart, h.incoming⟩
  have hasked : BulkReader.asked (spans unhurried.settings.chunk 0 8) unhurried
      (stream 0 8 unhurried).2 = [(5, (0, 4)), (4, (4, 4))] := by decide +kernel
  have hserver : Exact eightBytes (served (BulkReader.asked (spans unhurried.settings.chunk 0 8)
      unhurried (stream 0 8 unhurried).2) [fullSecond, fullFirst]) := by
    rw [hasked]
    decide +kernel
  have hwell : ∀ t ∈ unhurried.ticks, t = well := fun t ht => List.eq_of_mem_replicate ht
  have hcalm : Calm (spans unhurried.settings.chunk 0 8)
      (2 * (spans unhurried.settings.chunk 0 8).length) unhurried := by
    refine ⟨by decide +kernel, ⟨_, _, Prod.ext (by decide +kernel : _ = Except.ok [4, 5]) rfl,
      frames_unsigned (by decide +kernel) _ _⟩, fun t ht => ?_, fun first hfirst t ht => ?_, by decide +kernel⟩
    · rw [hwell t ht]
      exact ⟨rfl, rfl, rfl, .inr ⟨_, rfl⟩⟩
    · rw [hwell t ht, hwell first (List.mem_of_mem_head? hfirst)]
      exact ⟨.inl rfl, fun left hleft => by cases hleft⟩
  have h := stream_in_order hready hserver
  have hend := h.2.2.2.2.2 hcalm (hasked ▸ swapped_answered)
  exact ⟨hend, h.2.2.1 hend⟩

end

end BulkReader

end XrdClient.Session
