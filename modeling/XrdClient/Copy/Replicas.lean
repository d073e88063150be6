/-
  Copy/Replicas.lean --- one file from several servers at once.

  Source: `copy/replicas.py`, `_Blocks`, `_Fetch`, `fetch` and `_together`.

  The blocks of the file are handed out one at a time.  A reader whose server fails, or has
  less than it should, gives the rest of its block back and goes on with a replica nobody
  has tried.  Whatever a lock covers is one step, and the steps of the readers come in any
  order.

  A failure that is not a replica's (of the target, of the progress hook, of a close) is
  raised: it stops the others, and ends the fetch.
-/
import XrdClient.Lib.Ranges
import XrdClient.Lib.Bytes

set_option autoImplicit false

namespace XrdClient.Copy.Replicas

open XrdClient.Lib

/-! ## Blocks and readers -/

/-- Where a reader is. -/
inductive Seat where
  /-- About to open the next replica. -/
  | opening
  /-- About to take a block. -/
  | idle
  /-- Reading a block, `moved` of it written. -/
  | working (offset length moved : Nat)
  /-- Its block is given back, and its replica is to be closed. -/
  | closing
  /-- It has stopped the others, and is about to give its block back whole. -/
  | failing (offset length : Nat)
  | ended
  | raised
  deriving DecidableEq

structure Fetch where
  size : Nat
  chunk : Nat
  /-- How many replicas nobody has tried. -/
  replicas : Nat
  pending : List (Nat × Nat)
  busy : Nat := 0
  stopped : Bool := false
  readers : List Seat
  /-- What was written, and where. -/
  written : List (Nat × Bytes) := []
  moved : Nat := 0

/-- What goes on at a reader. -/
inductive Event where
  | opens (ok : Bool)
  | takes
  /-- A chunk is read and written. -/
  | puts (data : Bytes)
  /-- The block is done, or the replica has no more of it to give. -/
  | leaves
  /-- `stopped` is seen, or something is raised; `data` had been written, and counted or not. -/
  | raises (data : Bytes) (counted : Bool)
  /-- `done`, on the way out. -/
  | givesUp
  | closes (ok : Bool)
  deriving DecidableEq

namespace Fetch

def seat (f : Fetch) (i : Nat) (s : Seat) : Fetch := { f with readers := f.readers.set i s }

/-- `take`. -/
def take (f : Fetch) (i : Nat) : Fetch :=
  if f.pending = [] ∧ f.busy ≠ 0 ∧ f.stopped = false then f
  else if f.stopped then f.seat i .ended
  else match f.pending with
    | [] => f.seat i .ended
    | (offset, length) :: rest =>
        { f with busy := f.busy + 1, pending := rest }.seat i (.working offset length 0)

/-- `done`. -/
def done (f : Fetch) (offset length moved : Nat) : Fetch :=
  { f with
    busy := f.busy - 1
    pending := if moved < length then (offset + moved, length - moved) :: f.pending else f.pending }

/-- `_put`. -/
def put (f : Fetch) (offset : Nat) (data : Bytes) (counted : Bool) : Fetch :=
  { f with
    written := if data = [] then f.written else f.written ++ [(offset, data)]
    moved := if counted then f.moved + data.length else f.moved }

/-- One reader's next step; a step that is not its next one changes nothing. -/
def stepAt (f : Fetch) (i : Nat) (s : Seat) (event : Event) : Fetch :=
  match s, event with
  | .opening, .opens ok =>
      match f.replicas with
      | 0 => f.seat i .ended
      | n + 1 => if ok then { f with replicas := n }.seat i .idle else { f with replicas := n }
  | .opening, .raises _ _ => f.seat i .raised
  | .idle, .takes => f.take i
  | .working offset length moved, .puts data =>
      if data ≠ [] ∧ data.length ≤ min f.chunk (length - moved) then
        (f.put (offset + moved) data true).seat i (.working offset length (moved + data.length))
      else f
  | .working offset length moved, .leaves =>
      (f.done offset length moved).seat i (if moved < length then .closing else .idle)
  | .working offset length moved, .raises data counted =>
      if data.length ≤ min f.chunk (length - moved) then
        { f.put (offset + moved) data counted with stopped := true }.seat i (.failing offset length)
      else f
  | .failing offset length, .givesUp => (f.done offset length 0).seat i .raised
  | .closing, .closes ok => f.seat i (if ok then .opening else .raised)
  | _, _ => f

/-- A reader goes on, or `run_all` stops the others because one has raised. -/
inductive Step where
  | reader (i : Nat) (event : Event)
  | stop
  deriving DecidableEq

def step (f : Fetch) : Step → Fetch
  | .reader i event =>
      match f.readers[i]? with
      | some s => f.stepAt i s event
      | none => f
  | .stop => if .raised ∈ f.readers then { f with stopped := true } else f

def run (f : Fetch) (steps : List Step) : Fetch := steps.foldl step f

/-- `fetch` returns: every reader is back, and nothing is missing. -/
def result (f : Fetch) : Option Nat :=
  if (∀ s ∈ f.readers, s = .ended) ∧ f.size ≤ f.moved then some f.moved else none

end Fetch

/-- The size of a block. -/
def blockSize (size chunk block : Nat) (count : Int) : Nat :=
  (max (chunk : Int) (min (block : Int) ((size : Int).fdiv count))).toNat

/-- `_Blocks.__init__`. -/
def blocks (size block : Nat) : List (Nat × Nat) :=
  (List.range ((size + block - 1) / block)).map fun i => (i * block, min block (size - i * block))

/-- `fetch`, once the first of the replicas that opens has said how long the file is.  `left`
are the ones after it.  Nothing is fetched with no source, or in blocks of nothing. -/
def start (size chunk block : Nat) (sources : Int) (replicas left : Nat) : Option Fetch :=
  let count := min sources replicas
  if count = 0 ∨ blockSize size chunk block count = 0 then none
  else some {
    size, chunk
    replicas := left
    pending := blocks size (blockSize size chunk block count)
    readers := .idle :: List.replicate (count - 1).toNat .opening }

/-! ## Where every byte is -/

namespace Seat

/-- What a reader still has to write. -/
def held : Seat → Nat × Nat
  | .working offset length moved => (offset + moved, length - moved)
  | _ => (0, 0)

/-- It has a block, as a number. -/
def holds : Seat → Nat
  | .working _ _ _ => 1
  | .failing _ _ => 1
  | _ => 0

/-- It has raised, or is about to, as a number. -/
def fails : Seat → Nat
  | .failing _ _ => 1
  | .raised => 1
  | _ => 0

def Within : Seat → Prop
  | .working _ length moved => moved ≤ length
  | _ => True

end Seat

namespace Fetch

/-- How often a byte is pending, held by a reader, or written. -/
def pendingAt (f : Fetch) (p : Nat) : Nat := (f.pending.map (hits p)).sum

def heldAt (f : Fetch) (p : Nat) : Nat := (f.readers.map fun s => hits p s.held).sum

def writtenAt (f : Fetch) (p : Nat) : Nat := (f.written.map fun w => hits p (w.1, w.2.length)).sum

structure Kept (f : Fetch) : Prop where
  /-- Nothing is written twice, whatever happens. -/
  once : ∀ p, f.heldAt p + f.writtenAt p ≤ hits p (0, f.size)
  seated : f.readers ≠ []
  within : ∀ s ∈ f.readers, s.Within
  positive : ∀ b ∈ f.pending, 0 < b.2
  /-- A fetch that was stopped does not return. -/
  stopped : f.stopped = true → 0 < (f.readers.map Seat.fails).sum
  failing : f.stopped = false → ∀ offset length, .failing offset length ∉ f.readers
  /-- While it goes on, every byte is in one place. -/
  parts : f.stopped = false → ∀ p, f.pendingAt p + f.heldAt p + f.writtenAt p = hits p (0, f.size)
  moved : f.stopped = false →
    (f.pending.map Prod.snd).sum + (f.readers.map fun s => s.held.2).sum + f.moved = f.size
  busy : f.stopped = false → f.busy = (f.readers.map Seat.holds).sum
  /-- A reader ends when nothing can come back to it, or there is no replica left. -/
  ended : f.stopped = false → .ended ∈ f.readers → (f.pending = [] ∧ f.busy = 0) ∨ f.replicas = 0

variable {f g : Fetch} {i : Nat} {s s' : Seat}

theorem Kept.update (h : f.Kept) (hs : f.readers[i]? = some s) (hreaders : g.readers = f.readers.set i s')
    (hsize : g.size = f.size) (hwithin : s'.Within)
    (honce : g.stopped = true → ∀ p, hits p s'.held + g.writtenAt p ≤ hits p s.held + f.writtenAt p)
    (hpositive : ∀ b ∈ g.pending, b ∈ f.pending ∨ 0 < b.2)
    (hstopped : g.stopped = true → 0 < s'.fails ∨ f.stopped = true ∧ s.fails ≤ s'.fails)
    (hgoes : g.stopped = false → f.stopped = false ∧ (∀ offset length, s' ≠ .failing offset length) ∧
      (∀ p, g.pendingAt p + hits p s'.held + g.writtenAt p = f.pendingAt p + hits p s.held + f.writtenAt p) ∧
      (g.pending.map Prod.snd).sum + s'.held.2 + g.moved = (f.pending.map Prod.snd).sum + s.held.2 + f.moved ∧
      g.busy + s.holds = f.busy + s'.holds ∧
      ((f.pending = [] ∧ f.busy = 0) ∨ f.replicas = 0 → (g.pending = [] ∧ g.busy = 0) ∨ g.replicas = 0) ∧
      (s' = .ended → (g.pending = [] ∧ g.busy = 0) ∨ g.replicas = 0)) : g.Kept := by
  have hheld := fun p => sum_map_set_add (fun s => hits p s.held) hs s'
  have hmem := List.mem_of_getElem? hs
  refine ⟨fun p => ?_, ?_, fun t ht => ?_, fun b hb => ?_, fun hg => ?_, fun hg => ?_, fun hg p => ?_, fun hg => ?_, fun hg => ?_,
    fun hg he => ?_⟩
  · have hset := hheld p
    rw [hsize]
    cases hg : g.stopped with
    | true =>
      have hold := h.once p
      have hnew := honce hg p
      simp only [heldAt, hreaders] at hold ⊢
      omega
    | false =>
      obtain ⟨hf, -, hparts, -⟩ := hgoes hg
      have hold := h.parts hf p
      have hnew := hparts p
      simp only [heldAt, hreaders] at hold ⊢
      omega
  · rw [hreaders]
    exact fun hnil => h.seated (by simpa using hnil)
  · rw [hreaders] at ht
    rcases List.mem_or_eq_of_mem_set ht with ht | rfl
    · exact h.within t ht
    · exact hwithin
  · rcases hpositive b hb with hb | hb
    · exact h.positive b hb
    · exact hb
  · have hfails := sum_map_set_add Seat.fails hs s'
    rw [hreaders]
    rcases hstopped hg with hpos | ⟨hf, hle⟩
    · have hin : s.fails ≤ (f.readers.map Seat.fails).sum := le_sum_map Seat.fails hmem
      omega
    · have := h.stopped hf
      omega
  · obtain ⟨hf, hne, -⟩ := hgoes hg
    intro offset length hin
    rw [hreaders] at hin
    rcases List.mem_or_eq_of_mem_set hin with hin | heq
    · exact h.failing hf offset length hin
    · exact hne offset length heq.symm
  · obtain ⟨hf, -, hparts, -⟩ := hgoes hg
    have hold := h.parts hf p
    have hnew := hparts p
    have := hheld p
    rw [hsize]
    simp only [heldAt, hreaders] at hold ⊢
    omega
  · obtain ⟨hf, -, -, hmoved, -⟩ := hgoes hg
    have hold := h.moved hf
    have := sum_map_set_add (fun s => s.held.2) hs s'
    rw [hsize, hreaders]
    omega
  · obtain ⟨hf, -, -, -, hbusy, -⟩ := hgoes hg
    have hold := h.busy hf
    have := sum_map_set_add Seat.holds hs s'
    rw [hreaders]
    omega
  · obtain ⟨hf, -, -, -, -, hkeeps, hends⟩ := hgoes hg
    rw [hreaders] at he
    rcases List.mem_or_eq_of_mem_set he with he | heq
    · exact hkeeps (h.ended hf he)
    · exact hends heq.symm

/-- A reader changes its seat, and nothing else does: it has no block before or after. -/
theorem Kept.move (h : f.Kept) (hs : f.readers[i]? = some s) (hreaders : g.readers = f.readers.set i s')
    (hsame : (g.size, g.pending, g.busy, g.stopped, g.written, g.moved) = (f.size, f.pending, f.busy, f.stopped, f.written, f.moved))
    (hreplicas : f.replicas = 0 → g.replicas = 0)
    (hfree : s.holds = 0 ∧ s'.holds = 0) (hfails : s.fails ≤ s'.fails)
    (hended : s' = .ended → f.stopped = false → (f.pending = [] ∧ f.busy = 0) ∨ f.replicas = 0) : g.Kept := by
  simp only [Prod.mk.injEq] at hsame
  obtain ⟨hsize, hpending, hbusy, hstopped, hwritten, hmoved⟩ := hsame
  have hheld : s.held = (0, 0) ∧ s'.held = (0, 0) := by
    constructor
    · cases s <;> first | rfl | exact absurd hfree.1 Nat.one_ne_zero
    · cases s' <;> first | rfl | exact absurd hfree.2 Nat.one_ne_zero
  have hwithin : s'.Within := by
    cases s' <;> first | exact trivial | exact absurd hfree.2 Nat.one_ne_zero
  refine h.update hs hreaders hsize hwithin (fun _ p => ?_) (fun b hb => ?_) (fun hg => ?_) (fun hg => ⟨?_, ?_, fun p => ?_, ?_, ?_, ?_, ?_⟩)
  · rw [hheld.1, hheld.2]
    simp only [writtenAt, hwritten]
    exact Nat.le_refl _
  · rw [hpending] at hb
    exact .inl hb
  · rw [hstopped] at hg
    exact .inr ⟨hg, hfails⟩
  · rw [← hstopped]
    exact hg
  · intro offset length heq
    rw [heq] at hfree
    exact absurd hfree.2 Nat.one_ne_zero
  · rw [hheld.1, hheld.2]
    simp only [writtenAt, pendingAt, hwritten, hpending]
  · rw [hheld.1, hheld.2, hpending, hmoved]
  · rw [hfree.1, hfree.2, hbusy]
  · rw [hpending, hbusy]
    exact Or.imp id hreplicas
  · intro heq
    rw [hpending, hbusy]
    exact (hended heq (hstopped ▸ hg)).imp id hreplicas

theorem Kept.take (h : f.Kept) (hs : f.readers[i]? = some .idle) : (f.take i).Kept := by
  unfold Fetch.take
  split
  · exact h
  · rename_i hwait
    split
    · rename_i hstop
      exact h.move hs rfl rfl id ⟨rfl, rfl⟩ (Nat.le_refl _) fun _ hgo => by rw [hstop] at hgo; cases hgo
    · rename_i hstop
      split
      · rename_i hnone
        refine h.move hs rfl rfl id ⟨rfl, rfl⟩ (Nat.le_refl _) fun _ hgo => .inl ⟨hnone, ?_⟩
        by_contra hbusy
        exact hwait ⟨hnone, hbusy, hgo⟩
      · rename_i offset length rest hpending
        have hgo : f.stopped = false := by simpa using hstop
        have hgo' : ∀ hg : f.stopped = true, False := fun hg => by rw [hgo] at hg; cases hg
        refine h.update hs rfl rfl (Nat.zero_le _) (fun hg => (hgo' hg).elim) (fun b hb => .inl ?_) (fun hg => (hgo' hg).elim)
          (fun _ => ⟨hgo, ?_, fun p => ?_, ?_, rfl, ?_, ?_⟩)
        · rw [hpending]
          exact List.mem_cons_of_mem _ hb
        · intro o l heq
          cases heq
        · simp only [pendingAt, writtenAt, seat, hpending, List.map_cons, List.sum_cons, Seat.held, hits_none, Nat.add_zero, Nat.sub_zero]
          omega
        · simp only [seat, hpending, List.map_cons, List.sum_cons, Seat.held, Nat.sub_zero]
          omega
        · rintro (⟨hnone, -⟩ | hzero)
          · rw [hpending] at hnone
            cases hnone
          · exact .inr hzero
        · intro heq
          cases heq

theorem writtenAt_put (f : Fetch) (offset : Nat) (data : Bytes) (counted : Bool) (p : Nat) :
    (f.put offset data counted).writtenAt p = f.writtenAt p + hits p (offset, data.length) := by
  unfold put writtenAt
  simp only
  split
  · rename_i hnil
    rw [hnil]
    simp [hits]
  · simp

/-- A chunk of what a reader holds is one range, and the rest another. -/
theorem hits_held (p offset : Nat) {length moved n : Nat} (h : n ≤ length - moved) :
    hits p (offset + moved, n) + hits p (offset + (moved + n), length - (moved + n)) =
      hits p (offset + moved, length - moved) := by
  have happ := hits_append p (offset + moved) n (length - moved - n)
  rw [Nat.add_sub_cancel' h, Nat.add_assoc, Nat.sub_sub] at happ
  exact happ

theorem Kept.puts (h : f.Kept) {offset length moved : Nat} (hs : f.readers[i]? = some (.working offset length moved))
    {data : Bytes} (hlen : data.length ≤ length - moved) :
    ((f.put (offset + moved) data true).seat i (.working offset length (moved + data.length))).Kept := by
  have hwithin : moved ≤ length := h.within _ (List.mem_of_getElem? hs)
  have hhits := fun p => hits_held p offset hlen
  refine h.update hs rfl rfl (show moved + data.length ≤ length by omega) (fun _ p => ?_) (fun b hb => .inl hb)
    (fun hg => .inr ⟨hg, Nat.le_refl _⟩) (fun hg => ⟨hg, fun o l heq => (by cases heq), fun p => ?_, ?_, rfl, id, fun heq => (by cases heq)⟩)
  · have hput := writtenAt_put f (offset + moved) data true p
    have := hhits p
    simp only [Seat.held, seat, writtenAt] at hput ⊢
    omega
  · have hput := writtenAt_put f (offset + moved) data true p
    have := hhits p
    simp only [Seat.held, seat, writtenAt, pendingAt, put] at hput ⊢
    omega
  · simp only [Seat.held, seat, put, if_true]
    omega

theorem Kept.leaves (h : f.Kept) {offset length moved : Nat} (hs : f.readers[i]? = some (.working offset length moved)) :
    ((f.done offset length moved).seat i (if moved < length then .closing else .idle)).Kept := by
  have hbusy : f.stopped = false → 0 < f.busy := fun hg => by
    rw [h.busy hg]
    exact Nat.lt_of_lt_of_le Nat.one_pos (le_sum_map Seat.holds (List.mem_of_getElem? hs))
  have hseat : ∀ {s : Seat}, s = (if moved < length then .closing else .idle) → s.held = (0, 0) ∧ s.holds = 0 ∧ s.fails = 0 ∧ s.Within ∧ s ≠ .ended ∧
      ∀ o l, s ≠ .failing o l := by
    intro s hs
    subst hs
    split <;> exact ⟨rfl, rfl, rfl, trivial, fun heq => (by cases heq), fun o l heq => (by cases heq)⟩
  obtain ⟨hheld, hholds, hfails, hwithin, hne, hnf⟩ := hseat rfl
  refine h.update hs rfl rfl hwithin (fun _ p => ?_) (fun b hb => ?_) (fun hg => .inr ⟨hg, by rw [hfails]; exact Nat.le_refl _⟩)
    (fun hg => ⟨hg, hnf, fun p => ?_, ?_, ?_, ?_, fun heq => absurd heq hne⟩)
  · rw [hheld, hits_none]
    exact Nat.add_le_add_right (Nat.zero_le _) _
  · simp only [seat, done] at hb
    split at hb
    · rcases List.mem_cons.mp hb with rfl | hb
      · exact .inr (by simp only; omega)
      · exact .inl hb
    · exact .inl hb
  · rw [hheld, hits_none]
    simp only [pendingAt, writtenAt, seat, done, Seat.held]
    split
    · rw [List.map_cons, List.sum_cons]
      omega
    · rename_i hfull
      have hempty : hits p (offset + moved, length - moved) = 0 := by
        rw [Nat.sub_eq_zero_of_le (by omega)]
        simp [hits]
      rw [hempty]
  · rw [hheld]
    simp only [seat, done, Seat.held]
    split
    · rw [List.map_cons, List.sum_cons]
      simp only
      omega
    · omega
  · have := hbusy hg
    rw [hholds]
    simp only [seat, done, Seat.holds]
    omega
  · rintro (⟨-, hzero⟩ | hzero)
    · have := hbusy hg
      omega
    · exact .inr hzero

/-- A reader that raises stops the fetch first, so that nobody takes what it gives back. -/
theorem Kept.raises (h : f.Kept) {offset length moved : Nat} (hs : f.readers[i]? = some (.working offset length moved))
    {data : Bytes} (hlen : data.length ≤ length - moved) (counted : Bool) :
    (Fetch.seat { f.put (offset + moved) data counted with stopped := true } i (.failing offset length)).Kept := by
  refine h.update hs rfl rfl trivial (fun _ p => ?_) (fun b hb => .inl hb) (fun _ => .inl Nat.one_pos) (fun hg => by cases hg)
  have hput := writtenAt_put f (offset + moved) data counted p
  have hhits := hits_held p offset hlen
  simp only [Seat.held, hits_none, seat, writtenAt] at hput ⊢
  omega

theorem Kept.givesUp (h : f.Kept) {offset length : Nat} (hs : f.readers[i]? = some (.failing offset length)) :
    ((f.done offset length 0).seat i .raised).Kept := by
  have hstopped : f.stopped = true := by
    by_contra hgo
    exact h.failing (by simpa using hgo) offset length (List.mem_of_getElem? hs)
  refine h.update hs rfl rfl trivial (fun _ p => Nat.le_refl _) (fun b hb => ?_) (fun _ => .inl Nat.one_pos)
    (fun hg => by simp only [seat, done, hstopped] at hg; cases hg)
  simp only [seat, done] at hb
  split at hb
  · rcases List.mem_cons.mp hb with rfl | hb
    · exact .inr (by simp only; omega)
    · exact .inl hb
  · exact .inl hb

theorem Kept.stepAt (h : f.Kept) (hs : f.readers[i]? = some s) (event : Event) : (f.stepAt i s event).Kept := by
  unfold Fetch.stepAt
  split
  · rename_i ok
    split
    · rename_i hnone
      exact h.move hs rfl rfl id ⟨rfl, rfl⟩ (Nat.le_refl _) fun _ _ => .inr hnone
    · rename_i n hsome
      have hnz : f.replicas = 0 → n = 0 := fun hzero => by omega
      split
      · exact h.move hs rfl rfl hnz ⟨rfl, rfl⟩ (Nat.le_refl _) fun heq => by cases heq
      · exact ⟨h.once, h.seated, h.within, h.positive, h.stopped, h.failing, h.parts, h.moved, h.busy,
          fun hg he => (h.ended hg he).imp id hnz⟩
  · exact h.move hs rfl rfl id ⟨rfl, rfl⟩ (Nat.zero_le _) fun heq => by cases heq
  · exact h.take hs
  · split
    · rename_i hdata
      exact h.puts hs (Nat.le_trans hdata.2 (Nat.min_le_right _ _))
    · exact h
  · exact h.leaves hs
  · split
    · rename_i hdata
      exact h.raises hs (Nat.le_trans hdata (Nat.min_le_right _ _)) _
    · exact h
  · exact h.givesUp hs
  · rename_i ok
    cases ok with
    | true => exact h.move hs rfl rfl id ⟨rfl, rfl⟩ (Nat.le_refl _) fun heq => by cases heq
    | false => exact h.move hs rfl rfl id ⟨rfl, rfl⟩ (Nat.zero_le _) fun heq => by cases heq
  · exact h

theorem Kept.step (h : f.Kept) (s : Step) : (f.step s).Kept := by
  unfold Fetch.step
  split
  · split
    · exact h.stepAt (by assumption) _
    · exact h
  · split
    · rename_i hraised
      refine ⟨h.once, h.seated, h.within, h.positive, fun _ => ?_, fun hg => (by cases hg), fun hg => (by cases hg), fun hg => (by cases hg), fun hg => (by cases hg),
        fun hg => (by cases hg)⟩
      exact Nat.lt_of_lt_of_le Nat.one_pos (le_sum_map Seat.fails hraised)
    · exact h

theorem Kept.run (h : f.Kept) (steps : List Step) : (f.run steps).Kept := by
  induction steps generalizing f with
  | nil => exact h
  | cons s steps ih => exact ih (h.step s)

theorem step_size (f : Fetch) (s : Step) : (f.step s).size = f.size := by
  unfold Fetch.step
  split
  · split
    · unfold Fetch.stepAt
      split
      · split
        · rfl
        · split <;> rfl
      · rfl
      · unfold Fetch.take
        split
        · rfl
        · split
          · rfl
          · split <;> rfl
      · split <;> rfl
      · rfl
      · split <;> rfl
      · rfl
      · rfl
      · rfl
    · rfl
  · split <;> rfl

theorem run_size (f : Fetch) (steps : List Step) : (f.run steps).size = f.size := by
  induction steps generalizing f with
  | nil => rfl
  | cons s steps ih => exact (ih (f.step s)).trans (step_size f s)

/-- Every reader is back, without having raised. -/
def Over (f : Fetch) : Prop := ∀ s ∈ f.readers, s = .ended

theorem Kept.finished (h : f.Kept) (hover : f.Over) : f.stopped = false ∧ (∀ p, f.heldAt p = 0) ∧
    (f.readers.map fun s => s.held.2).sum = 0 := by
  refine ⟨?_, fun p => ?_, ?_⟩
  · by_contra hstop
    have hpos := h.stopped (by simpa using hstop)
    have hzero : (f.readers.map Seat.fails).sum = 0 := sum_map_zero fun s hs => by rw [hover s hs]; rfl
    omega
  · exact sum_map_zero fun s hs => by rw [hover s hs]; exact hits_none p
  · exact sum_map_zero fun s hs => by rw [hover s hs]; rfl

/-- Every byte was written. -/
def Whole (f : Fetch) : Prop := ∀ p < f.size, f.writtenAt p = 1

theorem hits_zero {p n : Nat} (h : p < n) : hits p (0, n) = 1 := if_pos ⟨Nat.zero_le _, by simpa using h⟩

/-- Nothing is pending when every byte was written, and the other way round. -/
theorem Kept.whole_iff (h : f.Kept) (hover : f.Over) : f.Whole ↔ f.pending = [] := by
  obtain ⟨hgo, hheld, -⟩ := h.finished hover
  constructor
  · intro hwhole
    by_contra hpending
    obtain ⟨b, hb⟩ := List.exists_mem_of_ne_nil _ hpending
    have hpos := h.positive b hb
    have hparts := h.parts hgo b.1
    have hin : 1 ≤ f.pendingAt b.1 := by
      have hle := le_sum_map (hits b.1) hb
      have hself : hits b.1 b = 1 := if_pos ⟨Nat.le_refl _, by omega⟩
      rw [hself] at hle
      exact hle
    have hsize : b.1 < f.size := by
      by_contra hout
      have hzero : hits b.1 (0, f.size) = 0 := if_neg fun hin => hout (by simpa using hin.2)
      omega
    have hone := hwhole b.1 hsize
    rw [hits_zero hsize] at hparts
    omega
  · intro hnone p hp
    have hparts := h.parts hgo p
    rw [hheld p, hits_zero hp, pendingAt, hnone] at hparts
    simpa using hparts

theorem Kept.result_iff (h : f.Kept) (hover : f.Over) : f.result = some f.size ↔ f.Whole := by
  obtain ⟨hgo, -, hheld⟩ := h.finished hover
  have hmoved := h.moved hgo
  rw [hheld] at hmoved
  rw [h.whole_iff hover]
  constructor
  · intro hresult
    by_contra hpending
    obtain ⟨b, hb⟩ := List.exists_mem_of_ne_nil _ hpending
    have hpos := h.positive b hb
    have hle := le_sum_map Prod.snd hb
    unfold result at hresult
    split at hresult
    · omega
    · cases hresult
  · intro hnone
    rw [hnone] at hmoved
    have heq : f.moved = f.size := by simpa using hmoved
    rw [result, if_pos ⟨hover, Nat.le_of_eq heq.symm⟩, heq]

/-- A fetch that does not return has tried every replica. -/
theorem Kept.exhausted (h : f.Kept) (hover : f.Over) (hresult : f.result ≠ some f.size) :
    f.replicas = 0 := by
  obtain ⟨hgo, -⟩ := h.finished hover
  obtain ⟨s, hs⟩ := List.exists_mem_of_ne_nil _ h.seated
  rcases h.ended hgo (hover s hs ▸ hs) with ⟨hnone, -⟩ | hzero
  · exact absurd ((h.result_iff hover).mpr ((h.whole_iff hover).mpr hnone)) hresult
  · exact hzero

end Fetch

theorem start_kept {size chunk block : Nat} {sources : Int} {replicas left : Nat} {f : Fetch}
    (hstart : start size chunk block sources replicas left = some f) : f.Kept := by
  unfold start at hstart
  simp only at hstart
  split at hstart
  · cases hstart
  · rename_i hcount
    obtain rfl := Option.some.inj hstart
    generalize (min sources (replicas : Int) - 1).toNat = more
    generalize hstep : blockSize size chunk block (min sources (replicas : Int)) = step at hcount
    have hchain : Chain 0 (blocks size step) size := chain_cut size (Nat.pos_of_ne_zero fun hzero => hcount (.inr hzero))
    have hseats : ∀ s ∈ Seat.idle :: List.replicate more Seat.opening, s = .idle ∨ s = .opening := by
      intro s hs
      rcases List.mem_cons.mp hs with rfl | hs
      · exact .inl rfl
      · exact .inr (List.eq_of_mem_replicate hs)
    have hnone : ∀ g : Seat → Nat, g .idle = 0 → g .opening = 0 →
        ((Seat.idle :: List.replicate more Seat.opening).map g).sum = 0 := fun g hidle hopening =>
      sum_map_zero fun s hs => by rcases hseats s hs with rfl | rfl <;> assumption
    refine ⟨fun p => ?_, List.cons_ne_nil _ _, fun s hs => ?_, hchain.pos, fun hg => (by cases hg), fun _ offset length hin => ?_, fun _ p => ?_, fun _ => ?_, fun _ => ?_,
      fun _ hin => ?_⟩
    · rw [Fetch.heldAt, hnone _ (hits_none p) (hits_none p)]
      exact Nat.zero_le _
    · rcases hseats s hs with rfl | rfl <;> exact trivial
    · rcases hseats _ hin with heq | heq <;> cases heq
    · rw [Fetch.heldAt, hnone _ (hits_none p) (hits_none p)]
      exact hchain.sums.2 p
    · rw [hnone _ rfl rfl]
      have hsum := hchain.sums.1
      simp only
      omega
    · exact (hnone _ rfl rfl).symm
    · rcases hseats _ hin with heq | heq <;> cases heq

theorem start_size {size chunk block : Nat} {sources : Int} {replicas left : Nat} {f : Fetch}
    (hstart : start size chunk block sources replicas left = some f) : f.size = size := by
  unfold start at hstart
  simp only at hstart
  split at hstart
  · cases hstart
  · obtain rfl := Option.some.inj hstart
    rfl

namespace Fetch

/-- What an idle reader meets while the fetch goes on: it is given a block, or it waits for another
that has one, or it ends, and every byte is written. -/
def Waits (g : Fetch) : Prop :=
  ∀ j, g.readers[j]? = some .idle →
    (∃ offset length rest, g.pending = (offset, length) :: rest ∧
      (g.step (.reader j .takes)).readers[j]? = some (.working offset length 0)) ∨
    (g.step (.reader j .takes) = g ∧
      ∃ i offset length moved, i ≠ j ∧ g.readers[i]? = some (.working offset length moved)) ∨
    ((g.step (.reader j .takes)).readers[j]? = some .ended ∧ g.Whole)

/-- What a reader leaves of its block is the next one's that takes. -/
def TakesOver (g : Fetch) : Prop :=
  ∀ i j offset length moved, g.readers[i]? = some (.working offset length moved) → moved < length →
    g.readers[j]? = some .idle →
    ((g.step (.reader i .leaves)).step (.reader j .takes)).readers[j]? =
      some (.working (offset + moved) (length - moved) 0)

variable {f g : Fetch} {i : Nat}

theorem step_reader {s : Seat} (hs : f.readers[i]? = some s) (event : Event) :
    f.step (.reader i event) = f.stepAt i s event := by
  rw [step, hs]

theorem seat_self {s t : Seat} (hs : f.readers[i]? = some s) (hreaders : g.readers = f.readers) :
    (g.seat i t).readers[i]? = some t := by
  have hlt := List.getElem?_eq_some_iff.mp hs
  rw [seat, hreaders]
  exact List.getElem?_set_self hlt.1

theorem take_given {s : Seat} {offset length : Nat} {rest : List (Nat × Nat)} (hs : f.readers[i]? = some s)
    (hgo : f.stopped = false) (hpending : f.pending = (offset, length) :: rest) :
    (f.take i).readers[i]? = some (.working offset length 0) := by
  have htake : f.take i = Fetch.seat { f with busy := f.busy + 1, pending := rest } i (.working offset length 0) := by
    simp [take, hpending, hgo]
  exact (congrArg (·.readers[i]?) htake).trans (seat_self hs rfl)

/-- Whoever has a block is working on it, while nobody has raised. -/
theorem Kept.working (h : f.Kept) (hgo : f.stopped = false) (hbusy : f.busy ≠ 0) :
    ∃ offset length moved, .working offset length moved ∈ f.readers := by
  by_contra hnone
  refine hbusy ((h.busy hgo).trans (sum_map_zero fun s hs => ?_))
  cases s with
  | working offset length moved => exact absurd ⟨offset, length, moved, hs⟩ hnone
  | failing offset length => exact absurd hs (h.failing hgo offset length)
  | opening | idle | closing | ended | raised => rfl

/-- With nothing pending and nobody at work, everything is written. -/
theorem Kept.whole (h : f.Kept) (hgo : f.stopped = false) (hpending : f.pending = []) (hbusy : f.busy = 0) :
    f.Whole := by
  intro p hp
  have hheld : f.heldAt p = 0 := by
    refine sum_map_zero fun s hs => ?_
    have hholds : s.holds ≤ (f.readers.map Seat.holds).sum := le_sum_map Seat.holds hs
    have := h.busy hgo
    cases s with
    | working offset length moved =>
      simp only [Seat.holds] at hholds
      omega
    | opening | idle | closing | failing | ended | raised => exact hits_none p
  have hparts := h.parts hgo p
  rw [hheld, hits_zero hp, pendingAt, hpending] at hparts
  simpa using hparts

theorem Kept.waits (h : f.Kept) (hgo : f.stopped = false) : f.Waits := by
  intro j hj
  rw [step_reader hj]
  cases hpending : f.pending with
  | cons block rest =>
    exact .inl ⟨block.1, block.2, rest, rfl, take_given hj hgo hpending⟩
  | nil =>
    by_cases hbusy : f.busy = 0
    · have htake : f.take j = f.seat j .ended := by simp [Fetch.take, hpending, hgo, hbusy]
      exact .inr (.inr ⟨(congrArg (·.readers[j]?) htake).trans (seat_self hj rfl), h.whole hgo hpending hbusy⟩)
    · obtain ⟨offset, length, moved, hmem⟩ := h.working hgo hbusy
      obtain ⟨i, hi⟩ := List.getElem?_of_mem hmem
      refine .inr (.inl ⟨if_pos ⟨hpending, hbusy, hgo⟩, i, offset, length, moved, ?_, hi⟩)
      rintro rfl
      rw [hj] at hi
      cases hi

theorem takesOver (hgo : f.stopped = false) : f.TakesOver := by
  intro i j offset length moved hi hlt hj
  have hne : i ≠ j := by
    rintro rfl
    rw [hj] at hi
    cases hi
  rw [step_reader hi]
  simp only [stepAt, if_pos hlt]
  have hidle : ((f.done offset length moved).seat i .closing).readers[j]? = some .idle := by
    rw [seat, List.getElem?_set_ne hne]
    exact hj
  rw [step_reader hidle]
  have hpending : ((f.done offset length moved).seat i .closing).pending = (offset + moved, length - moved) :: f.pending :=
    if_pos hlt
  exact take_given hidle hgo hpending

end Fetch

/-- Whatever the readers meet, and in whatever order. -/
theorem blocks_accounted {size chunk block : Nat} {sources : Int} {replicas left : Nat} {f : Fetch}
    (hstart : start size chunk block sources replicas left = some f) (steps : List Fetch.Step) :
    ((f.run steps).stopped = false → ∀ p,
      (f.run steps).pendingAt p + (f.run steps).heldAt p + (f.run steps).writtenAt p = hits p (0, size)) ∧
    (∀ p, (f.run steps).writtenAt p ≤ hits p (0, size)) ∧
    ((f.run steps).stopped = false → (f.run steps).busy ≠ 0 →
      ∃ offset length moved, .working offset length moved ∈ (f.run steps).readers) ∧
    ((f.run steps).Over → ((f.run steps).result = some size ↔ ∀ p < size, (f.run steps).writtenAt p = 1)) ∧
    (∀ n, (f.run steps).result = some n → n = size ∧ ∀ p < size, (f.run steps).writtenAt p = 1) ∧
    ((f.run steps).Over → (f.run steps).result ≠ some size → (f.run steps).replicas = 0) ∧
    ((f.run steps).stopped = false → (f.run steps).Waits ∧ (f.run steps).TakesOver) := by
  have hkept := (start_kept hstart).run steps
  have hsize : (f.run steps).size = size := (Fetch.run_size f steps).trans (start_size hstart)
  generalize f.run steps = g at hkept hsize ⊢
  subst hsize
  refine ⟨hkept.parts, fun p => ?_, hkept.working, hkept.result_iff, fun n hresult => ?_, hkept.exhausted,
    fun hgo => ⟨hkept.waits hgo, Fetch.takesOver hgo⟩⟩
  · have := hkept.once p
    omega
  · have hover : g.Over := by
      unfold Fetch.result at hresult
      split at hresult
      · rename_i hback
        exact hback.1
      · cases hresult
    obtain ⟨hgo, -, hheld⟩ := hkept.finished hover
    have hmoved := hkept.moved hgo
    have heq : n = g.size := by
      unfold Fetch.result at hresult
      split at hresult
      · obtain rfl := Option.some.inj hresult
        omega
      · cases hresult
    subst heq
    exact ⟨rfl, (hkept.result_iff hover).mp hresult⟩

/-- The first server fails inside its block, and the second one writes the rest of it. -/
theorem blocks_accounted_taken_over :
    ∃ f steps, start 4 2 2 2 3 2 = some f ∧ (f.run steps).result = some 4 ∧
      ∀ p < 4, (f.run steps).writtenAt p = 1 := by
  let steps : List Fetch.Step := [.reader 0 .takes, .reader 1 (.opens true), .reader 1 .takes, .reader 0 (.puts [1]),
    .reader 0 .leaves, .reader 1 (.puts [3, 4]), .reader 1 .leaves, .reader 1 .takes, .reader 0 (.closes true),
    .reader 1 (.puts [2]), .reader 0 (.opens true), .reader 0 .takes, .reader 1 .leaves, .reader 1 .takes, .reader 0 .takes]
  obtain ⟨f, hf⟩ : ∃ f, start 4 2 2 2 3 2 = some f := ⟨_, rfl⟩
  have hresult : (f.run steps).result = some 4 := by
    obtain rfl := Option.some.inj hf
    decide
  exact ⟨f, steps, hf, hresult, ((blocks_accounted hf steps).2.2.2.2.1 4 hresult).2⟩

end XrdClient.Copy.Replicas
