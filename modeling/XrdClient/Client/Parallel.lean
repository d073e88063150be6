/-
  Client/Parallel.lean --- what several workers leave is the file.

  A worker's reader is `At` the first byte that the worker has not delivered, or past the
  end of the source, where it hands over nothing more.  So what a worker has delivered is
  its span from the start, however often it began again, and what all of them have
  delivered is what was counted.
-/
import XrdClient.Client.Fanout
import XrdClient.Lib.Ranges

set_option autoImplicit false

namespace XrdClient.Client

open XrdClient.Lib
open XrdClient.Proto

/-! ## The reader's place -/

namespace Reading

/-- The next piece starts at `pos`, or there is none because the source ends there. -/
structure At (source : Bytes) (pos limit : Nat) (r : Reading) : Prop where
  chunk : 0 < r.chunk
  stop : r.stop ≤ limit
  place : (Chain pos r.issued r.offset ∧ r.offset ≤ r.stop) ∨
    (source.length ≤ pos ∧ r.stop ≤ r.offset ∧ ∀ e ∈ r.issued, source.length ≤ e.1)

variable {source : Bytes} {pos limit : Nat} {r : Reading}

theorem At.fill (h : At source pos limit r) (slots : Nat) : At source pos limit (r.fill slots) := by
  induction slots generalizing r with
  | zero => exact h
  | succ slots ih =>
    rw [Reading.fill]
    split
    · rename_i hlt
      refine ih ⟨h.chunk, h.stop, ?_⟩
      rcases h.place with ⟨hchain, hle⟩ | ⟨-, hstop, -⟩
      · have hchunk := h.chunk
        refine .inl ⟨hchain.concat (by omega), ?_⟩
        simp only
        omega
      · omega
    · exact h

/-- What a turn of the loop hands over. -/
theorem At.turn (h : At source pos limit r) {piece : Option (Nat × Bytes)} {r' : Reading}
    (hturn : r.turn source = some (piece, r')) :
    (piece = none ∧ At source pos limit r') ∨
      ∃ data, piece = some (pos, data) ∧ data = slice source pos data.length ∧ data ≠ [] ∧
        pos + data.length ≤ limit ∧ At source (pos + data.length) limit r' := by
  have hfill := h.fill (r.depth - r.issued.length)
  unfold Reading.turn at hturn
  generalize r.fill (r.depth - r.issued.length) = r at hfill hturn
  simp only at hturn
  cases hissued : r.issued with
  | nil => simp [hissued] at hturn
  | cons e rest =>
    obtain ⟨offset, length⟩ := e
    simp only [hissued, Option.some.injEq, Prod.mk.injEq] at hturn
    obtain ⟨rfl, rfl⟩ := hturn
    have hlen := length_slice source offset length
    have hself : slice source offset length = slice source offset (slice source offset length).length := by
      rw [hlen]
      exact List.take_eq_take_iff.mpr (by rw [List.length_drop]; omega)
    rcases hfill.place with ⟨hchain, hle⟩ | ⟨hend, hstop, hall⟩
    · rw [hissued] at hchain
      obtain ⟨rfl, hpos, hrest⟩ := hchain
      have hreach := hrest.le
      have hstop := hfill.stop
      by_cases hnil : slice source offset length = []
      · refine .inl ⟨by rw [if_pos hnil], ?_⟩
        rw [hnil] at hlen ⊢
        simp only [List.length_nil] at hlen
        rw [if_pos (by simpa using hpos)]
        refine ⟨hfill.chunk, by simp only; omega, .inr ⟨by omega, by simp only [List.length_nil]; omega, fun e he => ?_⟩⟩
        have := hreach.2 e he
        omega
      · refine .inr ⟨slice source offset length, by rw [if_neg hnil], hself, hnil, by omega, ?_⟩
        split
        · rename_i hshort
          refine ⟨hfill.chunk, by simp only; omega, .inr ⟨by omega, by simp only; omega, fun e he => ?_⟩⟩
          have := hreach.2 e he
          omega
        · rename_i hfull
          have heq : (slice source offset length).length = length := by omega
          rw [heq]
          exact ⟨hfill.chunk, hstop, .inl ⟨hrest, hle⟩⟩
    · -- past the end of the source there is nothing to hand over
      rw [hissued] at hall
      have hoff := hall (offset, length) (by simp)
      have hnil : slice source offset length = [] := List.eq_nil_of_length_eq_zero (by simp only at hoff; omega)
      refine .inl ⟨by rw [if_pos hnil], ?_⟩
      have hrest : ∀ e ∈ rest, source.length ≤ e.1 := fun e he => hall e (by simp [he])
      have hstop' := hfill.stop
      split
      · exact ⟨hfill.chunk, by simp only; omega, .inr ⟨hend, by simp only; omega, hrest⟩⟩
      · exact ⟨hfill.chunk, hstop', .inr ⟨hend, hstop, hrest⟩⟩

end Reading

/-! ## One worker -/

namespace Worker

/-- The piece that is not counted yet. -/
def uncounted (w : Worker) : Nat × Nat :=
  match w.stage with
  | .landed _ offset count => (offset, count)
  | _ => (0, 0)

/-- What it has delivered. -/
def delivered (w : Worker) : Nat × Nat := (w.start, w.done)

/-- A worker is where its bytes are. -/
structure Ok (source : Bytes) (w : Worker) : Prop where
  within : w.done ≤ w.length
  inside : w.done = 0 ∨ w.start + w.done ≤ source.length
  reading : ∀ r, w.stage = .reading r → r.At source (w.start + w.done) (w.start + w.length)
  holding : ∀ r offset data, w.stage = .holding r offset data →
    offset = w.start + w.done ∧ data = slice source offset data.length ∧ data ≠ [] ∧
      offset + data.length ≤ w.start + w.length ∧ r.At source (offset + data.length) (w.start + w.length)
  landed : ∀ r offset count, w.stage = .landed r offset count →
    offset + count = w.start + w.done ∧ count ≤ w.done ∧ r.At source (w.start + w.done) (w.start + w.length)

variable {source : Bytes} {w : Worker}

/-- A worker that is not under way. -/
theorem Ok.resting (h : w.Ok source) (chunk : Int) {stage : Stage}
    (hstage : stage = .opening ∨ stage = .returned ∨ stage = .raised) :
    Ok source { w with chunk, stage } := by
  refine ⟨h.within, h.inside, ?_, ?_, ?_⟩
  all_goals
    intros
    rename_i heq
    rcases hstage with rfl | rfl | rfl <;> cases heq

end Worker

namespace Fanout

/-- The pieces that the writer took follow one another and are the source's. -/
def InOrder (source : Bytes) : Nat → List (Nat × Bytes) → Nat → Prop
  | pos, [], stop => pos = stop
  | pos, (offset, data) :: rest, stop =>
      offset = pos ∧ data = slice source offset data.length ∧ data ≠ [] ∧ InOrder source (pos + data.length) rest stop

theorem InOrder.concat {source : Bytes} {pos stop : Nat} {taken : List (Nat × Bytes)} (h : InOrder source pos taken stop)
    {data : Bytes} (hdata : data = slice source stop data.length) (hne : data ≠ []) :
    InOrder source pos (taken ++ [(stop, data)]) (stop + data.length) := by
  induction taken generalizing pos with
  | nil =>
    obtain rfl : pos = stop := h
    exact ⟨rfl, hdata, hne, rfl⟩
  | cons e rest ih =>
    obtain ⟨offset, piece⟩ := e
    obtain ⟨rfl, hpiece, hpne, hrest⟩ := h
    exact ⟨rfl, hpiece, hpne, ih hrest⟩

/-- The counts agree with what the workers have delivered, and so does the destination. -/
structure Sound (layout : List (Nat × Nat)) (f : Fanout) : Prop where
  layout : f.workers.map (fun w => (w.start, w.length)) = layout
  workers : ∀ w ∈ f.workers, w.Ok f.source
  moved : f.moved + (f.workers.map fun w => w.uncounted.2).sum = (f.workers.map Worker.done).sum
  counted : ∀ p, (f.counted.map (hits p)).sum + (f.workers.map fun w => hits p w.uncounted).sum =
    (f.workers.map fun w => hits p w.delivered).sum
  placed : f.ordered = false → ∀ w ∈ f.workers, ∀ k < w.done, f.dest[w.start + k]? = f.source[w.start + k]?
  inOrder : f.ordered = true → InOrder f.source 0 f.taken f.cursor ∧ f.cursor = (f.workers.map Worker.done).sum

variable {layout : List (Nat × Nat)} {f g : Fanout} {i : Nat} {w w' : Worker}

/-- One worker goes on, and everything it is accountable for with it. -/
theorem Sound.update (h : f.Sound layout) (hw : f.workers[i]? = some w) (hg : g.workers = f.workers.set i w')
    (hspan : (w'.start, w'.length) = (w.start, w.length)) (hsource : g.source = f.source) (hordered : g.ordered = f.ordered)
    (hok : w'.Ok f.source)
    (hmoved : g.moved + w'.uncounted.2 + w.done = f.moved + w.uncounted.2 + w'.done)
    (hcounted : ∀ p, (g.counted.map (hits p)).sum + hits p w'.uncounted + hits p w.delivered =
      (f.counted.map (hits p)).sum + hits p w.uncounted + hits p w'.delivered)
    (hkeeps : f.ordered = false → ∀ p : Nat, f.dest[p]? = f.source[p]? → g.dest[p]? = f.source[p]?)
    (hplaced : f.ordered = false → ∀ k < w'.done, w.done ≤ k → g.dest[w.start + k]? = f.source[w.start + k]?)
    (hinOrder : f.ordered = true → InOrder f.source 0 f.taken f.cursor →
      InOrder f.source 0 g.taken g.cursor ∧ g.cursor + w.done = f.cursor + w'.done) : g.Sound layout := by
  have hmem := List.mem_of_getElem? hw
  have hdone := sum_map_set_add Worker.done hw w'
  refine ⟨?_, ?_, ?_, fun p => ?_, ?_, ?_⟩
  · rw [hg, List.map_set, ← h.layout]
    refine List.ext_getElem? fun j => ?_
    rw [List.getElem?_set]
    split
    · rename_i hij
      subst hij
      obtain ⟨hlt, hget⟩ := List.getElem?_eq_some_iff.mp hw
      rw [if_pos (by simpa using hlt), List.getElem?_map, hw, hspan]
      rfl
    · rfl
  · intro v hv
    rw [hg] at hv
    rw [hsource]
    rcases List.mem_or_eq_of_mem_set hv with hv | rfl
    · exact h.workers v hv
    · exact hok
  · have hun := sum_map_set_add (fun w => w.uncounted.2) hw w'
    have hold := h.moved
    rw [hg]
    omega
  · have hun := sum_map_set_add (fun w => hits p w.uncounted) hw w'
    have hdel := sum_map_set_add (fun w => hits p w.delivered) hw w'
    have hold := h.counted p
    have hnew := hcounted p
    rw [hg]
    omega
  · intro hord v hv k hk
    rw [hordered] at hord
    rw [hg] at hv
    rw [hsource]
    rcases List.mem_or_eq_of_mem_set hv with hv | rfl
    · exact hkeeps hord _ (h.placed hord v hv k hk)
    · have hstart : v.start = w.start := (Prod.mk.inj hspan).1
      rw [hstart]
      by_cases hold : k < w.done
      · exact hkeeps hord _ (h.placed hord w hmem k hold)
      · exact hplaced hord k hk (by omega)
  · intro hord
    rw [hordered] at hord
    obtain ⟨horder, hcursor⟩ := h.inOrder hord
    obtain ⟨horder', hcursor'⟩ := hinOrder hord horder
    rw [hsource, hg]
    exact ⟨horder', by omega⟩

/-- A worker changes its stage: what it has delivered is counted, now or before. -/
theorem Sound.turn (h : f.Sound layout) (hw : f.workers[i]? = some w) (hg : g.workers = f.workers.set i w')
    (hdone : w'.delivered = w.delivered) (hlength : w'.length = w.length) (hok : w'.Ok f.source)
    (hun : w'.uncounted = (0, 0)) (hrest : (g.source, g.ordered, g.dest, g.taken, g.cursor) = (f.source, f.ordered, f.dest, f.taken, f.cursor))
    (hcount : g.moved = f.moved + w.uncounted.2 ∧ ∀ p, (g.counted.map (hits p)).sum = (f.counted.map (hits p)).sum + hits p w.uncounted) :
    g.Sound layout := by
  simp only [Prod.mk.injEq] at hrest
  obtain ⟨hsource, hordered, hdest, htaken, hcursor⟩ := hrest
  obtain ⟨hstart, hd⟩ := Prod.mk.inj hdone
  refine h.update hw hg (by rw [hstart, hlength]) hsource hordered hok ?_ ?_ ?_ ?_ ?_
  · rw [hun, hd, hcount.1]
    rfl
  · intro p
    rw [hun, hdone, hcount.2 p, hits_none, Nat.add_zero]
  · intro _ p hp
    rw [hdest]
    exact hp
  · intro _ k hk hle
    omega
  · intro _ horder
    rw [htaken, hcursor, hd]
    exact ⟨horder, rfl⟩

theorem sum_counted_concat (counted : List (Nat × Nat)) (range : Nat × Nat) (p : Nat) :
    ((counted ++ [range]).map (hits p)).sum = (counted.map (hits p)).sum + hits p range := by
  simp

theorem Sound.put (h : f.Sound layout) (hw : f.workers[i]? = some w) (hdone : w'.delivered = w.delivered)
    (hlength : w'.length = w.length) (hok : w'.Ok f.source) (hun : w'.uncounted = (0, 0)) (hun' : w.uncounted = (0, 0)) :
    (f.put i w').Sound layout :=
  h.turn hw rfl hdone hlength hok hun rfl ⟨by rw [hun']; rfl, fun p => by rw [hun', hits_none]; rfl⟩

theorem Sound.raise (h : f.Sound layout) (hw : f.workers[i]? = some w) (hun : w.uncounted = (0, 0)) :
    (f.put i { w with stage := .raised }).Sound layout :=
  h.put hw rfl rfl ((h.workers w (List.mem_of_getElem? hw)).resting w.chunk (.inr (.inr rfl))) rfl hun

theorem Sound.recover (h : f.Sound layout) (hw : f.workers[i]? = some w) (hun : w.uncounted = (0, 0)) (again : Bool) :
    (f.recover i w again).Sound layout := by
  have hok := h.workers w (List.mem_of_getElem? hw)
  unfold Fanout.recover
  simp only
  split
  · exact h.turn hw rfl rfl rfl (hok.resting _ (.inl rfl)) rfl rfl
      ⟨by rw [hun]; rfl, fun p => by rw [hun, hits_none]; rfl⟩
  · exact h.turn hw rfl rfl rfl (hok.resting _ (.inr (.inr rfl))) rfl rfl
      ⟨by rw [hun]; rfl, fun p => by rw [hun, hits_none]; rfl⟩

theorem Sound.consume (h : f.Sound layout) (hw : f.workers[i]? = some w) {r : Reading} {offset : Nat} {data : Bytes}
    (hstage : w.stage = .holding r offset data) (took : Took) : (f.consume i w r offset data took).Sound layout := by
  have hok := h.workers w (List.mem_of_getElem? hw)
  obtain ⟨rfl, hdata, hne, hlimit, hat⟩ := hok.holding r offset data hstage
  have hun : w.uncounted = (0, 0) := by simp [Worker.uncounted, hstage]
  have hlen := List.length_pos_iff.mpr hne
  have hsource : w.start + w.done + data.length ≤ f.source.length := by
    have hslice := length_slice f.source (w.start + w.done) data.length
    rw [← hdata] at hslice
    omega
  -- the worker after the piece was consumed
  have hok' : Worker.Ok f.source
      { w with done := w.done + data.length, stage := .landed r (w.start + w.done) data.length } := by
    refine ⟨by simp only; omega, .inr (by simp only; omega), fun r' heq => (by cases heq), fun r' o d heq => (by cases heq), ?_⟩
    intro r' o n heq
    cases heq
    refine ⟨by simp only; omega, by simp only; omega, ?_⟩
    rw [← Nat.add_assoc]
    exact hat
  have hhits : ∀ p, hits p (w.start + w.done, data.length) + hits p w.delivered =
      hits p (w.start, w.done + data.length) := by
    intro p
    rw [← hits_append, Nat.add_comm]
    rfl
  unfold Fanout.consume
  split
  · rename_i hord
    split
    · exact h.raise hw hun
    · split
      · exact h
      · rename_i hcursor
        have hcursor : f.cursor = w.start + w.done := by simpa using hcursor
        split
        · refine h.update hw rfl rfl rfl rfl hok' ?_ ?_ ?_ ?_ ?_
          · rw [hun]
            simp only [Fanout.put, Worker.uncounted]
            omega
          · intro p
            have := hhits p
            rw [hun]
            simp only [Fanout.put, Worker.uncounted, Worker.delivered] at this ⊢
            rw [hits_none]
            omega
          · intro hfalse
            rw [hord] at hfalse
            cases hfalse
          · intro hfalse
            rw [hord] at hfalse
            cases hfalse
          · intro _ horder
            rw [hcursor] at horder
            refine ⟨horder.concat hdata hne, ?_⟩
            simp only [Fanout.put]
            omega
        · exact h.recover hw hun _
        · exact h.raise hw hun
  · rename_i hord
    have hord : f.ordered = false := by simpa using hord
    split
    · refine h.update hw rfl rfl rfl rfl hok' ?_ ?_ ?_ ?_ ?_
      · rw [hun]
        simp only [Fanout.put, Worker.uncounted]
        omega
      · intro p
        have := hhits p
        rw [hun]
        simp only [Fanout.put, Worker.uncounted, Worker.delivered] at this ⊢
        rw [hits_none]
        omega
      · intro _ p hp
        simp only [Fanout.put]
        rw [hdata]
        exact writeAt_slice_keeps 0 f.dest f.source _ _ hp
      · intro _ k hk hle
        simp only [Fanout.put]
        rw [hdata]
        refine getElem?_writeAt_slice 0 f.dest f.source (by omega) ?_
        rw [← hdata]
        simp only at hk
        omega
      · intro htrue
        rw [hord] at htrue
        cases htrue
    · exact h.raise hw hun
    · rename_i bytes
      have hpart : data.take bytes = slice f.source (w.start + w.done) (min bytes data.length) :=
        (congrArg (List.take bytes) hdata).trans List.take_take
      refine h.update hw rfl rfl rfl rfl (hok.resting w.chunk (.inr (.inr rfl))) ?_ ?_ ?_ ?_ ?_
      · rw [hun]
        rfl
      · intro p
        rw [hun]
        rfl
      · intro _ p hp
        simp only [Fanout.put]
        rw [hpart]
        exact writeAt_slice_keeps 0 f.dest f.source _ _ hp
      · intro _ k hk hle
        simp only at hk
        omega
      · intro htrue
        rw [hord] at htrue
        cases htrue

theorem Sound.counts (h : f.Sound layout) (hw : f.workers[i]? = some w) {r : Reading} {offset count : Nat}
    (hstage : w.stage = .landed r offset count) (took : Took) : (f.stepAt i w (.counts took)).Sound layout := by
  have hok := h.workers w (List.mem_of_getElem? hw)
  obtain ⟨-, -, hat⟩ := hok.landed r offset count hstage
  have hun : w.uncounted = (offset, count) := by simp [Worker.uncounted, hstage]
  have hcount : ∀ p, ((f.counted ++ [(offset, count)]).map (hits p)).sum = (f.counted.map (hits p)).sum + hits p w.uncounted := by
    intro p
    rw [hun]
    exact sum_counted_concat f.counted _ p
  have hmoved : f.moved + count = f.moved + w.uncounted.2 := by rw [hun]
  unfold Fanout.stepAt
  rw [hstage]
  cases took with
  | all =>
    have hok' : Worker.Ok f.source { w with stage := .reading r } :=
      ⟨hok.within, hok.inside, fun r' heq => by cases heq; exact hat, fun r' o d heq => (by cases heq), fun r' o n heq => (by cases heq)⟩
    exact h.turn hw rfl rfl rfl hok' rfl rfl ⟨hmoved, hcount⟩
  | transient again =>
    unfold Fanout.recover
    simp only
    split
    · exact h.turn hw rfl rfl rfl (hok.resting _ (.inl rfl)) rfl rfl ⟨hmoved, hcount⟩
    · exact h.turn hw rfl rfl rfl (hok.resting _ (.inr (.inr rfl))) rfl rfl ⟨hmoved, hcount⟩
  | raises bytes => exact h.turn hw rfl rfl rfl (hok.resting w.chunk (.inr (.inr rfl))) rfl rfl ⟨hmoved, hcount⟩

theorem Sound.opens (h : f.Sound layout) (hw : f.workers[i]? = some w) (hstage : w.stage = .opening) :
    (f.stepAt i w .opens).Sound layout := by
  have hok := h.workers w (List.mem_of_getElem? hw)
  have hun : w.uncounted = (0, 0) := by simp [Worker.uncounted, hstage]
  unfold Fanout.stepAt
  rw [hstage]
  dsimp only
  split
  · rename_i hchunk
    refine h.put hw rfl rfl ⟨hok.within, hok.inside, fun r heq => ?_, fun r o d heq => (by cases heq), fun r o n heq => (by cases heq)⟩ rfl hun
    cases heq
    have hwithin := hok.within
    exact ⟨by simp only; omega, Nat.le_refl _, .inl ⟨rfl, by simp only; omega⟩⟩
  · exact h.raise hw hun

theorem Sound.turns (h : f.Sound layout) (hw : f.workers[i]? = some w) {r : Reading} (hstage : w.stage = .reading r) :
    (f.stepAt i w .turns).Sound layout := by
  have hok := h.workers w (List.mem_of_getElem? hw)
  have hat := hok.reading r hstage
  have hun : w.uncounted = (0, 0) := by simp [Worker.uncounted, hstage]
  unfold Fanout.stepAt
  rw [hstage]
  dsimp only
  split
  · exact h.put hw rfl rfl (hok.resting w.chunk (.inr (.inl rfl))) rfl hun
  · rename_i r' hturn
    rcases hat.turn hturn with ⟨-, hat'⟩ | ⟨data, heq, -⟩
    · refine h.put hw rfl rfl ⟨hok.within, hok.inside, fun r heq => ?_, fun r o d heq => (by cases heq), fun r o n heq => (by cases heq)⟩ rfl hun
      cases heq
      exact hat'
    · cases heq
  · rename_i offset data r' hturn
    rcases hat.turn hturn with ⟨heq, -⟩ | ⟨data', heq, hdata, hne, hlimit, hat'⟩
    · cases heq
    · cases heq
      refine h.put hw rfl rfl ⟨hok.within, hok.inside, fun r heq => (by cases heq), fun r o d heq => ?_, fun r o n heq => (by cases heq)⟩ rfl hun
      cases heq
      exact ⟨rfl, hdata, hne, hlimit, hat'⟩

theorem Sound.stepAt (h : f.Sound layout) (hw : f.workers[i]? = some w) (happens : Happens) :
    (f.stepAt i w happens).Sound layout := by
  have hun : (∀ r offset count, w.stage ≠ .landed r offset count) → w.uncounted = (0, 0) := by
    intro hne
    unfold Worker.uncounted
    split
    · rename_i heq
      exact absurd heq (hne _ _ _)
    · rfl
  cases hstage : w.stage with
  | opening =>
    have hun := hun fun r offset count heq => by rw [hstage] at heq; cases heq
    cases happens with
    | opens => exact h.opens hw hstage
    | loses again =>
      unfold Fanout.stepAt
      rw [hstage]
      exact h.recover hw hun again
    | fails =>
      unfold Fanout.stepAt
      rw [hstage]
      exact h.raise hw hun
    | turns | stops | consumes took | counts took =>
      unfold Fanout.stepAt
      rw [hstage]
      exact h
  | reading r =>
    have hun := hun fun r offset count heq => by rw [hstage] at heq; cases heq
    cases happens with
    | turns => exact h.turns hw hstage
    | loses again =>
      unfold Fanout.stepAt
      rw [hstage]
      exact h.recover hw hun again
    | fails =>
      unfold Fanout.stepAt
      rw [hstage]
      exact h.raise hw hun
    | opens | stops | consumes took | counts took =>
      unfold Fanout.stepAt
      rw [hstage]
      exact h
  | holding r offset data =>
    have hun := hun fun r offset count heq => by rw [hstage] at heq; cases heq
    cases happens with
    | consumes took =>
      unfold Fanout.stepAt
      rw [hstage]
      exact h.consume hw hstage took
    | stops =>
      unfold Fanout.stepAt
      rw [hstage]
      exact h.raise hw hun
    | opens | turns | counts took | loses again | fails =>
      unfold Fanout.stepAt
      rw [hstage]
      exact h
  | landed r offset count =>
    cases happens with
    | counts took => exact h.counts hw hstage took
    | opens | turns | stops | consumes took | loses again | fails =>
      unfold Fanout.stepAt
      rw [hstage]
      exact h
  | returned =>
    unfold Fanout.stepAt
    rw [hstage]
    cases happens <;> exact h
  | raised =>
    unfold Fanout.stepAt
    rw [hstage]
    cases happens <;> exact h

theorem Sound.step (h : f.Sound layout) (s : Step) : (f.step s).Sound layout := by
  cases s with
  | worker i happens =>
    unfold Fanout.step
    simp only
    split
    · exact h.stepAt (by assumption) happens
    · exact h
  | abandon =>
    unfold Fanout.step
    simp only
    split
    · exact ⟨h.layout, h.workers, h.moved, h.counted, h.placed, h.inOrder⟩
    · exact h

theorem Sound.run (h : f.Sound layout) (steps : List Step) : (f.run steps).Sound layout := by
  induction steps generalizing f with
  | nil => exact h
  | cons s steps ih => exact ih (h.step s)

/-! ## What stays as it was -/

/-- What a call was made with. -/
def fixed (f : Fanout) : Bytes × Bool × Int := (f.source, f.ordered, f.total)

theorem recover_fixed (f : Fanout) (i : Nat) (w : Worker) (again : Bool) : (f.recover i w again).fixed = f.fixed := by
  unfold Fanout.recover
  simp only
  split <;> rfl

theorem consume_fixed (f : Fanout) (i : Nat) (w : Worker) (r : Reading) (offset : Nat) (data : Bytes) (took : Took) :
    (f.consume i w r offset data took).fixed = f.fixed := by
  unfold Fanout.consume
  split
  · split
    · rfl
    · split
      · rfl
      · split
        · rfl
        · exact recover_fixed f i w _
        · rfl
  · split <;> rfl

theorem stepAt_fixed (f : Fanout) (i : Nat) (w : Worker) (happens : Happens) :
    (f.stepAt i w happens).fixed = f.fixed := by
  unfold Fanout.stepAt
  split
  · split <;> rfl
  · split <;> rfl
  · exact consume_fixed f i w _ _ _ _
  · simp only
    split
    · rfl
    · exact recover_fixed _ i w _
    · rfl
  · rfl
  · exact recover_fixed f i w _
  · exact recover_fixed f i w _
  · rfl
  · rfl
  · rfl

theorem step_fixed (f : Fanout) (s : Step) : (f.step s).fixed = f.fixed := by
  unfold Fanout.step
  split
  · split
    · exact stepAt_fixed f _ _ _
    · rfl
  · split <;> rfl

theorem run_fixed (f : Fanout) (steps : List Step) : (f.run steps).fixed = f.fixed := by
  induction steps generalizing f with
  | nil => rfl
  | cons s steps ih => exact (ih (f.step s)).trans (step_fixed f s)

end Fanout

/-! ## Spans -/

theorem ceilDiv_bounds {a : Int} {b : Int} (hb : 0 < b) : a ≤ ceilDiv a b * b ∧ ceilDiv a b * b < a + b := by
  have hdiv := Int.mul_ediv_add_emod (-a) b
  have hlow := Int.emod_nonneg (-a) (Int.ne_of_gt hb)
  have hhigh := Int.emod_lt_of_pos (-a) hb
  unfold ceilDiv
  rw [Int.fdiv_eq_ediv_of_nonneg _ (Int.le_of_lt hb)]
  rw [Int.neg_mul, Int.mul_comm]
  omega

/-- The pieces that a size is cut into. -/
theorem spans_cut {size : Int} {workers : Nat} (hsize : 0 < size) (hworkers : 0 < workers) :
    Chain 0 (spans size workers) size.toNat ∧ (spans size workers).length ≤ workers := by
  have hbounds := ceilDiv_bounds (a := size) (b := workers) (by omega)
  have hpos : 0 < ceilDiv size workers := by
    by_contra hneg
    have := Int.mul_le_mul_of_nonneg_right (Int.not_lt.mp hneg) (show (0 : Int) ≤ workers by omega)
    omega
  obtain ⟨n, rfl⟩ := Int.eq_ofNat_of_zero_le (Int.le_of_lt hsize)
  obtain ⟨step, hstep⟩ := Int.eq_ofNat_of_zero_le (Int.le_of_lt hpos)
  have hstepPos : 0 < step := by omega
  rw [hstep] at hbounds
  have hcover : n ≤ step * workers := by exact_mod_cast hbounds.1
  have heq : spans n workers = (List.range ((n + step - 1) / step)).map fun i => (i * step, min step (n - i * step)) := by
    simp only [spans, rangeTo, if_neg (show ¬ (n : Int) ≤ 0 by omega), if_neg (show workers ≠ 0 by omega), hstep]
    simp
  rw [heq]
  constructor
  · exact chain_cut n hstepPos
  · rw [List.length_map, List.length_range]
    refine Nat.lt_succ_iff.mp ((Nat.div_lt_iff_lt_mul hstepPos).mpr ?_)
    rw [Nat.succ_mul, Nat.mul_comm workers]
    omega

/-- The jobs of a call have every byte of it once. -/
theorem jobs_chain (size : Int) {workers : Nat} (hworkers : 0 < workers) :
    Chain 0 (jobs size workers) size.toNat := by
  by_cases hsize : 0 < size
  · have hchain := (spans_cut hsize hworkers).1
    have hall : jobs size workers = spans size workers :=
      List.filter_eq_self.mpr fun e he => by
        have := hchain.pos e he
        simpa using Nat.ne_of_gt this
    rw [hall]
    exact hchain
  · have hle : size ≤ 0 := Int.not_lt.mp hsize
    have hnone : jobs size workers = [] := by simp [jobs, spans, hle]
    rw [hnone]
    show 0 = size.toNat
    omega

/-! ## What a call that returns has done -/

namespace Fanout

variable {layout : List (Nat × Nat)} {f : Fanout}

theorem InOrder.joined {source : Bytes} {pos stop : Nat} {taken : List (Nat × Bytes)} (h : InOrder source pos taken stop) :
    pos ≤ stop ∧ taken.flatMap Prod.snd = slice source pos (stop - pos) := by
  induction taken generalizing pos with
  | nil =>
    obtain rfl : pos = stop := h
    exact ⟨Nat.le_refl _, by simp [slice]⟩
  | cons e rest ih =>
    obtain ⟨offset, data⟩ := e
    obtain ⟨rfl, hdata, hne, hrest⟩ := h
    obtain ⟨hle, hjoined⟩ := ih hrest
    have hlen := length_slice source offset data.length
    rw [← hdata] at hlen
    refine ⟨by omega, ?_⟩
    rw [List.flatMap_cons, hjoined]
    have hbound : data.length ≤ source.length - offset := by omega
    have hjoin := slice_append_slice source (stop - (offset + data.length)) hbound
    rw [← hdata] at hjoin
    simp only
    rw [hjoin]
    refine List.take_eq_take_iff.mpr ?_
    rw [length_slice, List.length_drop]
    omega

/-- Every span was delivered whole, and the counts say so. -/
theorem Sound.complete (h : f.Sound layout) (hchain : Chain 0 layout f.total.toNat) {n : Nat} (hresult : f.result = some n) :
    (n : Int) = f.total ∧ (f.workers.map Worker.done).sum = n ∧ (∀ w ∈ f.workers, w.done = w.length) ∧
      ∀ p, (f.counted.map (hits p)).sum = hits p (0, n) ∧ (f.workers.map fun w => hits p w.delivered).sum = hits p (0, n) := by
  unfold result at hresult
  split at hresult
  · rename_i hback
    obtain ⟨hall, htotal⟩ := hback
    obtain rfl := Option.some.inj hresult
    have hun : ∀ w ∈ f.workers, w.uncounted = (0, 0) := by
      intro w hw
      have hstage : w.stage = .returned := of_decide_eq_true (List.all_eq_true.mp hall w hw)
      simp [Worker.uncounted, hstage]
    have hzero : (f.workers.map fun w => w.uncounted.2).sum = 0 :=
      sum_map_zero fun w hw => by rw [hun w hw]
    have hmoved : (f.workers.map Worker.done).sum = f.moved := by
      have := h.moved
      omega
    have hlengths : (f.workers.map Worker.length).sum = f.total.toNat := by
      have hsum := hchain.sums.1
      rw [← h.layout, List.map_map] at hsum
      rw [← hsum, Nat.zero_add]
      rfl
    have hdone : ∀ w ∈ f.workers, w.done = w.length := by
      intro w hw
      have hparts : ∀ s ∈ f.workers.map fun w => (⟨w.start, w.length, w.done⟩ : Stripe), s.done = s.length := by
        refine Landing.done_eq_of_sum ?_ ?_
        · intro s hs
          obtain ⟨v, hv, rfl⟩ := List.mem_map.mp hs
          exact (h.workers v hv).within
        · rw [List.map_map, List.map_map]
          show (f.workers.map Worker.length).sum ≤ (f.workers.map Worker.done).sum
          omega
      exact hparts _ (List.mem_map.mpr ⟨w, hw, rfl⟩)
    have hdelivered : ∀ p, (f.workers.map fun w => hits p w.delivered).sum = hits p (0, f.moved) := by
      intro p
      have hsum := hchain.sums.2 p
      rw [← h.layout, List.map_map] at hsum
      have hmap : (f.workers.map fun w => hits p w.delivered) =
          f.workers.map (hits p ∘ fun w => (w.start, w.length)) :=
        List.map_congr_left fun w hw => by rw [Worker.delivered, hdone w hw]; rfl
      rw [hmap, hsum, Nat.sub_zero]
      congr 2
      omega
    refine ⟨htotal, hmoved, hdone, fun p => ⟨?_, hdelivered p⟩⟩
    have hnone : (f.workers.map fun w => hits p w.uncounted).sum = 0 :=
      sum_map_zero fun w hw => by rw [hun w hw, hits_none]
    have hcounted := h.counted p
    rw [hnone, hdelivered p] at hcounted
    exact hcounted
  · cases hresult

/-- A byte that was delivered is in some worker's part. -/
theorem mem_of_hits {p : Nat} (h : 0 < (f.workers.map fun w => hits p w.delivered).sum) :
    ∃ w ∈ f.workers, w.start ≤ p ∧ p < w.start + w.done := by
  by_contra hnone
  have hzero : (f.workers.map fun w => hits p w.delivered).sum = 0 :=
    sum_map_zero fun w hw => if_neg fun hin => hnone ⟨w, hw, hin⟩
  omega

theorem Sound.inside (h : f.Sound layout) (hchain : Chain 0 layout f.total.toNat) {n : Nat} (hresult : f.result = some n) :
    n ≤ f.source.length ∧ ∀ p < n, ∃ w ∈ f.workers, w.start ≤ p ∧ p < w.start + w.done := by
  obtain ⟨-, -, -, hhits⟩ := h.complete hchain hresult
  have hmem : ∀ p < n, ∃ w ∈ f.workers, w.start ≤ p ∧ p < w.start + w.done := by
    intro p hp
    refine mem_of_hits ?_
    rw [(hhits p).2, hits, if_pos ⟨Nat.zero_le _, by simpa using hp⟩]
    exact Nat.one_pos
  refine ⟨?_, hmem⟩
  rcases Nat.eq_zero_or_pos n with rfl | hpos
  · exact Nat.zero_le _
  · obtain ⟨w, hw, hlow, hhigh⟩ := hmem (n - 1) (by omega)
    rcases (h.workers w hw).inside with hzero | hin
    · omega
    · omega

end Fanout

namespace Call

theorem count_pos (c : Call) : 0 < c.count := by
  unfold count plan
  omega

theorem start_sound (c : Call) (ordered : Bool) (dest : Bytes) : (c.start ordered dest).Sound (jobs c.total c.count) := by
  have hnew : ∀ w ∈ (c.start ordered dest).workers, w.done = 0 ∧ w.stage = .opening := by
    intro w hw
    obtain ⟨s, -, rfl⟩ := List.mem_map.mp hw
    exact ⟨rfl, rfl⟩
  have hun : ∀ w ∈ (c.start ordered dest).workers, w.uncounted = (0, 0) := fun w hw => by
    simp [Worker.uncounted, (hnew w hw).2]
  have hdone := sum_map_zero fun w hw => (hnew w hw).1
  refine ⟨?_, fun w hw => ?_, ?_, fun p => ?_, fun _ w hw k hk => ?_, fun _ => ⟨rfl, hdone.symm⟩⟩
  · rw [start, List.map_map]
    exact List.map_id _
  · obtain ⟨hd, hs⟩ := hnew w hw
    refine ⟨by omega, .inl hd, ?_, ?_, ?_⟩
    all_goals
      intros
      rename_i heq
      rw [hs] at heq
      cases heq
  · rw [hdone, sum_map_zero fun w hw => by rw [hun w hw]]
    rfl
  · have hnone : ((c.start ordered dest).workers.map fun w => hits p w.uncounted).sum = 0 :=
      sum_map_zero fun w hw => by rw [hun w hw, hits_none]
    have hzero : ((c.start ordered dest).workers.map fun w => hits p w.delivered).sum = 0 :=
      sum_map_zero fun w hw => by rw [Worker.delivered, (hnew w hw).1]; simp [hits]
    rw [hnone, hzero]
    rfl
  · rw [(hnew w hw).1] at hk
    cases hk

variable (c : Call)

/-- A download that returns. -/
theorem download_complete (before : Bytes) (sized : Bool) (steps : List Fanout.Step) {n : Nat}
    (hresult : (c.download before sized steps).result = some n) :
    (n : Int) = c.total ∧ n ≤ c.source.length ∧
      (∀ p < n, (c.download before sized steps).dest[p]? = c.source[p]?) ∧
      ∀ p, ((c.download before sized steps).counted.map (hits p)).sum = hits p (0, n) := by
  unfold download at hresult ⊢
  generalize (if sized then resize 0 c.total.toNat before else before) = dest at hresult ⊢
  have hsound := (c.start_sound false dest).run steps
  have hfixed := Fanout.run_fixed (c.start false dest) steps
  simp only [Fanout.fixed, Prod.mk.injEq] at hfixed
  obtain ⟨hsource, hordered, htotal⟩ := hfixed
  have hchain : Chain 0 (jobs c.total c.count) ((c.start false dest).run steps).total.toNat := by
    rw [htotal]
    exact jobs_chain c.total c.count_pos
  obtain ⟨htot, -, -, hhits⟩ := hsound.complete hchain hresult
  obtain ⟨hle, hmem⟩ := hsound.inside hchain hresult
  refine ⟨htot.trans htotal, Nat.le_trans hle (Nat.le_of_eq (congrArg List.length hsource)), fun p hp => ?_, fun p => (hhits p).1⟩
  obtain ⟨w, hw, hlow, hhigh⟩ := hmem p hp
  have hplaced := hsound.placed hordered w hw (p - w.start) (by omega)
  rw [Nat.add_sub_cancel' hlow, hsource] at hplaced
  exact hplaced

/-- The writer of a stream takes the file in order, whatever happens. -/
theorem stream_inOrder (steps : List Fanout.Step) :
    Fanout.InOrder c.source 0 (c.stream steps).taken (c.stream steps).cursor := by
  have hsound := (c.start_sound true []).run steps
  have hfixed := Fanout.run_fixed (c.start true []) steps
  simp only [Fanout.fixed, Prod.mk.injEq] at hfixed
  obtain ⟨hsource, hordered, -⟩ := hfixed
  have horder := (hsound.inOrder hordered).1
  rw [hsource] at horder
  exact horder

/-- A stream that returns. -/
theorem stream_complete (steps : List Fanout.Step) {n : Nat} (hresult : (c.stream steps).result = some n) :
    (n : Int) = c.total ∧ n ≤ c.source.length ∧ (c.stream steps).taken.flatMap Prod.snd = c.source.take n ∧
      ∀ p, ((c.stream steps).counted.map (hits p)).sum = hits p (0, n) := by
  have horder := c.stream_inOrder steps
  unfold stream at hresult horder ⊢
  have hsound := (c.start_sound true []).run steps
  have hfixed := Fanout.run_fixed (c.start true []) steps
  simp only [Fanout.fixed, Prod.mk.injEq] at hfixed
  obtain ⟨hsource, hordered, htotal⟩ := hfixed
  have hchain : Chain 0 (jobs c.total c.count) ((c.start true []).run steps).total.toNat := by
    rw [htotal]
    exact jobs_chain c.total c.count_pos
  obtain ⟨htot, hdone, -, hhits⟩ := hsound.complete hchain hresult
  obtain ⟨hle, -⟩ := hsound.inside hchain hresult
  have hcursor := (hsound.inOrder hordered).2
  refine ⟨htot.trans htotal, Nat.le_trans hle (Nat.le_of_eq (congrArg List.length hsource)), ?_, fun p => (hhits p).1⟩
  rw [horder.joined.2, hcursor, hdone]
  rfl

end Call

/-! ## Uploads -/

namespace Upload

variable {u : Upload}

/-- What was read is in flight, put off, or counted, and what is counted is on the server. -/
structure Sound (u : Upload) : Prop where
  read : u.offset ≤ u.source.length
  ranges : ∀ range ∈ u.pending ++ u.again ++ u.counted, range.1 + range.2 ≤ u.source.length
  once : ∀ p, (u.pending.map (hits p)).sum + (u.again.map (hits p)).sum + (u.counted.map (hits p)).sum =
    hits p (0, u.offset)
  moved : (u.pending.map Prod.snd).sum + (u.again.map Prod.snd).sum + u.moved = u.offset
  length : u.remote.length ≤ u.source.length
  stored : ∀ range ∈ u.counted, ∀ p, range.1 ≤ p → p < range.1 + range.2 → u.remote[p]? = u.source[p]?

/-- A range that was outstanding, or has just been read, is stored and counted. -/
theorem Sound.acknowledge (h : u.Sound) {v : Upload} {range : Nat × Nat} (hread : v.offset ≤ u.source.length)
    (hbounds : range.1 + range.2 ≤ u.source.length)
    (hranges : ∀ r ∈ v.pending ++ v.again, r.1 + r.2 ≤ u.source.length)
    (honce : ∀ p, (v.pending.map (hits p)).sum + (v.again.map (hits p)).sum + (u.counted.map (hits p)).sum + hits p range =
      hits p (0, v.offset))
    (hmoved : (v.pending.map Prod.snd).sum + (v.again.map Prod.snd).sum + u.moved + range.2 = v.offset)
    (hsame : (v.source, v.remote, v.moved, v.counted) = (u.source, u.remote, u.moved, u.counted)) :
    (v.acknowledge range).Sound := by
  simp only [Prod.mk.injEq] at hsame
  obtain ⟨hsource, hremote, hmoved', hcounted⟩ := hsame
  have hlen := length_slice u.source range.1 range.2
  refine ⟨?_, ?_, ?_, ?_, ?_, ?_⟩
  · simp only [Upload.acknowledge, hsource]
    exact hread
  · intro r hr
    simp only [Upload.acknowledge, hsource, hcounted, List.mem_append, List.mem_singleton] at hr ⊢
    rcases hr with hr | hr | rfl
    · exact hranges r (List.mem_append.mpr hr)
    · exact h.ranges r (by simp [hr])
    · exact hbounds
  · intro p
    have := honce p
    simp only [Upload.acknowledge, hcounted, List.map_append, List.sum_append, List.map_cons, List.map_nil, List.sum_cons,
      List.sum_nil]
    omega
  · simp only [Upload.acknowledge, hmoved']
    omega
  · simp only [Upload.acknowledge, hsource, hremote]
    exact length_writeAt_slice_le 0 _ _ h.length
  · intro r hr p hlow hhigh
    simp only [Upload.acknowledge, hsource, hremote, hcounted, List.mem_append, List.mem_singleton] at hr ⊢
    rcases hr with hr | rfl
    · exact writeAt_slice_keeps 0 u.remote u.source _ _ (h.stored r hr p hlow hhigh)
    · exact getElem?_writeAt_slice 0 u.remote u.source hlow (by omega)

theorem piece_le (u : Upload) (bytes : Nat) : u.piece bytes ≤ u.source.length - u.offset := by
  unfold piece
  omega

/-- A write that is refused ends the call in the end. -/
theorem step_failed (h : u.failed = true) (s : Step) : (u.step s).failed = true := by
  unfold Upload.step
  split
  · exact h
  · cases s with
    | send bytes => simp [h]
    | answer i stored =>
      simp only
      split
      · exact h
      · cases stored with
        | ok => exact h
        | wait => simp only; split <;> simp [h]
        | refused => rfl
    | write bytes => simp [h]
    | resend =>
      simp only
      split
      · exact h
      · simp [h]
    | raises => exact h

theorem Sound.step (h : u.Sound) (s : Step) : (u.step s).failed = true ∨ (u.step s).Sound := by
  unfold Upload.step
  split
  · exact .inr h
  · cases s with
    | send bytes =>
      simp only
      split
      · have hpiece := u.piece_le bytes
        have hread := h.read
        refine .inr ⟨by simp only; omega, ?_, ?_, ?_, h.length, h.stored⟩
        · intro range hr
          simp only [List.append_assoc, List.mem_append, List.mem_cons, List.not_mem_nil, or_false] at hr
          rcases hr with hr | rfl | hr | hr
          · exact h.ranges range (by simp [hr])
          · simp only
            omega
          · exact h.ranges range (by simp [hr])
          · exact h.ranges range (by simp [hr])
        · intro p
          have honce := h.once p
          have happ := hits_append p 0 u.offset (u.piece bytes)
          simp only [List.map_append, List.sum_append, List.map_cons, List.map_nil, List.sum_cons, List.sum_nil,
            Nat.zero_add] at happ ⊢
          omega
        · have hmoved := h.moved
          simp only [List.map_append, List.sum_append, List.map_cons, List.map_nil, List.sum_cons, List.sum_nil]
          omega
      · exact .inr h
    | answer i stored =>
      simp only
      split
      · exact .inr h
      · rename_i range hrange
        have hmem := List.mem_of_getElem? hrange
        have hbounds := h.ranges range (by simp [hmem])
        have herase : ∀ r ∈ u.pending.eraseIdx i, r ∈ u.pending := fun r hr => List.mem_of_mem_eraseIdx hr
        have hhits := fun p => sum_eraseIdx_add (hits p) hrange
        have hlens := sum_eraseIdx_add Prod.snd hrange
        have hmoved := h.moved
        have hranges : ∀ r ∈ u.pending.eraseIdx i ++ u.again, r.1 + r.2 ≤ u.source.length := by
          intro r hr
          rcases List.mem_append.mp hr with hr | hr
          · exact h.ranges r (by simp [herase r hr])
          · exact h.ranges r (by simp [hr])
        cases stored with
        | ok =>
          refine .inr (h.acknowledge h.read hbounds hranges (fun p => ?_) ?_ rfl)
          · have := h.once p
            have := hhits p
            simp only
            omega
          · simp only
            omega
        | wait =>
          simp only
          split
          · refine .inr ⟨h.read, ?_, ?_, ?_, h.length, h.stored⟩
            · intro r hr
              simp only [List.append_assoc, List.mem_append, List.mem_cons, List.not_mem_nil, or_false] at hr
              rcases hr with hr | hr | rfl | hr
              · exact h.ranges r (by simp [herase r hr])
              · exact h.ranges r (by simp [hr])
              · exact hbounds
              · exact h.ranges r (by simp [hr])
            · intro p
              have := h.once p
              have := hhits p
              simp only [List.map_append, List.sum_append, List.map_cons, List.map_nil, List.sum_cons, List.sum_nil]
              omega
            · simp only [List.map_append, List.sum_append, List.map_cons, List.map_nil, List.sum_cons, List.sum_nil]
              omega
          · exact .inl rfl
        | refused => exact .inl rfl
    | write bytes =>
      simp only
      split
      · rename_i hgo
        have hpiece := u.piece_le bytes
        have hread := h.read
        refine .inr (h.acknowledge (by simp only; omega) (by simp only; omega)
          (fun r hr => h.ranges r (by simp only at hr; rw [List.mem_append]; exact .inl hr)) (fun p => ?_) ?_ rfl)
        · have honce := h.once p
          have happ := hits_append p 0 u.offset (u.piece bytes)
          simp only [Nat.zero_add] at happ ⊢
          omega
        · have hmoved := h.moved
          simp only
          omega
      · exact .inr h
    | resend =>
      simp only
      split
      · exact .inr h
      · rename_i range rest hagain
        split
        · refine .inr (h.acknowledge h.read (h.ranges range (by simp [hagain]))
            (fun r hr => h.ranges r ?_) (fun p => ?_) ?_ rfl)
          · simp only [List.mem_append] at hr ⊢
            rcases hr with hr | hr
            · exact .inl (.inl hr)
            · exact .inl (.inr (by rw [hagain]; exact List.mem_cons_of_mem _ hr))
          · have honce := h.once p
            simp only [hagain, List.map_cons, List.sum_cons] at honce ⊢
            omega
          · have hmoved := h.moved
            simp only [hagain, List.map_cons, List.sum_cons] at hmoved ⊢
            omega
        · exact .inr h
    | raises => exact .inr ⟨h.read, h.ranges, h.once, h.moved, h.length, h.stored⟩

theorem run_sound (u : Upload) (h : u.failed = true ∨ u.Sound) (steps : List Step) :
    (u.run steps).failed = true ∨ (u.run steps).Sound := by
  induction steps generalizing u with
  | nil => exact h
  | cons s steps ih =>
    refine ih (u.step s) ?_
    rcases h with hfailed | hsound
    · exact .inl (step_failed hfailed s)
    · exact hsound.step s

theorem step_source (u : Upload) (s : Step) : (u.step s).source = u.source := by
  unfold Upload.step
  split
  · rfl
  · cases s with
    | send bytes => simp only; split <;> rfl
    | answer i stored =>
      simp only
      split
      · rfl
      · cases stored with
        | ok => rfl
        | wait => simp only; split <;> rfl
        | refused => rfl
    | write bytes => simp only; split <;> rfl
    | resend =>
      simp only
      split
      · rfl
      · split <;> rfl
    | raises => rfl

theorem run_source (u : Upload) (steps : List Step) : (u.run steps).source = u.source := by
  induction steps generalizing u with
  | nil => rfl
  | cons s steps ih => exact (ih (u.step s)).trans (step_source u s)

end Upload

/-- The arguments of an upload, and what it finds. -/
def uploading (source : Bytes) (chunk depth : Nat) (seekable : Bool) : Upload := { source, chunk, depth, seekable }

/-- An upload that returns. -/
theorem upload_complete (source : Bytes) (chunk depth : Nat) (seekable : Bool) (steps : List Upload.Step) {n : Nat}
    (hresult : ((uploading source chunk depth seekable).run steps).result = some n) :
    n = source.length ∧ ((uploading source chunk depth seekable).run steps).remote = source ∧
      ∀ p, (((uploading source chunk depth seekable).run steps).counted.map (hits p)).sum = hits p (0, n) := by
  have hstart : (uploading source chunk depth seekable).Sound := by
    refine ⟨Nat.zero_le _, fun r hr => by simp [uploading] at hr, fun p => ?_, rfl, Nat.zero_le _,
      fun r hr => by simp [uploading] at hr⟩
    simp [uploading]
  have hsource := Upload.run_source (uploading source chunk depth seekable) steps
  have hsound := Upload.run_sound _ (.inr hstart) steps
  generalize (uploading source chunk depth seekable).run steps = u at hresult hsource hsound ⊢
  unfold Upload.result at hresult
  split at hresult
  · rename_i hback
    obtain ⟨-, hfailed, hoffset, hpending, hagain⟩ := hback
    obtain rfl := Option.some.inj hresult
    have hsource : u.source = source := hsource
    have hsound : u.Sound := hsound.resolve_left (by rw [hfailed]; exact Bool.false_ne_true)
    have hmoved : u.moved = source.length := by
      have := hsound.moved
      rw [hpending, hagain, hoffset, hsource] at this
      simpa using this
    have honce : ∀ p, (u.counted.map (hits p)).sum = hits p (0, u.moved) := by
      intro p
      have := hsound.once p
      rw [hpending, hagain, hoffset, hsource] at this
      rw [hmoved]
      simpa using this
    refine ⟨hmoved, eq_of_agree (hsource ▸ hsound.length) fun p hp => ?_, honce⟩
    by_contra hdiff
    have hzero : (u.counted.map (hits p)).sum = 0 := sum_map_zero fun range hrange => if_neg fun hin =>
      hdiff (hsource ▸ hsound.stored range hrange p hin.1 hin.2)
    have hone := honce p
    rw [hits, if_pos ⟨Nat.zero_le _, by simp only [hmoved]; omega⟩] at hone
    omega
  · cases hresult

/-! ## The plane -/

/-- Whatever the workers meet, and in whatever order. -/
theorem plane_complete :
    (∀ (c : Call) (before : Bytes) (sized : Bool) (steps : List Fanout.Step) (n : Nat),
      (c.download before sized steps).result = some n →
        (n : Int) = c.total ∧ n ≤ c.source.length ∧
        (∀ p < n, (c.download before sized steps).dest[p]? = c.source[p]?) ∧
        ∀ p, ((c.download before sized steps).counted.map (hits p)).sum = hits p (0, n)) ∧
    (∀ (c : Call) (steps : List Fanout.Step) (n : Nat),
      (c.stream steps).result = some n →
        (n : Int) = c.total ∧ n ≤ c.source.length ∧ (c.stream steps).taken.flatMap Prod.snd = c.source.take n ∧
        ∀ p, ((c.stream steps).counted.map (hits p)).sum = hits p (0, n)) ∧
    (∀ (c : Call) (steps : List Fanout.Step),
      Fanout.InOrder c.source 0 (c.stream steps).taken (c.stream steps).cursor) ∧
    (∀ (source : Bytes) (chunk depth : Nat) (seekable : Bool) (steps : List Upload.Step) (n : Nat),
      ((uploading source chunk depth seekable).run steps).result = some n →
        n = source.length ∧ ((uploading source chunk depth seekable).run steps).remote = source ∧
        ∀ p, (((uploading source chunk depth seekable).run steps).counted.map (hits p)).sum = hits p (0, n)) ∧
    (∀ (size : Int) (workers : Nat), 0 < size → 0 < workers →
      Chain 0 (spans size workers) size.toNat ∧ (spans size workers).length ≤ workers ∧
        ∀ span ∈ spans size workers, 0 < span.2) ∧
    ∀ (size : Int) (workers : Nat), 0 < workers → Chain 0 (jobs size workers) size.toNat := by
  refine ⟨fun c before sized steps n => c.download_complete before sized steps, fun c steps n => c.stream_complete steps,
    fun c steps => c.stream_inOrder steps, fun source chunk depth seekable steps n => upload_complete source chunk depth seekable steps,
    fun size workers hsize hworkers => ?_, fun size workers hworkers => jobs_chain size hworkers⟩
  obtain ⟨hchain, hlength⟩ := spans_cut hsize hworkers
  exact ⟨hchain, hlength, hchain.pos⟩

/-- Two workers, one of which loses the server after a piece and reads on. -/
theorem plane_complete_restarted :
    ∃ steps, (Call.download ⟨[1, 2, 3, 4, 5], 5, 2, 2, 1, 1⟩ [] true steps).result = some 5 ∧
      ∀ p < 5, (Call.download ⟨[1, 2, 3, 4, 5], 5, 2, 2, 1, 1⟩ [] true steps).dest[p]? =
        ([1, 2, 3, 4, 5] : Bytes)[p]? := by
  let one : List Fanout.Step := [.worker 0 .opens, .worker 1 .opens, .worker 0 .turns, .worker 0 (.consumes .all),
    .worker 1 .turns, .worker 1 (.consumes .all), .worker 0 (.counts .all), .worker 0 (.loses true), .worker 1 (.counts .all),
    .worker 0 .opens, .worker 0 .turns, .worker 0 (.consumes .all), .worker 0 (.counts .all), .worker 0 .turns,
    .worker 1 .turns]
  have hresult : (Call.download ⟨[1, 2, 3, 4, 5], 5, 2, 2, 1, 1⟩ [] true one).result = some 5 := by decide
  exact ⟨one, hresult, (plane_complete.1 _ _ _ _ _ hresult).2.2.1⟩

/-- An empty file is one piece, with nothing in it. -/
theorem spans_of_nothing : ¬ ∀ (size : Int) (workers : Nat), 0 < workers →
    (spans size workers).length ≤ workers ∧ ∀ span ∈ spans size workers, 0 < span.2 := by
  intro h
  have hspan := (h 0 1 Nat.one_pos).2 (0, 0) (by decide)
  exact Nat.lt_irrefl 0 hspan

end XrdClient.Client
