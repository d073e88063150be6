/-
  Client/Sizes.lean --- what a writer believes of the size of its file.

  Source: `client/_writing.py`, and `stat`, `size` and `checkpoint` of a file.

  A size is kept until a call gives it up, which each call does on its way out.  A call that
  raises has not come there, whatever the server has stored by then: the size that was kept
  is still right exactly when the file is as long as it was (`Forgets.fresh_iff`).  A stream
  of pieces on the bulk plane gives the size up in any case, and a stream that goes piece by
  piece has given it up when its first piece is through.
-/
import XrdClient.Client.Kept

set_option autoImplicit false

namespace XrdClient.Client.File

open XrdClient.Lib
open XrdClient.Session

/-- What is kept of the size is right. -/
def Fresh (f : File) : Prop :=
  ∀ n, f.stat = some n → n = f.server.length ∧ f.sizeHint = f.server.length

theorem fresh_of_none {f : File} (h : f.stat = none) : Fresh f := fun n hn => by
  rw [h] at hn
  cases hn

/-- What is kept of the size. -/
def kept (f : File) : Option Nat × Nat := (f.stat, f.sizeHint)

theorem blind_kept : Blind kept := fun _ _ => rfl

theorem fresh_of_kept {f f' : File} (hkept : f'.kept = f.kept)
    (hlength : f'.server.length = f.server.length) (hfresh : Fresh f) : Fresh f' := fun n hn => by
  rw [hlength, show f'.sizeHint = f.sizeHint from congrArg Prod.snd hkept]
  exact hfresh n ((congrArg Prod.fst hkept).symm.trans hn)

/-! ## What gives the size up -/

section

variable {α β γ : Type} {obs : File → γ}

/-- What is seen of a file that a call has done nothing to. -/
def seen (f : File) : (Option Nat × Nat) × Bytes := (f.kept, f.server)

/-- The call returns with no size kept, or raises with the one that it found. -/
def Gives (x : Op α) : Prop :=
  ∀ c, Act.Spec (fun f => f.kept = c) x (fun _ f => f.stat = none) fun _ f => f.kept = c

theorem Gives.throw (e : FileError) : Gives (Act.throw e : Op α) := fun _ =>
  Act.Spec.throw _ fun _ hs => hs

theorem Gives.bind {x : Op α} {g : α → Op β} (hx : Keeps kept x) (hg : ∀ a, Gives (g a)) :
    Gives (x >>= g) := fun c => Act.Spec.bind (hx c) fun a => hg a c

theorem Gives.get_bind {g : File → Op β} (hg : ∀ f, Gives (g f)) : Gives (Act.get >>= g) :=
  fun c => Act.Spec.of_each fun f hf => Act.Spec.get_bind ((hg f c).conseq (fun _ hs => hs ▸ hf)
    (fun _ _ hs => hs) fun _ _ hs => hs)

theorem Gives.ite {c : Prop} [Decidable c] {x y : Op α} (hx : Gives x) (hy : Gives y) :
    Gives (if c then x else y) := fun s => Act.Spec.ite (fun _ => hx s) fun _ => hy s

theorem Gives.modify {g : File → File} (h : ∀ f, (g f).stat = none) (a : α) :
    Gives (do Act.modify g; pure a) := fun _ f _ => h f

/-- The call gives the size up, or returns having done nothing to the file. -/
def Forgets (x : Op α) : Prop :=
  ∀ f : File, Act.Spec (fun s => s.seen = f.seen) x (fun _ s => s.stat = none ∨ s.seen = f.seen)
    fun _ s => s.kept = f.kept

theorem Gives.forgets {x : Op α} (h : Gives x) : Forgets x := fun f =>
  (h f.kept).conseq (fun _ hs => congrArg Prod.fst hs) (fun _ _ => .inl) fun _ _ hs => hs

theorem Keeps.forgets {x : Op α} (h : Keeps seen x) : Forgets x := fun f =>
  (h f.seen).conseq (fun _ hs => hs) (fun _ _ => .inr) fun _ _ hs => congrArg Prod.fst hs

theorem Forgets.bind {x : Op α} {g : α → Op β} (hx : Keeps seen x) (hg : ∀ a, Forgets (g a)) :
    Forgets (x >>= g) := fun f =>
  Act.Spec.bind ((hx f.seen).conseq (fun _ hs => hs) (fun _ _ hs => hs) fun _ _ hs =>
    congrArg Prod.fst hs) fun a => hg a f

theorem Forgets.get_bind {g : File → Op β} (hg : ∀ f, Forgets (g f)) : Forgets (Act.get >>= g) :=
  fun f => Act.Spec.of_each fun s hs => Act.Spec.get_bind ((hg s f).conseq (fun _ h => h ▸ hs)
    (fun _ _ h => h) fun _ _ h => h)

theorem Forgets.ite {c : Prop} [Decidable c] {x y : Op α} (hx : c → Forgets x) (hy : ¬ c → Forgets y) :
    Forgets (if c then x else y) := fun s => Act.Spec.ite (fun h => hx h s) fun h => hy h s

/-- The file as a call leaves it that raises. -/
def raised : Except FileError α × File → Option File
  | (.error _, f) => some f
  | (.ok _, _) => none

/-- The size that was kept is still right exactly if the call did not raise on a file that had
become longer or shorter. -/
theorem Forgets.fresh_iff {x : Op α} (hx : Forgets x) {f : File} (hf : Fresh f) :
    Fresh (x f).2 ↔ f.stat = none ∨ ∀ g ∈ raised (x f), g.server.length = f.server.length := by
  have hout := hx f f rfl
  rcases h : x f with ⟨e | a, f'⟩ <;> rw [h] at hout
  · have hkept : f'.kept = f.kept := hout
    have hstat : f'.stat = f.stat := congrArg Prod.fst hkept
    constructor
    · intro hfresh
      refine or_iff_not_imp_left.mpr fun hsome g hg => ?_
      obtain rfl : f' = g := Option.some.inj hg
      obtain ⟨n, hn⟩ := Option.ne_none_iff_exists'.mp hsome
      exact (hfresh n (hstat.trans hn)).1.symm.trans (hf n hn).1
    · rintro (hnone | hlength)
      · exact fresh_of_none (hstat.trans hnone)
      · exact fresh_of_kept hkept (hlength f' rfl) hf
  · refine ⟨fun _ => .inr fun g hg => absurd hg (Option.not_mem_none g), fun _ => ?_⟩
    obtain hnone | hseen : f'.stat = none ∨ f'.seen = f.seen := hout
    · exact fresh_of_none hnone
    · exact fresh_of_kept (congrArg Prod.fst hseen) (congrArg List.length (congrArg Prod.snd hseen)) hf

theorem gives_invalidate (high : Nat) (exact : Bool) (a : α) :
    Gives (do invalidate high exact; pure a) := .modify (fun _ => rfl) a

/-! ## The calls -/

theorem gives_eventWrite (ways : Nat → WriteWay) (view : Bytes) (offset : Nat) :
    Gives (eventWrite ways view offset) :=
  .get_bind fun _ => .bind (keeps_writeLoop blind_kept _ _ _ _ _ _ _) fun _ => gives_invalidate _ _ _

theorem gives_write (w : WriteWeather) (view : Bytes) (offset : Nat) : Gives (write w view offset) := by
  refine .get_bind fun f => .ite (.bind (keeps_planeWrite blind_kept _ _ _) fun written => ?_)
    (gives_eventWrite _ _ _)
  cases written with
  | some written => exact gives_invalidate _ _ _
  | none => exact gives_eventWrite _ _ _

theorem forgets_writev (fates : Nat → Fate) (items : List (Nat × Bytes)) :
    Forgets (writev fates items) := by
  refine .ite (fun _ => Keeps.forgets (.pure _)) fun _ => Gives.forgets (.get_bind fun f => ?_)
  exact .ite (.throw _) (.bind (keeps_putAll blind_kept _ _ _ _) fun _ => gives_invalidate _ _ _)

/-- Writes without data are none. -/
theorem storedEach_empty : ∀ {writes : List (Nat × Bytes)}, (∀ w ∈ writes, w.2 = []) →
    ∀ (n : Nat) (f : File), f.storedEach writes n = f := by
  intro writes
  induction writes with
  | nil => exact fun _ _ _ => rfl
  | cons w rest ih =>
    intro hempty n f
    have hstored : f.stored w.1 (w.2.take n) = f := by
      rw [hempty w List.mem_cons_self, List.take_nil, stored]
      split <;> simp
    rw [storedEach, hstored]
    exact ih (fun w hw => hempty w (List.mem_cons_of_mem _ hw)) _ f

theorem keeps_putAll_empty (fates : Nat → Fate) (translate : FileError → FileError) :
    ∀ {batches : List (List (Nat × Bytes))}, (∀ batch ∈ batches, ∀ w ∈ batch, w.2 = []) →
    ∀ i, Keeps obs (putAll fates translate i batches) := by
  intro batches
  induction batches with
  | nil => exact fun _ _ => .pure _
  | cons batch rest ih =>
    intro hempty i
    have hbatch := fun n f => storedEach_empty (hempty batch List.mem_cons_self) n f
    refine (Keeps.tryExcept (keeps_handle.bind fun _ => ?_) fun e => .throw _).bind fun _ =>
      ih (fun batch h => hempty batch (List.mem_cons_of_mem _ h)) _
    split
    · exact .modify fun f => by rw [hbatch]
    · exact (Keeps.modify fun f => by rw [hbatch]).bind fun _ => .throw _

theorem forgets_clone (w : CloneWeather) (ranges : Option (List CloneRange)) : Forgets (clone w ranges) := by
  refine .bind keeps_handle fun _ => .get_bind fun f => .ite (fun _ => Keeps.forgets (.throw _)) fun _ =>
    .ite (fun _ => Keeps.forgets (.throw _)) fun _ => .ite (fun _ => Keeps.forgets (.throw _)) fun _ =>
    .bind (.ofExcept _) fun items => ?_
  generalize (BulkReader.chunks CLONE_MAX_RANGES items.length).map (fun c => slice items c.1 c.2) = batches
  by_cases htotal : (batches.flatten.map fun r => r.2.1).sum = 0
  · simp only [htotal, if_true]
    refine Keeps.forgets ((keeps_putAll_empty _ _ ?_ 0).bind fun _ => .pure _)
    intro batch hbatch w hw
    obtain ⟨ranges, hranges, rfl⟩ := List.mem_map.mp hbatch
    obtain ⟨r, hr, rfl⟩ := List.mem_map.mp hw
    have hzero : r.2.1 = 0 := List.sum_eq_zero_iff_forall_eq_nat.mp htotal _
      (List.mem_map.mpr ⟨r, List.mem_flatten.mpr ⟨ranges, hranges, hr⟩, rfl⟩)
    simp [hzero, slice]
  · simp only [htotal, if_false]
    exact Gives.forgets (.bind (keeps_putAll blind_kept _ _ _ _) fun _ => gives_invalidate _ _ _)

theorem forgets_pgwrite (first : PagedTurn) (turns : Nat → Nat → PagedTurn) (data : Bytes)
    (offset : Nat) : Forgets (pgwrite first turns data offset) :=
  .ite (fun _ => Keeps.forgets (.pure _)) fun _ => Gives.forgets (.bind (keeps_pgwriteOnce blind_kept _ _ _)
    fun _ => .bind (keeps_retryPages blind_kept _ _ _ _ _) fun _ => gives_invalidate _ _ _)

theorem gives_truncate (fate : Fate) (size : Int) : Gives (truncate fate size) :=
  .ite (.throw _) (.bind (keeps_control _ fun _ => rfl) fun _ => gives_invalidate _ _ _)

theorem keeps_beginCheckpoint (fate : Fate) : Keeps seen (beginCheckpoint fate) :=
  .get_bind fun _ => .ite (.throw _)
    (.bind (keeps_control _ fun _ => rfl) fun _ => .modify fun _ => rfl)

theorem forgets_commit (fate : Fate) : Forgets (commit fate) := by
  refine .get_bind fun f => .ite (fun _ => .bind (.modify fun _ => rfl) fun _ => .bind keeps_handle
    fun _ => ?_) fun _ => Keeps.forgets (.pure _)
  cases fate with
  | acked => exact Keeps.forgets (.pure _)
  | failed n e => exact Gives.forgets (.bind (.modify fun f => by split <;> rfl) fun _ => .throw _)

theorem forgets_rollback (fate : Fate) : Forgets (rollback fate) := by
  refine .get_bind fun f => .ite (fun _ => Gives.forgets ?_) fun _ => Keeps.forgets (.pure _)
  exact .bind (.modify fun _ => rfl) fun _ => .bind (keeps_control _ fun _ => rfl) fun _ =>
    .modify (fun _ => rfl) ()

/-- With no size kept, none is kept behind the pieces that are written one by one. -/
theorem streamSerially_none (w : PiecesWeather) (offset : Nat) : ∀ (pieces : List Bytes) (i done : Nat),
    Act.Spec (fun f => f.stat = none) (streamSerially w offset pieces i done)
      (fun _ f => f.stat = none) fun _ f => f.stat = none := by
  intro pieces
  induction pieces with
  | nil => exact fun _ _ => Act.Spec.pure _ fun _ hs => hs
  | cons piece rest ih =>
    intro i done
    refine Act.Spec.bind (Q := fun _ f => f.stat = none) ?_ fun count => ?_
    · refine Act.Spec.of_each fun f hf => (gives_write _ _ _ f.kept).conseq (fun s hs => hs ▸ rfl)
        (fun _ s hs => hs) fun _ s hs => (congrArg Prod.fst hs).trans hf
    · split
      · exact Act.Spec.throw _ fun _ hs => hs
      · exact ih _ _

theorem streamSerially_cons (w : PiecesWeather) (offset : Nat) (piece : Bytes) (rest : List Bytes) :
    streamSerially w offset (piece :: rest) 0 0 = (write (w.serial 0) piece offset >>= fun count =>
      match w.hooks 0 with
      | some e => Act.throw e
      | none => streamSerially w offset rest 1 (0 + count)) := rfl

/-- The first piece decides: behind it no size is kept. -/
theorem streamSerially_fresh_iff (w : PiecesWeather) (offset : Nat) (piece : Bytes) (rest : List Bytes)
    {f : File} (hf : Fresh f) : Fresh (streamSerially w offset (piece :: rest) 0 0 f).2 ↔
      f.stat = none ∨ ∀ g ∈ raised (write (w.serial 0) piece offset f), g.server.length = f.server.length := by
  have hwrite := gives_write (w.serial 0) piece offset
  have hiff := hwrite.forgets.fresh_iff hf
  rw [streamSerially_cons]
  rcases h : write (w.serial 0) piece offset f with ⟨e | count, f'⟩
  · rw [h] at hiff
    rwa [Act.bind_of_error h]
  · rw [Act.bind_of_ok h]
    refine iff_of_true (fresh_of_none ?_) (.inr fun g hg => absurd hg (Option.not_mem_none g))
    have hnone : f'.stat = none := (hwrite f.kept).ok rfl h
    cases w.hooks 0 with
    | some e => exact hnone
    | none => exact (streamSerially_none w offset rest 1 _).state hnone

/-- A stream on the plane leaves no size behind, however it ends. -/
theorem streamOnPlane_none (w : PiecesWeather) (pieces : List Bytes) (offset : Nat) (depth : Int) :
    Act.Spec (fun _ => True) (streamOnPlane w pieces offset depth) (fun _ f => f.stat = none)
      fun _ f => f.stat = none := by
  refine Act.Spec.tryFinally (M := fun _ => True) (fun f _ => ?_) fun f _ => rfl
  split <;> trivial

theorem writePieces_none {w : PiecesWeather} {f : File} (hplane : f.writesOnPlane w.idle = true)
    (pieces : List Bytes) (offset : Nat) (depth : Int) :
    (writePieces w pieces offset depth f).2.stat = none := by
  have hstream : Act.Spec (fun _ => True)
      (Act.tryExcept (streamOnPlane w pieces offset depth) fun e =>
        if e = .bulkUnsupported ∧ w.plane = .declines then streamSerially w offset pieces 0 0
        else Act.throw e)
      (fun _ f => f.stat = none) fun _ f => f.stat = none :=
    Act.Spec.tryExcept (streamOnPlane_none w pieces offset depth) fun e =>
      Act.Spec.ite (fun _ => streamSerially_none _ _ _ _ _) fun _ => Act.Spec.throw _ fun _ hs => hs
  rw [writePieces, Act.bind_of_ok (show Act.get f = (.ok f, f) from rfl), if_pos hplane]
  exact hstream.state trivial

end

/-! ## Runs -/

/-- A call of a writer. -/
inductive WriteCall where
  | write (w : WriteWeather) (data : Bytes) (offset : Nat)
  | writePieces (w : PiecesWeather) (pieces : List Bytes) (offset : Nat) (depth : Int)
  | writev (fates : Nat → Fate) (items : List (Nat × Bytes))
  | pgwrite (first : PagedTurn) (turns : Nat → Nat → PagedTurn) (data : Bytes) (offset : Nat)
  | clone (w : CloneWeather) (ranges : Option (List CloneRange))
  | truncate (fate : Fate) (size : Int)
  | stat (refresh : Bool) (meets : Nat → Meeting)
  | beginCheckpoint (fate : Fate)
  | commit (fate : Fate)
  | rollback (fate : Fate)

/-- The file behind a call, however it ends. -/
def after (f : File) : WriteCall → File
  | .write w data offset => (write w data offset f).2
  | .writePieces w pieces offset depth => (writePieces w pieces offset depth f).2
  | .writev fates items => (writev fates items f).2
  | .pgwrite first turns data offset => (pgwrite first turns data offset f).2
  | .clone w ranges => (clone w ranges f).2
  | .truncate fate size => (truncate fate size f).2
  | .stat refresh meets => (askStat refresh meets f).2
  | .beginCheckpoint fate => (beginCheckpoint fate f).2
  | .commit fate => (commit fate f).2
  | .rollback fate => (rollback fate f).2

/-- The file where a call breaks off that has not come to giving the size up. -/
def brokenOff (f : File) : WriteCall → Option File
  | .write w data offset => raised (write w data offset f)
  | .writePieces w pieces offset _ =>
      if f.writesOnPlane w.idle then none
      else match pieces with
        | [] => none
        | piece :: _ => raised (write (w.serial 0) piece offset f)
  | .writev fates items => raised (writev fates items f)
  | .pgwrite first turns data offset => raised (pgwrite first turns data offset f)
  | .clone w ranges => raised (clone w ranges f)
  | .truncate fate size => raised (truncate fate size f)
  | .stat _ _ => none
  | .beginCheckpoint fate => raised (beginCheckpoint fate f)
  | .commit fate => raised (commit fate f)
  | .rollback fate => raised (rollback fate f)

/-- No size is kept, or the call does not break off on a file that has become longer or shorter. -/
def Settled (f : File) (call : WriteCall) : Prop :=
  f.stat = none ∨ ∀ g ∈ f.brokenOff call, g.server.length = f.server.length

/-- A file that nothing but its size is known of. -/
theorem standing_of_fresh {f : File} (hf : Fresh f) : Standing (fun _ _ _ => True) False f f :=
  ⟨⟨rfl, rfl, rfl, rfl, rfl, rfl, hf, trivial⟩, nofun⟩

theorem fresh_of_steady {A : Nat × Bytes → Int → Int → Prop} {b s : File} (h : Steady A b s) : Fresh s :=
  fun n hn => by
    rw [h.server]
    exact h.told n hn

theorem askStat_of_fresh {f : File} (hf : Fresh f) (refresh : Bool) (meets : Nat → Meeting) :
    Act.Spec (fun s => s = f) (askStat refresh meets) (fun n s => n = f.server.length ∧ Fresh s)
      fun _ => Fresh :=
  (askStat_spec (o := False) (fun _ _ _ _ => trivial) nofun refresh).conseq
    (fun s hs => by rw [hs]; exact standing_of_fresh hf) (fun _ _ hs => ⟨hs.1, fresh_of_steady hs.2.1⟩)
    fun _ _ hs => fresh_of_steady hs.1

theorem fresh_askStat (refresh : Bool) (meets : Nat → Meeting) {f : File} (hf : Fresh f) :
    Fresh (askStat refresh meets f).2 :=
  ((askStat_of_fresh hf refresh meets).conseq (fun _ hs => hs) (fun _ _ hs => hs.2)
    fun _ _ hs => hs).state rfl

theorem fresh_after_iff {f : File} (hf : Fresh f) (call : WriteCall) :
    Fresh (f.after call) ↔ f.Settled call := by
  cases call with
  | write w data offset => exact (gives_write w data offset).forgets.fresh_iff hf
  | writePieces w pieces offset depth =>
    by_cases hplane : f.writesOnPlane w.idle = true
    · refine iff_of_true (fresh_of_none (writePieces_none hplane _ _ _)) (.inr ?_)
      simp [brokenOff, hplane]
    · have hserial : writePieces w pieces offset depth f = streamSerially w offset pieces 0 0 f := by
        rw [writePieces, Act.bind_of_ok (show Act.get f = (.ok f, f) from rfl), if_neg hplane]
      rw [after, hserial]
      cases pieces with
      | nil => exact iff_of_true hf (.inr (by simp [brokenOff]))
      | cons piece rest =>
        simp only [Settled, brokenOff, if_neg hplane]
        exact streamSerially_fresh_iff w offset piece rest hf
  | writev fates items => exact (forgets_writev fates items).fresh_iff hf
  | pgwrite first turns data offset => exact (forgets_pgwrite first turns data offset).fresh_iff hf
  | clone w ranges => exact (forgets_clone w ranges).fresh_iff hf
  | truncate fate size => exact (gives_truncate fate size).forgets.fresh_iff hf
  | stat refresh meets => exact iff_of_true (fresh_askStat refresh meets hf) (.inr (by simp [brokenOff]))
  | beginCheckpoint fate => exact (keeps_beginCheckpoint fate).forgets.fresh_iff hf
  | commit fate => exact (forgets_commit fate).fresh_iff hf
  | rollback fate => exact (forgets_rollback fate).fresh_iff hf

/-- What the handle gives for the size is the length of the file, and a read of everything behind
an offset is one of all there is. -/
structure SizeRight (f : File) : Prop where
  size : ∀ meets n, (size meets f).1 = .ok n → n = f.server.length
  stat : ∀ meets n, (askStat false meets f).1 = .ok n → n = f.server.length
  all : ∀ w offset n, (readSize w (-1) offset f).1 = .ok n → n = f.server.length - offset

theorem size_of_fresh {f : File} (hf : Fresh f) (meets : Nat → Meeting) :
    Act.Spec (fun s => s = f) (File.size meets) (fun n _ => n = f.server.length) fun _ _ => True :=
  (size_spec (o := False) (fun _ _ _ _ => trivial) nofun).conseq
    (fun s hs => by rw [hs]; exact standing_of_fresh hf) (fun _ _ hs => hs.1) fun _ _ _ => trivial

theorem sizeRight_of_fresh {f : File} (hf : Fresh f) : SizeRight f where
  size meets n hn := (size_of_fresh hf meets).ok rfl (Act.eq_of_value hn)
  stat meets n hn := ((askStat_of_fresh hf false meets).ok rfl (Act.eq_of_value hn)).1
  all w offset n hn := by
    have hread : Act.Spec (fun s => s = f) (readSize w (-1) offset)
        (fun n _ => n = f.server.length - offset) fun _ _ => True := by
      rw [readSize, if_pos (by decide)]
      refine Act.Spec.bind (size_of_fresh hf w.stat) fun length => ?_
      refine Act.Spec.bind (Q := fun _ _ => length = f.server.length) ?_ fun _ =>
        Act.Spec.pure _ fun _ hs => congrArg (· - offset) hs
      intro s hs
      rcases checkWholeRead (length - offset) s with ⟨_ | _, _⟩
      · trivial
      · exact hs
    exact hread.ok rfl (Act.eq_of_value hn)

theorem sizeRight_iff_fresh {f : File} : SizeRight f ↔ Fresh f := by
  refine ⟨fun h n hn => ⟨?_, ?_⟩, sizeRight_of_fresh⟩
  · refine h.stat (fun _ => {}) n ?_
    rw [askStat, Act.bind_of_ok (show Act.get f = (.ok f, f) from rfl), hn]
    rfl
  · refine h.size (fun _ => {}) f.sizeHint ?_
    rw [File.size, Act.bind_of_ok (show Act.get f = (.ok f, f) from rfl), hn]
    rfl

/-- The file behind some calls. -/
def reached (f : File) (calls : List WriteCall) : File := calls.foldl after f

def EachSettled (f : File) : List WriteCall → Prop
  | [] => True
  | call :: rest => f.Settled call ∧ EachSettled (f.after call) rest

/-- The size is right behind every call exactly if no call raises on a file that has become longer or
shorter while a size is kept. -/
theorem size_right_iff {f : File} (hf : SizeRight f) (calls : List WriteCall) :
    (∀ first, first <+: calls → SizeRight (f.reached first)) ↔ f.EachSettled calls := by
  induction calls generalizing f with
  | nil =>
    refine iff_of_true (fun first h => ?_) trivial
    rwa [List.prefix_nil.mp h]
  | cons call rest ih =>
    have hstep : SizeRight (f.after call) ↔ f.Settled call := by
      rw [sizeRight_iff_fresh]
      exact fresh_after_iff (sizeRight_iff_fresh.mp hf) call
    constructor
    · intro hall
      have hafter : SizeRight (f.after call) :=
        hall [call] (List.cons_prefix_cons.mpr ⟨rfl, List.nil_prefix⟩)
      refine ⟨hstep.mp hafter, (ih hafter).mp fun first h => ?_⟩
      exact hall (call :: first) (List.cons_prefix_cons.mpr ⟨rfl, h⟩)
    · rintro ⟨hsettled, hrest⟩ first hfirst
      cases first with
      | nil => exact hf
      | cons c first =>
        obtain ⟨rfl, hrests⟩ := List.cons_prefix_cons.mp hfirst
        exact (ih (hstep.mpr hsettled)).mpr hrest first hrests

/-- An empty file on the server, and the handle knows that it is empty. -/
def emptyFile : File :=
  { config := { bulk := false, chunkSize := 2 }, flags := { update := true }, stat := some 0, server := [] }

theorem emptyFile_right : emptyFile.SizeRight :=
  sizeRight_of_fresh fun _ hn => ⟨(Option.some.inj hn).symm, rfl⟩

/-- Of a write of two chunks the second one is refused. -/
def refusedBehind : WriteCall :=
  .write { ways := fun i => if i = 1 then { control := .failed 0 (.server 3011) } else {} } [1, 2, 3, 4] 0

theorem size_right_after_truncate : emptyFile.SizeRight ∧
    ∀ first, first <+: [.truncate .acked 3, refusedBehind] → SizeRight (emptyFile.reached first) :=
  ⟨emptyFile_right, (size_right_iff emptyFile_right _).mpr
    ⟨.inr fun g hg => absurd hg (Option.not_mem_none g), .inl rfl, trivial⟩⟩

/-- The first chunk is on the server, and the size is still that of the empty file. -/
theorem size_stale_after_refusal : ¬ ∀ (f : File) (calls : List WriteCall), SizeRight f →
    ∀ first, first <+: calls → SizeRight (f.reached first) := by
  intro hclaim
  have hright := hclaim emptyFile [refusedBehind] emptyFile_right _ List.prefix_rfl
  exact absurd (hright.size (fun _ => {}) 0 (by decide)) (by decide)

end XrdClient.Client.File
