/-
  Client/Stored.lean --- what the server has behind a write that returned.

  Source: `client/_writing.py`, `write`, `_plane_write` and `_event_write`.

  A write that names its place may be sent again: what was stored of it before lies inside
  it, and is covered (`Covers`).  A write in a file opened to append may not: what a data
  path has stored of a chunk and not answered stays in front of it (`stray`).
-/
import XrdClient.Client.Kept

set_option autoImplicit false

namespace XrdClient.Client

open XrdClient.Lib
open XrdClient.Session

/-- What is stored of a chunk by a data path that did not answer for it. -/
def WriteWay.stray (way : WriteWay) (piece : Bytes) : Bytes :=
  match way.arrival with
  | some (.failed kept _) => piece.take kept
  | _ => []

namespace File

/-- A file without what is known of its contents. -/
def rest (f : File) : File := { f with server := [], stat := none, sizeHint := 0 }

theorem blind_rest : Blind rest := fun _ _ => rfl

theorem keeps_invalidate (high : Nat) (exact : Bool) : Keeps rest (invalidate high exact) :=
  .modify fun _ => rfl

theorem keeps_eventWrite (ways : Nat → WriteWay) (view : Bytes) (offset : Nat) :
    Keeps rest (eventWrite ways view offset) :=
  .get_bind fun _ => (keeps_writeLoop blind_rest _ _ _ _ _ _ _).bind fun _ =>
    (keeps_invalidate _ _).bind fun _ => .pure _

theorem keeps_write (w : WriteWeather) (view : Bytes) (offset : Nat) : Keeps rest (write w view offset) := by
  refine .get_bind fun f => .ite ((keeps_planeWrite blind_rest _ _ _).bind fun written => ?_)
    (keeps_eventWrite _ _ _)
  cases written with
  | some written => exact (keeps_invalidate _ _).bind fun _ => .pure _
  | none => exact keeps_eventWrite _ _ _

/-! ## One chunk -/

/-- What `data` makes of a file, by the way it is opened. -/
def placedIn (append : Bool) (content : Bytes) (offset : Nat) (data : Bytes) : Bytes :=
  if append then content ++ data else writeAt 0 content offset data

/-- The server has `content`, of a file that is opened to append or not. -/
def Has (append : Bool) (content : Bytes) (f : File) : Prop := f.flags.append = append ∧ f.server = content

theorem Has.stored {append : Bool} {content : Bytes} {f : File} (h : Has append content f) (offset : Nat)
    (data : Bytes) : Has append (placedIn append content offset data) (f.stored offset data) := by
  obtain ⟨rfl, rfl⟩ := h
  exact ⟨rfl, rfl⟩

variable {append : Bool} {content : Bytes}

theorem has_handle : Act.Spec (Has append content) handle (fun _ => Has append content)
    fun _ s => s.isOpen = false :=
  Act.Spec.of_each fun _ hf => Act.Spec.get_bind (Act.Spec.ite
    (fun _ => Act.Spec.pure _ fun _ hs => hs ▸ hf)
    fun hclosed => Act.Spec.throw _ fun _ hs => hs ▸ Bool.eq_false_iff.mpr hclosed)

theorem put_spec (fate : Fate) (offset : Nat) (piece : Bytes) :
    Act.Spec (Has append content) (put fate offset piece)
      (fun _ s => fate = .acked ∧ Has append (placedIn append content offset piece) s)
      fun _ s => s.isOpen = false ∨ ∃ kept e, fate = .failed kept e ∧
        Has append (placedIn append content offset (piece.take kept)) s := by
  refine Act.Spec.bind (has_handle.conseq (fun _ hs => hs) (fun _ _ hs => hs) fun _ _ => .inl) fun _ => ?_
  cases fate with
  | acked =>
    intro s hs
    have hwhole : s.storedEach [(offset, piece)] ([(offset, piece)].map fun w => w.2.length).sum =
        s.stored offset piece := by
      simp [storedEach]
    show _ ∧ Has append _ (s.storedEach _ _)
    rw [hwhole]
    exact ⟨rfl, hs.stored offset piece⟩
  | failed kept e =>
    exact fun s hs => .inr ⟨kept, e, rfl, hs.stored offset (piece.take kept)⟩

/-- A file that is closed takes nothing. -/
theorem put_closed (fate : Fate) (offset : Nat) (piece : Bytes) :
    Act.Spec (fun s => s.isOpen = false) (put fate offset piece) (fun _ _ => False) fun _ _ => True := by
  refine Act.Spec.bind (Q := fun _ _ => False) ?_ fun _ _ hs => hs.elim
  exact Act.Spec.of_each fun _ hf => Act.Spec.get_bind (Act.Spec.ite
    (fun hopen => absurd hopen (by simp [hf])) fun _ => Act.Spec.throw _ fun _ _ => trivial)

/-- A chunk that is answered is on the server, behind what a data path had stored of it. -/
theorem bulkWrite_spec (way : WriteWay) (offset : Nat) (piece : Bytes) :
    Act.Spec (Has append content) (bulkWrite way offset piece)
      (fun _ => Has append (placedIn append (placedIn append content offset (way.stray piece)) offset piece))
      fun _ _ => True := by
  have hnone : placedIn append content offset [] = content := by
    cases append <;> simp [placedIn]
  rw [bulkWrite, WriteWay.stray]
  cases harrival : way.arrival with
  | none =>
    dsimp only
    rw [hnone]
    exact (put_spec way.control offset piece).conseq (fun _ hs => hs) (fun _ _ hs => hs.2)
      fun _ _ _ => trivial
  | some fate =>
    refine Act.Spec.tryExcept ((put_spec fate offset piece).conseq (fun _ hs => hs) (fun _ s hs => ?_)
      fun _ _ hs => hs) fun e => Act.Spec.ite (fun _ => Act.Spec.throw _ fun _ _ => trivial) fun _ s hs => ?_
    · obtain ⟨rfl, hhas⟩ := hs
      rwa [hnone]
    · obtain hclosed | ⟨kept, e, rfl, hhas⟩ := hs
      · have hout := put_closed way.control offset piece s hclosed
        rcases h : put way.control offset piece s with ⟨_ | _, _⟩ <;> rw [h] at hout
        · trivial
        · exact hout.elim
      · exact (put_spec way.control offset piece).conseq (fun _ hs => hs) (fun _ _ hs => hs.2)
          (fun _ _ _ => trivial) s hhas

/-! ## The event path -/

/-- The chunks that the event path makes of what it has not written. -/
def chunked (limit : Int) (view : Bytes) : Nat → Nat → List Bytes
  | 0, _ => []
  | fuel + 1, written =>
      if view.length ≤ written then []
      else
        let piece := (sliceTo view (written + limit)).drop written
        piece :: chunked limit view fuel (written + piece.length)

/-- Some chunks, each behind what is stray of it. -/
def laidDown (append : Bool) (ways : Nat → WriteWay) : Nat → Nat → List Bytes → Bytes → Bytes
  | _, _, [], content => content
  | i, offset, piece :: pieces, content =>
      laidDown append ways (i + 1) (offset + piece.length) pieces
        (placedIn append (placedIn append content offset ((ways i).stray piece)) offset piece)

theorem chunk_fits (view : Bytes) {written : Nat} (hwritten : written ≤ view.length) (n : Int) :
    written + ((sliceTo view n).drop written).length ≤ view.length ∧
      (sliceTo view n).drop written ++ view.drop (written + ((sliceTo view n).drop written).length) =
        view.drop written := by
  rw [sliceTo, List.drop_take, ← List.drop_drop]
  have hprefix : (view.drop written).take (sliceIndex view.length n - written) <+: view.drop written :=
    List.take_prefix _ _
  have hle := hprefix.length_le
  have hdrop : (view.drop written).length = view.length - written := List.length_drop
  exact ⟨by omega, List.prefix_iff_eq_append.mp hprefix⟩

theorem writeLoop_spec (ways : Nat → WriteWay) (limit : Int) (view : Bytes) (offset : Nat) :
    ∀ (fuel i written : Nat) (content : Bytes), written ≤ view.length →
    Act.Spec (Has append content) (writeLoop ways limit view offset fuel i written)
      (fun n s => n = view.length ∧ (chunked limit view fuel written).flatten = view.drop written ∧
        Has append (laidDown append ways i (offset + written) (chunked limit view fuel written) content) s)
      fun _ _ => True := by
  intro fuel
  induction fuel with
  | zero => exact fun _ _ _ _ => Act.Spec.throw _ fun _ _ => trivial
  | succ fuel ih =>
    intro i written content hwritten
    rw [chunked]
    refine Act.Spec.ite (fun hend => Act.Spec.pure _ fun s hs => ?_) fun hmore => ?_
    · rw [if_pos hend]
      exact ⟨Nat.le_antisymm hwritten hend, by rw [List.drop_of_length_le hend]; rfl, hs⟩
    rw [if_neg hmore]
    obtain ⟨hle, hsplit⟩ := chunk_fits view hwritten (written + limit)
    refine Act.Spec.bind (bulkWrite_spec (ways i) (offset + written) _) fun _ =>
      (ih (i + 1) _ _ hle).conseq (fun _ hs => hs) (fun n s hs => ⟨hs.1, ?_, ?_⟩) fun _ _ hs => hs
    · rw [List.flatten_cons, hs.2.1]
      exact hsplit
    · rw [laidDown, Nat.add_assoc]
      exact hs.2.2

/-- In its place, whatever was stray of it is covered. -/
theorem laidDown_placed (ways : Nat → WriteWay) : ∀ (pieces : List Bytes) (i offset : Nat) (content : Bytes),
    laidDown false ways i offset pieces content = writeAt 0 content offset pieces.flatten := by
  intro pieces
  induction pieces with
  | nil => exact fun _ _ _ => rfl
  | cons piece pieces ih =>
    intro i offset content
    have hstray : ((ways i).stray piece).length ≤ piece.length := by
      rw [WriteWay.stray]
      split
      · exact List.length_take_le' _ _
      · exact Nat.zero_le _
    have hpiece : placedIn false (placedIn false content offset ((ways i).stray piece)) offset piece =
        writeAt 0 content offset piece := writeAt_covers 0 content (Nat.le_refl _) (by omega)
    rw [laidDown, hpiece, ih, writeAt_append, List.flatten_cons]

/-- Chunks, each behind what is stray of it. -/
def strewn (ways : Nat → WriteWay) : Nat → List Bytes → Bytes
  | _, [] => []
  | i, piece :: pieces => (ways i).stray piece ++ (piece ++ strewn ways (i + 1) pieces)

theorem laidDown_appended (ways : Nat → WriteWay) : ∀ (pieces : List Bytes) (i offset : Nat) (content : Bytes),
    laidDown true ways i offset pieces content = content ++ strewn ways i pieces := by
  intro pieces
  induction pieces with
  | nil => exact fun _ _ content => (List.append_nil content).symm
  | cons piece pieces ih =>
    intro i offset content
    rw [laidDown, ih]
    simp [placedIn, strewn]

/-- Nothing is stray of any chunk. -/
def NothingStray (ways : Nat → WriteWay) (pieces : List Bytes) : Prop :=
  ∀ i piece, pieces[i]? = some piece → (ways i).stray piece = []

theorem strewn_length (ways : Nat → WriteWay) : ∀ (pieces : List Bytes) (i : Nat),
    pieces.flatten.length ≤ (strewn ways i pieces).length := by
  intro pieces
  induction pieces with
  | nil => exact fun _ => Nat.le_refl _
  | cons piece pieces ih =>
    intro i
    have := ih (i + 1)
    rw [strewn, List.flatten_cons, List.length_append, List.length_append, List.length_append]
    omega

theorem strewn_eq_iff : ∀ (pieces : List Bytes) (ways : Nat → WriteWay) (i : Nat),
    strewn ways i pieces = pieces.flatten ↔ NothingStray (fun k => ways (i + k)) pieces := by
  intro pieces
  induction pieces with
  | nil => exact fun _ _ => iff_of_true rfl nofun
  | cons piece pieces ih =>
    intro ways i
    rw [strewn, List.flatten_cons]
    constructor
    · intro heq
      have hlength := congrArg List.length heq
      have hle := strewn_length ways pieces (i + 1)
      simp only [List.length_append] at hlength
      have hstray : (ways i).stray piece = [] := List.eq_nil_of_length_eq_zero (by omega)
      rw [hstray, List.nil_append, List.append_cancel_left_eq, ih] at heq
      intro k p hk
      cases k with
      | zero => rwa [← Option.some.inj hk]
      | succ k =>
        have hnext : (ways (i + 1 + k)).stray p = [] := heq k p hk
        rwa [Nat.add_assoc, Nat.add_comm 1 k] at hnext
    · intro hnone
      have hrest : strewn ways (i + 1) pieces = pieces.flatten := (ih ways (i + 1)).mpr fun k p hk => by
        have hnext : (ways (i + (k + 1))).stray p = [] := hnone (k + 1) p hk
        rwa [Nat.add_comm k 1, ← Nat.add_assoc] at hnext
      have hfirst : (ways i).stray piece = [] := hnone 0 piece rfl
      rw [hfirst, hrest, List.nil_append]

/-- The ways of the event path. -/
def eventWays (f : File) (ways : Nat → WriteWay) : Nat → WriteWay :=
  if f.checkpoint then fun i => { ways i with arrival := none } else ways

/-- The chunks of the event path. -/
def eventChunks (f : File) (view : Bytes) : List Bytes :=
  chunked f.config.chunkSize view (view.length + 1) 0

theorem eventWrite_spec (f : File) (ways : Nat → WriteWay) (view : Bytes) (offset : Nat) :
    Act.Spec (fun s => s = f) (eventWrite ways view offset)
      (fun n s => n = view.length ∧ s.stat = none ∧ (f.eventChunks view).flatten = view ∧
        s.server = laidDown f.flags.append (f.eventWays ways) 0 offset (f.eventChunks view) f.server)
      fun _ _ => True := by
  have hloop := @writeLoop_spec f.flags.append (f.eventWays ways) f.config.chunkSize view offset
    (view.length + 1) 0 0 f.server (Nat.zero_le _)
  refine Act.Spec.get_bind (Act.Spec.bind (hloop.conseq (fun s hs => ?_) (fun _ _ hs => hs)
    fun _ _ hs => hs) fun n s hs => ⟨hs.1, rfl, hs.2.1, hs.2.2.2⟩)
  subst hs
  exact ⟨rfl, rfl⟩

/-! ## The bulk plane -/

/-- The pieces lie one behind the other. -/
def Laid : Nat → List (Nat × Bytes) → Prop
  | _, [] => True
  | offset, piece :: rest => piece.1 = offset ∧ Laid (offset + piece.2.length) rest

/-- What the pieces are of. -/
def joined (pieces : List (Nat × Bytes)) : Bytes := (pieces.map Prod.snd).flatten

theorem Laid.inside : ∀ {pieces : List (Nat × Bytes)} {offset : Nat}, Laid offset pieces →
    ∀ p ∈ pieces, offset ≤ p.1 ∧ p.1 + p.2.length ≤ offset + (joined pieces).length := by
  intro pieces
  induction pieces with
  | nil => exact fun _ _ hp => absurd hp List.not_mem_nil
  | cons piece rest ih =>
    rintro offset ⟨hat, hrest⟩ p hp
    have hlength : (joined (piece :: rest)).length = piece.2.length + (joined rest).length := by
      simp [joined]
    obtain rfl | hp := List.mem_cons.mp hp
    · omega
    · have := ih hrest p hp
      omega

theorem cuts_nil (chunk offset : Nat) (hchunk : 0 < chunk) : cuts chunk [] offset = [] := by
  rw [cuts, BulkReader.chunks, List.length_nil, Nat.zero_add, Nat.div_eq_of_lt (by omega)]
  rfl

theorem cuts_cons {chunk : Nat} (hchunk : 0 < chunk) {view : Bytes} (hview : view ≠ []) (offset : Nat) :
    cuts chunk view offset = (offset, view.take chunk) :: cuts chunk (view.drop chunk) (offset + chunk) := by
  have hpos := List.length_pos_iff.mpr hview
  have hcount : (view.length + chunk - 1) / chunk = ((view.drop chunk).length + chunk - 1) / chunk + 1 := by
    rw [List.length_drop]
    by_cases hle : chunk ≤ view.length
    · rw [← Nat.add_div_right _ hchunk]
      congr 1
      omega
    · have hlast : view.length + chunk - 1 = view.length - 1 + chunk := by omega
      rw [hlast, Nat.add_div_right _ hchunk, Nat.div_eq_of_lt (by omega), Nat.div_eq_of_lt (by omega)]
  rw [cuts, BulkReader.chunks, hcount, List.range_succ_eq_map, List.map_cons, List.map_cons, List.map_map,
    List.map_map, cuts, BulkReader.chunks, List.map_map]
  congr 1
  · simp [slice]
  · refine List.map_congr_left fun i _ => ?_
    have hplace : (i + 1) * chunk = chunk + i * chunk := by rw [Nat.succ_mul, Nat.add_comm]
    simp only [Function.comp_apply, Nat.succ_eq_add_one, hplace, slice, List.length_drop, List.drop_drop,
      Nat.sub_sub, Nat.add_assoc]

theorem cuts_laid {chunk : Nat} (hchunk : 0 < chunk) : ∀ (n : Nat) (view : Bytes) (offset : Nat),
    view.length ≤ n → Laid offset (cuts chunk view offset) ∧ joined (cuts chunk view offset) = view := by
  intro n
  induction n with
  | zero =>
    intro view offset hn
    obtain rfl := List.eq_nil_of_length_eq_zero (Nat.le_zero.mp hn)
    rw [cuts_nil chunk offset hchunk]
    exact ⟨trivial, rfl⟩
  | succ n ih =>
    intro view offset hn
    by_cases hview : view = []
    · rw [hview, cuts_nil chunk offset hchunk]
      exact ⟨trivial, rfl⟩
    have hpos := List.length_pos_iff.mpr hview
    obtain ⟨hlaid, hjoined⟩ := ih (view.drop chunk) (offset + chunk) (by rw [List.length_drop]; omega)
    rw [cuts_cons hchunk hview]
    refine ⟨⟨rfl, ?_⟩, ?_⟩
    · by_cases hle : chunk ≤ view.length
      · rwa [List.length_take, Nat.min_eq_left hle]
      · rw [List.drop_of_length_le (by omega), cuts_nil chunk _ hchunk]
        trivial
    · rw [joined, List.map_cons, List.flatten_cons]
      exact (congrArg (view.take chunk ++ ·) hjoined).trans (List.take_append_drop _ _)

theorem landed_covered {view : Bytes} {offset : Nat} : ∀ (pieces : List (Nat × Bytes)) (fates : List Fate)
    {f : File}, f.flags.append = false →
    (∀ p ∈ pieces, offset ≤ p.1 ∧ p.1 + p.2.length ≤ offset + view.length) →
    (f.landed pieces fates).flags.append = false ∧
      writeAt 0 (f.landed pieces fates).server offset view = writeAt 0 f.server offset view := by
  intro pieces
  induction pieces with
  | nil => exact fun fates f happend _ => by cases fates <;> exact ⟨happend, rfl⟩
  | cons p pieces ih =>
    intro fates f happend hinside
    obtain ⟨hp, hrest⟩ := List.forall_mem_cons.mp hinside
    have hstored : ∀ data : Bytes, data.length ≤ p.2.length →
        writeAt 0 (f.stored p.1 data).server offset view = writeAt 0 f.server offset view := by
      intro data hdata
      rw [show (f.stored p.1 data).server = writeAt 0 f.server p.1 data by simp [stored, happend]]
      exact writeAt_covers 0 f.server hp.1 (by omega)
    match fates with
    | [] => exact ⟨happend, rfl⟩
    | .acked :: fates =>
      obtain ⟨happend', hserver⟩ := ih fates (f := f.stored p.1 p.2) happend hrest
      exact ⟨happend', hserver.trans (hstored _ (Nat.le_refl _))⟩
    | .failed kept _ :: fates =>
      obtain ⟨happend', hserver⟩ := ih fates (f := f.stored p.1 (p.2.take kept)) happend hrest
      exact ⟨happend', hserver.trans (hstored _ (List.length_take_le' _ _))⟩

/-- A window that is acknowledged is on the server. -/
theorem landed_acked : ∀ (pieces : List (Nat × Bytes)) (fates : List Fate) {f : File} {offset : Nat},
    f.flags.append = false → Laid offset pieces → (∀ fate ∈ fates, fate = .acked) →
    pieces.length ≤ fates.length →
    (f.landed pieces fates).server = writeAt 0 f.server offset (joined pieces) ∧
      ((acknowledged pieces fates).map Prod.snd).sum = (joined pieces).length := by
  intro pieces
  induction pieces with
  | nil =>
    intro fates f offset _ _ _ _
    cases fates <;> exact ⟨rfl, rfl⟩
  | cons p pieces ih =>
    rintro fates f offset happend ⟨hat, hlaid⟩ hacked hlength
    cases fates with
    | nil => exact absurd hlength (by simp)
    | cons fate fates =>
      obtain ⟨rfl, hrest⟩ := List.forall_mem_cons.mp hacked
      obtain ⟨hserver, hsum⟩ := ih fates (f := f.stored p.1 p.2) happend hlaid hrest
        (Nat.le_of_succ_le_succ hlength)
      constructor
      · rw [landed, hserver, show (f.stored p.1 p.2).server = writeAt 0 f.server p.1 p.2 by
          simp [stored, happend], hat, writeAt_append]
        rfl
      · simp only [acknowledged] at hsum
        simp [acknowledged, joined, hsum]

theorem acked_of_firstFailure : ∀ {fates : List Fate}, firstFailure false fates = none →
    ∀ fate ∈ fates, fate = .acked := by
  intro fates
  induction fates with
  | nil => exact fun _ _ h => absurd h List.not_mem_nil
  | cons fate fates ih =>
    intro hnone
    cases fate with
    | acked => exact List.forall_mem_cons.mpr ⟨rfl, ih hnone⟩
    | failed kept e => simp [firstFailure] at hnone

/-- What was to be written is written where it belongs once it is written again. -/
def Covers (view : Bytes) (offset : Nat) (content : Bytes) (f : File) : Prop :=
  f.flags.append = false ∧ writeAt 0 f.server offset view = content

theorem stream_spec {f : File} (happend : f.flags.append = false) {pieces : List (Nat × Bytes)}
    {offset : Nat} (hlaid : Laid offset pieces) (w : Window) :
    Act.Spec (fun s => s = f) (stream false pieces w)
      (fun n s => n = (joined pieces).length ∧ s.server = writeAt 0 f.server offset (joined pieces))
      fun _ => Covers (joined pieces) offset (writeAt 0 f.server offset (joined pieces)) := by
  refine Act.Spec.modify_bind (a := f) ?_
  have hcovers := landed_covered pieces w.fates happend hlaid.inside
  cases hfailure : (firstFailure false w.fates).or w.ended with
  | some e => exact Act.Spec.throw _ fun s hs => by rwa [hs]
  | none =>
    refine Act.Spec.ite (fun _ => Act.Spec.throw _ fun s hs => by rwa [hs]) fun hmany =>
      Act.Spec.pure _ fun s hs => ?_
    have hacked := acked_of_firstFailure (Option.or_eq_none_iff.mp hfailure).1
    obtain ⟨hserver, hsum⟩ := landed_acked pieces w.fates happend hlaid hacked (Nat.le_of_not_lt hmany)
    exact ⟨hsum, by rw [hs, hserver]⟩

theorem planeWrite_spec {f : File} (happend : f.flags.append = false) (w : WriteWeather) (view : Bytes)
    (offset : Nat) : Act.Spec (fun s => s = f) (planeWrite w view offset)
      (fun got s => match got with
        | some n => n = view.length ∧ s.server = writeAt 0 f.server offset view
        | none => Covers view offset (writeAt 0 f.server offset view) s)
      fun _ _ => True := by
  refine Act.Spec.get_bind (Act.Spec.ite (fun _ => Act.Spec.throw _ fun _ _ => trivial) fun _ => ?_)
  refine Act.Spec.bind handle_same fun _ => ?_
  cases w.plane with
  | declines =>
    refine Act.Spec.pure _ fun s hs => ?_
    subst hs
    exact ⟨happend, rfl⟩
  | lost => exact Act.Spec.throw _ fun _ _ => trivial
  | protocol => exact Act.Spec.throw _ fun _ _ => trivial
  | lends window =>
    refine Act.Spec.ite (fun hmakes => ?_) fun _ => Act.Spec.throw _ fun _ _ => trivial
    have hchunk : 0 < f.config.chunkSize.toNat := by
      have := hmakes.1
      omega
    obtain ⟨hlaid, hjoined⟩ := cuts_laid hchunk view.length view offset (Nat.le_refl _)
    have hstream := stream_spec happend hlaid window
    rw [hjoined] at hstream
    exact Act.Spec.tryExcept (Act.Spec.bind hstream fun n => Act.Spec.pure _ fun _ hs => hs) fun e =>
      Act.Spec.ite (fun _ => Act.Spec.pure _ fun _ hs => hs) fun _ => Act.Spec.throw _ fun _ _ => trivial

/-! ## A write -/

/-- A write that returns has written everything where it belongs, whichever path took it. -/
theorem write_placed {f : File} (happend : f.flags.append = false) (w : WriteWeather) (view : Bytes)
    (offset : Nat) : Act.Spec (fun s => s = f) (write w view offset)
      (fun n s => n = view.length ∧ s.stat = none ∧ s.rest = f.rest ∧
        s.server = writeAt 0 f.server offset view)
      fun _ _ => True := by
  have hevent : ∀ {g : File}, Covers view offset (writeAt 0 f.server offset view) g →
      Act.Spec (fun s => s = g) (eventWrite w.ways view offset)
        (fun n s => n = view.length ∧ s.stat = none ∧ s.server = writeAt 0 f.server offset view)
        fun _ _ => True := by
    rintro g ⟨happend', hcovers⟩
    refine (eventWrite_spec g w.ways view offset).conseq (fun _ hs => hs) (fun n s hs => ?_) fun _ _ hs => hs
    obtain ⟨hn, hstat, hwhole, hserver⟩ := hs
    exact ⟨hn, hstat, by rw [hserver, happend', laidDown_placed, hwhole, hcovers]⟩
  have hstored : Act.Spec (fun s => s = f) (write w view offset)
      (fun n s => n = view.length ∧ s.stat = none ∧ s.server = writeAt 0 f.server offset view)
      fun _ _ => True := by
    refine Act.Spec.get_bind (Act.Spec.ite (fun _ => Act.Spec.bind (planeWrite_spec happend w view offset)
      fun got => ?_) fun _ => hevent ⟨happend, rfl⟩)
    cases got with
    | some n => exact fun s hs => ⟨hs.1, rfl, hs.2⟩
    | none => exact Act.Spec.of_each fun g hg => hevent hg
  refine ((keeps_write w view offset f.rest).and hstored).conseq (fun s hs => ?_) (fun n s hs => ?_)
    fun _ _ _ => trivial
  · subst hs
    exact ⟨rfl, rfl⟩
  · exact ⟨hs.2.1, hs.2.2.1, hs.1, hs.2.2.2⟩

/-- A write in a file opened to append that returns has added everything, and what was stray. -/
theorem write_appended {f : File} (happend : f.flags.append = true) (w : WriteWeather) (view : Bytes)
    (offset : Nat) : Act.Spec (fun s => s = f) (write w view offset)
      (fun n s => n = view.length ∧ s.stat = none ∧ s.rest = f.rest ∧ (f.eventChunks view).flatten = view ∧
        s.server = f.server ++ strewn (f.eventWays w.ways) 0 (f.eventChunks view))
      fun _ _ => True := by
  have hevent := eventWrite_spec f w.ways view offset
  simp only [happend, laidDown_appended] at hevent
  have hstored : Act.Spec (fun s => s = f) (write w view offset)
      (fun n s => n = view.length ∧ s.stat = none ∧ (f.eventChunks view).flatten = view ∧
        s.server = f.server ++ strewn (f.eventWays w.ways) 0 (f.eventChunks view))
      fun _ _ => True :=
    Act.Spec.get_bind (Act.Spec.ite (fun hplane => absurd hplane.2 (by simp [writesOnPlane, happend]))
      fun _ => hevent)
  refine ((keeps_write w view offset f.rest).and hstored).conseq (fun s hs => ?_) (fun n s hs => ?_)
    fun _ _ _ => trivial
  · subst hs
    exact ⟨rfl, rfl⟩
  · exact ⟨hs.2.1, hs.2.2.1, hs.1, hs.2.2.2⟩

end File

end XrdClient.Client
