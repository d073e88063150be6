/-
  Client/Reading.lean --- a read, by three paths, with a block of the file kept ahead.

  Source: `client/_reading.py`, `read`, `_sequential`, `_event_read`, `readinto`,
  `_plane_read` and `_plane_readinto`.

  The bulk plane is `BulkReader.into`, on the link as the call found it.  Which of what it
  raises is a lost connection is the class hierarchy of another package (`caught`).
-/
import XrdClient.Client.OpenFile

set_option autoImplicit false

namespace XrdClient.Client

open XrdClient.Lib
open XrdClient.Session
open XrdClient.Proto (MAX_RESPONSE_BODY)

def MIN_BULK_READ : Nat := 1048576

def MIN_BULK_CHUNK : Int := 262144

def MAX_AHEAD : Int := 8388608

/-! ## What a read meets -/

/-- How the plane's caller takes what it raises. -/
inductive Caught where
  | bulkUnsupported
  | connection (expired : Bool)
  | protocol
  | other (e : FileError)
  deriving DecidableEq

/-- What comes of borrowing the connection for the bulk plane. -/
inductive Plane where
  | declines
  | lost (expired : Bool)
  /-- It is lent already, or out of step; `broken` of the session behind it. -/
  | protocol (broken : Bool)
  /-- The link as the call finds it, by how much the call reads. -/
  | lends (link : Nat → BulkReader)

/-- What one read meets. -/
structure Weather where
  /-- The `kXR_stat` behind `size`. -/
  stat : Nat → Meeting := fun _ => {}
  /-- `_paths_idle()`. -/
  idle : Bool := true
  plane : Plane := .declines
  caught : BulkError → Caught := fun _ => .bulkUnsupported
  /-- The re-open behind a plane that was lost. -/
  reopening : Reopening := .opened true
  /-- Each chunk on the event path. -/
  chunks : Nat → Way := fun _ => {}

namespace File

/-! ## The event path -/

/-- `_read_one`: a range past its fields is not framed, and no server reads less than nothing. -/
def readOne (way : Way) (offset : Nat) (length : Int) : Op Bytes :=
  if 2 ^ 31 ≤ length ∨ 2 ^ 63 ≤ offset then Act.throw .field
  else if length < 0 then Act.throw (.server 0)
  else do
    bulkRead way
    let f ← Act.get
    pure (slice f.server offset length.toNat)

/-- The loop of `_event_read`. -/
def eventLoop (chunks : Nat → Way) (limit : Int) : Nat → Nat → Nat → Nat → Bytes → Op Bytes
  | 0, _, _, _, _ => Act.throw .never
  | fuel + 1, i, remaining, pos, parts =>
      if remaining = 0 then pure parts
      else do
        let n := min (remaining : Int) limit
        let chunk ← readOne (chunks i) pos n
        if (chunk.length : Int) < n then pure (parts ++ chunk)
        else eventLoop chunks limit fuel (i + 1) (remaining - n.toNat) (pos + n.toNat) (parts ++ chunk)

/-- `_event_read`. -/
def eventRead (chunks : Nat → Way) (size offset : Nat) : Op Bytes := do
  let f ← Act.get
  if (size : Int) ≤ f.config.chunkSize then readOne (chunks 0) offset size
  else eventLoop chunks f.config.chunkSize (size + 1) 0 size offset []

/-! ## The bulk plane -/

/-- `_reads_on_plane`. -/
def readsOnPlane (f : File) (idle : Bool) (size : Nat) : Bool :=
  f.config.bulk && (decide (MIN_BULK_READ ≤ size) || (f.pathid == 0 && idle))

/-- `_recover_from_plane`. -/
def recoverFromPlane (expired : Bool) (reopening : Reopening) : Op Unit := do
  let f ← Act.get
  if f.recoverable = false ∨ expired then Act.throw .transient
  else reopen reopening

/-- `_recover_from_step`. -/
def recoverFromStep (broken : Bool) (reopening : Reopening) : Op Unit := do
  let f ← Act.get
  if broken = false ∨ f.recoverable = false then Act.throw .protocol
  else reopen reopening

/-- `-(-a // b)`. -/
def ceilDiv (a b : Int) : Int := -((-a).fdiv b)

/-- What a `BulkReader` is made with, if it can be. -/
def bulkSettings (base : BulkSettings) (shape : Int × Int) : Option BulkSettings :=
  if h : 1 ≤ shape.1.toNat ∧ shape.1.toNat ≤ MAX_RESPONSE_BODY ∧ 1 ≤ shape.2.toNat then
    some { base with
      chunk := shape.1.toNat, depth := shape.2.toNat
      chunk_pos := h.1, chunk_le := h.2.1, depth_pos := h.2.2 }
  else none

/-- `chunk` and `depth` of `_plane_readinto`. -/
def planeShape (config : FileConfig) (size : Nat) : Int × Int :=
  let chunk := max MIN_BULK_CHUNK (min config.bulkChunk (ceilDiv size config.bulkDepth))
  (chunk, min config.bulkDepth (ceilDiv size chunk))

/-- The reader that `bulk` lends for a read of `size` bytes. -/
def lent (config : FileConfig) (link : BulkReader) (size : Nat) : Option BulkReader :=
  (bulkSettings link.settings (planeShape config size)).map fun settings =>
    { link with settings := settings }

/-- What `_plane_readinto` makes of what the reader did. -/
def settled (w : Weather) (view : Bytes) :
    Except BulkError (List (Nat × Bytes)) × BulkReader → Op (Option Bytes)
  | (.ok landed, _) =>
      pure (some ((BulkReader.viewed view landed).take (BulkReader.counted landed)))
  | (.error e, reader) =>
      match w.caught e with
      | .bulkUnsupported => pure none
      | .connection expired => do
          recoverFromPlane expired w.reopening
          pure none
      | .protocol => do
          recoverFromStep reader.broken w.reopening
          pure none
      | .other e => Act.throw e

/-- `_plane_readinto`: what has landed at the front of `view`, or `none` if the plane declined. -/
def planeReadinto (w : Weather) (view : Bytes) (offset : Nat) : Op (Option Bytes) := do
  let f ← Act.get
  if f.config.bulkDepth = 0 then Act.throw .zeroDivision
  else do
    handle
    match w.plane with
    | .declines => pure none
    | .lost expired => do
        recoverFromPlane expired w.reopening
        pure none
    | .protocol broken => do
        recoverFromStep broken w.reopening
        pure none
    | .lends link =>
        match lent f.config (link view.length) view.length with
        | none => Act.throw .value
        | some reader => settled w view (BulkReader.into view.length offset reader)

/-- `_plane_read`. -/
def planeRead (w : Weather) (size : Int) (offset : Nat) : Op (Option Bytes) :=
  if size < 0 then Act.throw .value
  else planeReadinto w (List.replicate size.toNat 0) offset

/-! ## Reading -/

/-- `_reads_ahead`. -/
def readsAhead (f : File) (size : Nat) : Bool :=
  decide (f.config.readahead ≠ 0) && decide ((size : Int) < MAX_AHEAD) && !f.flags.writing

/-- `_sequential`. -/
def sequential (w : Weather) (size offset : Nat) : Op (Option Bytes) := do
  let f ← Act.get
  let last := offset + size
  if f.ahead.1 ≤ offset ∧ last ≤ f.ahead.1 + f.ahead.2.length then do
    Act.modify fun f => { f with sequel := last }
    pure (some ((f.ahead.2.drop (offset - f.ahead.1)).take size))
  else if (offset : Int) ≠ f.sequel then do
    Act.modify fun f => { f with sequel := last, window := f.config.readahead }
    planeRead w size offset
  else do
    Act.modify fun f => { f with sequel := last, window := min (f.window * 2) MAX_AHEAD }
    match ← planeRead w (size + f.window) offset with
    | none => pure none
    | some data => do
        Act.modify fun f => { f with ahead := (offset, data) }
        pure (some (data.take size))

/-- `check_whole_read`. -/
def checkWholeRead (size : Nat) : Op Unit := do
  let f ← Act.get
  if f.config.maxReadSize ≠ 0 ∧ f.config.maxReadSize < size then
    Act.throw (.tooLarge size f.config.maxReadSize)
  else pure ()

/-- How much `read` reads. -/
def readSize (w : Weather) (size : Int) (offset : Nat) : Op Nat :=
  if size < 0 then do
    let length ← File.size w.stat
    checkWholeRead (length - offset)
    pure (length - offset)
  else pure size.toNat

/-- A read on the plane, with more behind it or not. -/
def onPlane (w : Weather) (size offset : Nat) : Op (Option Bytes) := do
  let f ← Act.get
  if f.readsAhead size then sequential w size offset else planeRead w size offset

/-- `read` of so many bytes, and `pread`. -/
def readSome (w : Weather) (size offset : Nat) : Op Bytes :=
  if size = 0 then pure []
  else do
    let f ← Act.get
    if f.readsOnPlane w.idle size then do
      match ← onPlane w size offset with
      | some data => pure data
      | none => eventRead w.chunks size offset
    else eventRead w.chunks size offset

/-- `read`. -/
def read (w : Weather) (size : Int) (offset : Nat) : Op Bytes := do
  let size ← readSize w size offset
  readSome w size offset

/-- `readinto`: what has landed at the front of `view`. -/
def readinto (w : Weather) (view : Bytes) (offset : Nat) : Op Bytes :=
  if view = [] then pure []
  else do
    let f ← Act.get
    if f.readsOnPlane w.idle view.length then do
      match ← planeReadinto w view offset with
      | some got => pure got
      | none => eventRead w.chunks view.length offset
    else eventRead w.chunks view.length offset

/-! ## What the event path returns -/

section

variable {A : Nat × Bytes → Int → Int → Prop} {b : File} {o : Prop}

theorem readOne_spec (hreset : Resets A) {way : Way} {offset : Nat} {length : Int}
    (hfair : o → 0 ≤ length ∧ length < 2 ^ 31 ∧ offset < 2 ^ 63 ∧ Serves b way) :
    Act.Spec (Standing A o b) (readOne way offset length)
      (fun data s => data = slice b.server offset length.toNat ∧ Steady A b s ∧ s.isOpen = true)
      (fun _ s => Steady A b s ∧ ¬ o) := by
  refine Act.Spec.ite (fun hlong => Act.Spec.throw _ fun s hs => ⟨hs.1, fun ho => ?_⟩) fun _ =>
    Act.Spec.ite (fun hneg => Act.Spec.throw _ fun s hs => ⟨hs.1, fun ho => ?_⟩) fun _ => ?_
  · obtain ⟨-, hlt, hoffset, -⟩ := hfair ho
    omega
  · obtain ⟨hle, -⟩ := hfair ho
    omega
  · refine Act.Spec.bind (bulkRead_spec hreset fun ho => (hfair ho).2.2.2) fun _ =>
      Act.Spec.of_each fun f hf => Act.Spec.get_bind (Act.Spec.pure _ fun s hs => ?_)
    subst hs
    exact ⟨by rw [hf.1.server], hf⟩

/-- A slice that is asked for piece by piece. -/
theorem slice_split (content : Bytes) (offset : Nat) {n size : Nat} (h : n ≤ size) :
    slice content offset size = slice content offset n ++ slice content (offset + n) (size - n) := by
  rw [slice, slice, slice, ← List.drop_drop, ← List.take_add, Nat.add_sub_cancel' h]

theorem slice_short {content : Bytes} {offset n size : Nat} (h : n ≤ size)
    (hshort : (slice content offset n).length < n) : slice content offset size = slice content offset n := by
  rw [length_slice] at hshort
  have hnone : slice content (offset + n) (size - n) = [] := by
    refine List.eq_nil_of_length_eq_zero ?_
    rw [length_slice]
    omega
  rw [slice_split content offset h, hnone, List.append_nil]

theorem eventLoop_spec (hreset : Resets A) {chunks : Nat → Way} {limit : Int}
    (hfair : o → 1 ≤ limit ∧ limit < 2 ^ 31 ∧ ∀ i, Serves b (chunks i)) (fuel : Nat) :
    ∀ (i remaining pos : Nat) (parts : Bytes),
    (o → remaining < fuel ∧ pos + remaining ≤ 2 ^ 63) →
    Act.Spec (Standing A o b) (eventLoop chunks limit fuel i remaining pos parts)
      (fun data s => data = parts ++ slice b.server pos remaining ∧ Standing A o b s)
      (fun _ s => Steady A b s ∧ ¬ o) := by
  induction fuel with
  | zero =>
    exact fun i remaining pos parts hfuel => Act.Spec.throw _ fun s hs =>
      ⟨hs.1, fun ho => absurd (hfuel ho).1 (Nat.not_lt_zero _)⟩
  | succ fuel ih =>
    intro i remaining pos parts hfuel
    refine Act.Spec.ite (fun hzero => Act.Spec.pure _ fun s hs => ⟨?_, hs⟩) fun hmore => ?_
    · simp [hzero, slice]
    refine Act.Spec.bind (readOne_spec hreset fun ho => ?_) fun chunk => Act.Spec.of_each fun f hf => ?_
    · have hlimit := hfair ho
      have hat := hfuel ho
      exact ⟨by omega, by omega, by omega, hlimit.2.2 i⟩
    obtain ⟨hchunk, hsteady, hopen⟩ := hf
    have hn : (min (remaining : Int) limit).toNat ≤ remaining := by omega
    refine Act.Spec.ite (fun hshort => Act.Spec.pure _ fun s hs => ?_) fun hfull => ?_
    · subst hs
      refine ⟨?_, hsteady, fun _ => hopen⟩
      rw [hchunk, slice_short hn]
      rw [← hchunk]
      omega
    · refine (ih (i + 1) _ _ (parts ++ chunk) fun ho => ?_).conseq (fun s hs => hs ▸ ⟨hsteady, fun _ => hopen⟩)
        (fun data s hs => ⟨?_, hs.2⟩) fun _ s hs => hs
      · have hlimit := hfair ho
        have hat := hfuel ho
        omega
      · rw [hs.1, hchunk, List.append_assoc, ← slice_split _ _ hn]

/-- What the event path needs to return: a chunk that can be framed, and a range that can. -/
structure FairChunks (b : File) (chunks : Nat → Way) (size offset : Nat) : Prop where
  pos : 1 ≤ b.config.chunkSize
  lt : b.config.chunkSize < 2 ^ 31
  framed : offset + size ≤ 2 ^ 63
  served : ∀ i, Serves b (chunks i)

/-- The event path returns what the server has there. -/
theorem eventRead_spec (hreset : Resets A) {chunks : Nat → Way} {size offset : Nat} (hsize : size ≠ 0)
    (hfair : o → FairChunks b chunks size offset) :
    Act.Spec (Standing A o b) (eventRead chunks size offset)
      (fun data s => data = slice b.server offset size ∧ Standing A o b s)
      (fun _ s => Steady A b s ∧ ¬ o) := by
  refine Act.Spec.of_each fun f hf => Act.Spec.get_bind ?_
  rw [hf.1.config]
  refine Act.Spec.ite (fun hone => ?_) fun _ => ?_
  · refine (readOne_spec hreset fun ho => ?_).conseq (fun s hs => hs ▸ hf)
      (fun data s hs => ⟨hs.1, hs.2.1, fun _ => hs.2.2⟩) fun _ s hs => hs
    have := hfair ho
    have hframed := this.framed
    have hlt := this.lt
    exact ⟨by omega, by omega, by omega, this.served 0⟩
  · exact (eventLoop_spec hreset (fun ho => ⟨(hfair ho).pos, (hfair ho).lt, (hfair ho).served⟩) (size + 1) 0
      size offset [] fun ho => ⟨Nat.lt_succ_self _, (hfair ho).framed⟩).conseq (fun s hs => hs ▸ hf)
      (fun data s hs => hs) fun _ s hs => hs

/-! ## What the bulk plane returns -/

/-- A server that gives what it has of each range that it is asked for. -/
def Honest (b : File) (w : Weather) (size offset : Nat) : Prop :=
  match w.plane with
  | .lends link => ∃ frames, (link size).Ready frames ∧ ∀ r ∈ lent b.config (link size) size,
      Exact (b.server.drop offset) (BulkReader.served (BulkReader.asked
        (BulkReader.chunks r.settings.chunk size) r (BulkReader.into size offset r).2) frames)
  | _ => True

/-- The re-open behind a lost plane succeeds. -/
def Reopens (b : File) (w : Weather) : Prop := b.recoverable = true ∧ ∃ told, w.reopening = .opened told

/-- The plane returns, declines, or is lost to a re-open that succeeds. -/
structure FairPlane (b : File) (w : Weather) (size offset : Nat) : Prop where
  depth : 1 ≤ b.config.bulkDepth
  chunk : b.config.bulkChunk ≤ MAX_RESPONSE_BODY
  outcome : match w.plane with
    | .declines => True
    | .lost expired => expired = false ∧ Reopens b w
    | .protocol broken => broken = true ∧ Reopens b w
    | .lends link => ∀ r ∈ lent b.config (link size) size,
        match BulkReader.into size offset r with
        | (.ok _, _) => True
        | (.error e, r') =>
            match w.caught e with
            | .bulkUnsupported => True
            | .connection expired => expired = false ∧ Reopens b w
            | .protocol => r'.broken = true ∧ Reopens b w
            | .other _ => False

theorem recoverFromPlane_spec (hreset : Resets A) {expired : Bool} {w : Weather}
    (hfair : o → expired = false ∧ Reopens b w) :
    Act.Spec (Standing A o b) (recoverFromPlane expired w.reopening) (fun _ => Standing A o b)
      (fun _ s => Steady A b s ∧ ¬ o) := by
  refine Act.Spec.of_each fun f hf => Act.Spec.get_bind (Act.Spec.ite (fun hno => ?_) fun _ => ?_)
  · refine Act.Spec.throw _ fun s hs => hs ▸ ⟨hf.1, fun ho => ?_⟩
    obtain ⟨rfl, hrecoverable, -⟩ := hfair ho
    rw [hf.1.recoverable, hrecoverable] at hno
    simp at hno
  · refine (reopen_spec hreset w.reopening).conseq (fun s hs => hs ▸ hf.1)
      (fun _ s hs => ⟨hs.2.1, fun _ => hs.2.2⟩) fun e s hs => ⟨hs.2, fun ho => ?_⟩
    obtain ⟨-, -, told, htold⟩ := hfair ho
    rw [htold] at hs
    cases hs.1

theorem recoverFromStep_spec (hreset : Resets A) {broken : Bool} {w : Weather}
    (hfair : o → broken = true ∧ Reopens b w) :
    Act.Spec (Standing A o b) (recoverFromStep broken w.reopening) (fun _ => Standing A o b)
      (fun _ s => Steady A b s ∧ ¬ o) := by
  refine Act.Spec.of_each fun f hf => Act.Spec.get_bind (Act.Spec.ite (fun hno => ?_) fun _ => ?_)
  · refine Act.Spec.throw _ fun s hs => hs ▸ ⟨hf.1, fun ho => ?_⟩
    obtain ⟨rfl, hrecoverable, -⟩ := hfair ho
    rw [hf.1.recoverable, hrecoverable] at hno
    simp at hno
  · refine (reopen_spec hreset w.reopening).conseq (fun s hs => hs ▸ hf.1)
      (fun _ s hs => ⟨hs.2.1, fun _ => hs.2.2⟩) fun e s hs => ⟨hs.2, fun ho => ?_⟩
    obtain ⟨-, -, told, htold⟩ := hfair ho
    rw [htold] at hs
    cases hs.1

theorem one_le_ceilDiv {a b : Int} (ha : 0 < a) (hb : 0 < b) : 1 ≤ ceilDiv a b := by
  have hneg : (-a).fdiv b < 0 := by
    rw [Int.fdiv_eq_ediv_of_nonneg _ (Int.le_of_lt hb)]
    exact Int.ediv_neg_of_neg_of_pos (by omega) hb
  rw [ceilDiv]
  omega

/-- A read of something is given a bulk reader, with the configuration as it should be. -/
theorem lent_isSome (link : BulkReader) {config : FileConfig} {size : Nat}
    (hdepth : 1 ≤ config.bulkDepth) (hchunk : config.bulkChunk ≤ MAX_RESPONSE_BODY) (hsize : size ≠ 0) :
    lent config link size ≠ none := by
  have hmax : MIN_BULK_CHUNK ≤ (MAX_RESPONSE_BODY : Int) := by decide
  have hpos : 0 < MIN_BULK_CHUNK := by decide
  have hshape : 1 ≤ (planeShape config size).1.toNat ∧
      (planeShape config size).1.toNat ≤ MAX_RESPONSE_BODY ∧ 1 ≤ (planeShape config size).2.toNat := by
    dsimp only [planeShape]
    have hceil := @one_le_ceilDiv size
      (max MIN_BULK_CHUNK (min config.bulkChunk (ceilDiv size config.bulkDepth))) (by omega) (by omega)
    omega
  rw [lent, bulkSettings, dif_pos hshape]
  exact Option.some_ne_none _

theorem ready_lent {config : FileConfig} {link reader : BulkReader} {size : Nat} {frames : List Sent}
    (hready : link.Ready frames) (hlent : lent config link size = some reader) :
    reader.Ready frames := by
  obtain ⟨settings, -, rfl⟩ := Option.map_eq_some_iff.mp hlent
  exact ⟨hready.owed, hready.apart, hready.incoming⟩

/-- What the plane gives is what the server has there. -/
theorem planeReadinto_spec (hreset : Resets A) {w : Weather} {view : Bytes} {offset : Nat}
    (hview : view ≠ []) (hhonest : Honest b w view.length offset)
    (hfair : o → FairPlane b w view.length offset) :
    Act.Spec (Standing A o b) (planeReadinto w view offset)
      (fun got s => (∀ data, got = some data → data = slice b.server offset view.length) ∧ Standing A o b s)
      (fun _ s => Steady A b s ∧ ¬ o) := by
  have hdeclined : Act.Spec (Standing A o b) (pure none : Op (Option Bytes))
      (fun got s => (∀ data, got = some data → data = slice b.server offset view.length) ∧ Standing A o b s)
      (fun _ s => Steady A b s ∧ ¬ o) := Act.Spec.pure _ fun s hs => ⟨nofun, hs⟩
  refine Act.Spec.of_each fun f hf => Act.Spec.get_bind ?_
  rw [hf.1.config]
  refine Act.Spec.ite (fun hzero => Act.Spec.throw _ fun s hs => hs ▸ ⟨hf.1, fun ho => ?_⟩) fun _ => ?_
  · have := (hfair ho).depth
    omega
  refine Act.Spec.bind (Q := fun _ => Standing A o b) ((handle_spec (o := o)).conseq (fun s hs => hs ▸ hf)
    (fun _ s hs => ⟨hs.1, fun _ => hs.2⟩) fun _ s hs => hs) fun _ => ?_
  have houtcome := fun ho => (hfair ho).outcome
  unfold Honest at hhonest
  cases hplane : w.plane with
  | declines => exact hdeclined
  | lost expired =>
    rw [hplane] at houtcome
    exact Act.Spec.bind (recoverFromPlane_spec hreset houtcome) fun _ => hdeclined
  | protocol broken =>
    rw [hplane] at houtcome
    exact Act.Spec.bind (recoverFromStep_spec hreset houtcome) fun _ => hdeclined
  | lends link =>
    rw [hplane] at houtcome hhonest
    obtain ⟨frames, hready, hexact⟩ := hhonest
    dsimp only at houtcome ⊢
    cases hlent : lent b.config (link view.length) view.length with
    | none =>
      refine Act.Spec.throw _ fun s hs => ⟨hs.1, fun ho => ?_⟩
      exact lent_isSome _ (hfair ho).depth (hfair ho).chunk
        (by rwa [ne_eq, List.length_eq_zero_iff]) hlent
    | some reader =>
      have hready' := ready_lent hready hlent
      have hserver := hexact reader hlent
      have hout := fun ho => houtcome ho reader hlent
      dsimp only
      rcases hrun : BulkReader.into view.length offset reader with ⟨e | landed, r'⟩
      · rw [hrun] at hout
        dsimp only [settled] at hout ⊢
        cases hcaught : w.caught e with
        | bulkUnsupported => exact hdeclined
        | connection expired =>
          rw [hcaught] at hout
          exact Act.Spec.bind (recoverFromPlane_spec hreset hout) fun _ => hdeclined
        | protocol =>
          rw [hcaught] at hout
          exact Act.Spec.bind (recoverFromStep_spec hreset hout) fun _ => hdeclined
        | other e =>
          rw [hcaught] at hout
          exact Act.Spec.throw _ fun s hs => ⟨hs.1, hout⟩
      · rw [hrun] at hserver
        refine Act.Spec.pure _ fun s hs => ⟨fun data hdata => ?_, hs⟩
        rw [← Option.some.inj hdata]
        exact (BulkReader.into_exact hready' hrun hserver).2

theorem planeRead_spec (hreset : Resets A) {w : Weather} {size offset : Nat} (hsize : size ≠ 0)
    (hhonest : Honest b w size offset) (hfair : o → FairPlane b w size offset) :
    Act.Spec (Standing A o b) (planeRead w size offset)
      (fun got s => (∀ data, got = some data → data = slice b.server offset size) ∧ Standing A o b s)
      (fun _ s => Steady A b s ∧ ¬ o) := by
  have hlength : (List.replicate size (0 : UInt8)).length = size := List.length_replicate
  rw [planeRead, if_neg (by omega), Int.toNat_natCast]
  have hspec := @planeReadinto_spec A b o hreset w (List.replicate size 0) offset
    (List.ne_nil_of_length_pos (by omega))
  rw [hlength] at hspec
  exact hspec hhonest hfair

/-! ## What a read returns -/

/-- A read returns what the server has there, whichever path it takes, if one with more behind it
does. -/
theorem readSome_of_sequential (hreset : Resets A) {w : Weather} {size offset : Nat}
    (hsequential : size ≠ 0 → b.config.bulk = true → b.readsAhead size = true →
      Act.Spec (Standing A o b) (sequential w size offset)
        (fun got s => (∀ data, got = some data → data = slice b.server offset size) ∧ Standing A o b s)
        (fun _ s => Steady A b s ∧ ¬ o))
    (hhonest : b.config.bulk = true → Honest b w size offset)
    (hplane : o → b.config.bulk = true → FairPlane b w size offset)
    (hchunks : o → FairChunks b w.chunks size offset) :
    Act.Spec (Standing A o b) (readSome w size offset)
      (fun data s => data = slice b.server offset size ∧ Standing A o b s)
      (fun _ s => Steady A b s ∧ ¬ o) := by
  refine Act.Spec.ite (fun hzero => Act.Spec.pure _ fun s hs => ⟨by simp [hzero, slice], hs⟩) fun hsize =>
    Act.Spec.of_each fun f hf => Act.Spec.get_bind (Act.Spec.ite (fun hon => ?_) fun _ => ?_)
  · have hbulk : b.config.bulk = true := by
      rw [readsOnPlane, hf.1.config, Bool.and_eq_true] at hon
      exact hon.1
    refine Act.Spec.bind (Q := fun got s => (∀ data, got = some data → data = slice b.server offset size) ∧
      Standing A o b s) ?_ fun got => Act.Spec.of_each fun g hg => ?_
    · refine Act.Spec.get_bind (Act.Spec.ite (fun hahead => ?_) fun _ => ?_)
      · rw [readsAhead, hf.1.config, hf.1.flags] at hahead
        exact (hsequential hsize hbulk hahead).conseq (fun s hs => hs ▸ hf) (fun _ _ hs => hs)
          fun _ _ hs => hs
      · exact (planeRead_spec hreset hsize (hhonest hbulk) fun ho => hplane ho hbulk).conseq
          (fun s hs => hs ▸ hf) (fun _ _ hs => hs) fun _ _ hs => hs
    · cases got with
      | some data => exact Act.Spec.pure _ fun s hs => hs ▸ ⟨hg.1 data rfl, hg.2⟩
      | none =>
        exact (eventRead_spec hreset hsize hchunks).conseq (fun s hs => hs ▸ hg.2) (fun _ _ hs => hs)
          fun _ _ hs => hs
  · exact (eventRead_spec hreset hsize hchunks).conseq (fun s hs => hs ▸ hf) (fun _ _ hs => hs)
      fun _ _ hs => hs

theorem readSize_spec (hreset : Resets A) {w : Weather} {size : Int} {offset : Nat}
    (hstat : o → size < 0 → Answered b w.stat)
    (hceiling : o → size < 0 →
      b.config.maxReadSize = 0 ∨ (b.server.length - offset : Nat) ≤ b.config.maxReadSize) :
    Act.Spec (Standing A o b) (readSize w size offset)
      (fun n s => n = (if size < 0 then b.server.length - offset else size.toNat) ∧ Standing A o b s)
      (fun _ s => Steady A b s ∧ ¬ o) := by
  refine Act.Spec.ite (fun hneg => ?_) fun hpos => Act.Spec.pure _ fun s hs => ⟨by rw [if_neg hpos], hs⟩
  refine Act.Spec.bind (size_spec hreset fun ho => hstat ho hneg) fun n =>
    Act.Spec.of_each fun f hf => ?_
  obtain ⟨rfl, hstanding⟩ := hf
  refine Act.Spec.bind (Q := fun _ => Standing A o b) ?_ fun _ =>
    Act.Spec.pure _ fun s hs => ⟨by rw [if_pos hneg], hs⟩
  refine Act.Spec.get_bind (Act.Spec.ite (fun hmore => Act.Spec.throw _ fun s hs => ?_) fun _ =>
    Act.Spec.pure _ fun s hs => hs ▸ hstanding)
  subst hs
  refine ⟨hstanding.1, fun ho => ?_⟩
  rw [hstanding.1.config] at hmore
  have := hceiling ho hneg
  omega

/-- What lands in a buffer is what the server has there. -/
theorem readinto_spec (hreset : Resets A) {w : Weather} {view : Bytes} {offset : Nat}
    (hhonest : b.config.bulk = true → Honest b w view.length offset)
    (hplane : o → b.config.bulk = true → FairPlane b w view.length offset)
    (hchunks : o → FairChunks b w.chunks view.length offset) :
    Act.Spec (Standing A o b) (readinto w view offset)
      (fun data s => data = slice b.server offset view.length ∧ Standing A o b s)
      (fun _ s => Steady A b s ∧ ¬ o) := by
  refine Act.Spec.ite (fun hempty => Act.Spec.pure _ fun s hs => ⟨?_, hs⟩) fun hview =>
    Act.Spec.of_each fun f hf => Act.Spec.get_bind ?_
  · simp [hempty, slice]
  have hsize : view.length ≠ 0 := by rwa [ne_eq, List.length_eq_zero_iff]
  have hevent : ∀ {g : File}, Standing A o b g → Act.Spec (fun s => s = g)
      (eventRead w.chunks view.length offset)
      (fun data s => data = slice b.server offset view.length ∧ Standing A o b s)
      (fun _ s => Steady A b s ∧ ¬ o) := fun hg =>
    (eventRead_spec hreset hsize hchunks).conseq (fun s hs => hs ▸ hg) (fun _ _ hs => hs)
      fun _ _ hs => hs
  refine Act.Spec.ite (fun hon => ?_) fun _ => hevent hf
  have hbulk : b.config.bulk = true := by
    rw [readsOnPlane, hf.1.config, Bool.and_eq_true] at hon
    exact hon.1
  refine Act.Spec.bind ((planeReadinto_spec hreset hview (hhonest hbulk) fun ho => hplane ho hbulk).conseq
    (fun s hs => hs ▸ hf) (fun _ _ hs => hs) fun _ _ hs => hs) fun got => Act.Spec.of_each fun g hg => ?_
  cases got with
  | some data => exact Act.Spec.pure _ fun s hs => hs ▸ ⟨hg.1 data rfl, hg.2⟩
  | none => exact hevent hg.2

end

end File

end XrdClient.Client
