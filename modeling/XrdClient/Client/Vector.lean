/-
  Client/Vector.lean --- vector reads and writes, cut to what a server accepts.

  Source: `client/_vector.py`, `_pieces`, `_batches`, `_write_pieces` and `_write_batches`;
  `readv` of `client/_reading.py`, for what it batches.

  A range that is longer than an element may be is cut at every multiple of that length,
  and the elements are gathered into requests.  Both are about positions, so a range is
  the positions it covers, and a write is the bytes it puts at them: what is asked for, in
  the order it is asked for, is what the requests ask for.

  `offset` and `length` are whatever the caller gives, negative ones included: nothing of
  this looks at them, and the server is the one that refuses them.
-/
import XrdClient.Lib.Batch
import XrdClient.Lib.Ranges
import XrdClient.Client.Fanout
import XrdClient.Client.Writing

set_option autoImplicit false

namespace XrdClient.Client

open XrdClient.Lib

/-! ## Ranges and chunks -/

/-- `ReadRange` -/
structure ReadRange where
  offset : Int
  length : Int
  deriving DecidableEq

/-- `WriteChunk` -/
structure WriteChunk where
  offset : Int
  data : Bytes
  deriving DecidableEq

/-- `READV_MAX_ELEMENT` -/
def READV_MAX_ELEMENT : Nat := 2 * 2 ^ 20 - 16

/-- The positions of a range, in order. -/
def ReadRange.positions (range : ReadRange) : List Int :=
  (List.range range.length.toNat).map fun i : Nat => range.offset + (i : Int)

/-- The bytes of a chunk, with their positions, in order. -/
def WriteChunk.bytes (chunk : WriteChunk) : List (Int × UInt8) :=
  chunk.data.zipIdx.map fun (byte, i) => (chunk.offset + (i : Int), byte)

/-! ## Elements -/

/-- `_pieces` -/
def readPieces (range : ReadRange) : List ReadRange :=
  if range.length ≤ READV_MAX_ELEMENT then [range]
  else
    (rangeTo range.length.toNat READV_MAX_ELEMENT).map fun start : Nat =>
      ⟨range.offset + start, min (READV_MAX_ELEMENT : Int) (range.length - start)⟩

/-- `_write_pieces` -/
def writePieces (chunk : WriteChunk) : List WriteChunk :=
  if chunk.data.length ≤ WRITEV_MAX_ELEMENT then [chunk]
  else
    (rangeTo chunk.data.length WRITEV_MAX_ELEMENT).map fun start : Nat =>
      ⟨chunk.offset + start, slice chunk.data start WRITEV_MAX_ELEMENT⟩

/-- What `readv` makes batches of: the ranges themselves when the server takes them all. -/
def readElements (wanted : List ReadRange) : List ReadRange :=
  if ∀ range ∈ wanted, range.length ≤ READV_MAX_ELEMENT then wanted else wanted.flatMap readPieces

/-- The ranges that the server takes are their own only pieces. -/
theorem readElements_eq (wanted : List ReadRange) : readElements wanted = wanted.flatMap readPieces := by
  unfold readElements
  split
  · next hall =>
    have hown : ∀ range ∈ wanted, readPieces range = [range] := fun range h => if_pos (hall range h)
    rw [List.flatMap_congr hown, List.flatMap_singleton']
  · rfl

theorem length_le_of_mem_readPieces {range piece : ReadRange} (h : piece ∈ readPieces range) :
    piece.length ≤ READV_MAX_ELEMENT := by
  unfold readPieces at h
  split at h
  · next hle =>
    obtain rfl := List.mem_singleton.mp h
    exact hle
  · obtain ⟨start, -, rfl⟩ := List.mem_map.mp h
    exact Int.min_le_left _ _

theorem length_le_of_mem_writePieces {chunk piece : WriteChunk} (h : piece ∈ writePieces chunk) :
    piece.data.length ≤ WRITEV_MAX_ELEMENT := by
  unfold writePieces at h
  split at h
  · next hle =>
    obtain rfl := List.mem_singleton.mp h
    exact hle
  · obtain ⟨start, -, rfl⟩ := List.mem_map.mp h
    rw [length_slice]
    exact Nat.min_le_left _ _

/-- The pieces of a range cover its positions. -/
theorem positions_readPieces (range : ReadRange) : (readPieces range).flatMap ReadRange.positions = range.positions := by
  unfold readPieces
  split
  · exact List.flatMap_singleton _ _
  · next hlong =>
    have hchain := chain_cut range.length.toNat (show 0 < READV_MAX_ELEMENT by decide)
    have hcovers := hchain.flatMap_eq (fun p n => (List.range' p n).map fun i : Nat => range.offset + (i : Int))
      (fun p => rfl) (fun p n m _ => by rw [← List.map_append, List.range'_append_1])
    rw [Nat.sub_zero, List.flatMap_map, ← List.range_eq_range'] at hcovers
    rw [rangeTo, List.map_map, List.flatMap_map, ReadRange.positions, ← hcovers]
    apply List.flatMap_congr
    intro k _
    have hlen : (min (READV_MAX_ELEMENT : Int) (range.length - ((k * READV_MAX_ELEMENT : Nat) : Int))).toNat
        = min READV_MAX_ELEMENT (range.length.toNat - k * READV_MAX_ELEMENT) := by omega
    simp only [ReadRange.positions, Function.comp_apply, hlen]
    rw [List.range'_eq_map_range, List.map_map]
    apply List.map_congr_left
    intro i _
    simp only [Function.comp_apply]
    omega

/-- The pieces of a chunk put its bytes where it does. -/
theorem bytes_writePieces (chunk : WriteChunk) : (writePieces chunk).flatMap WriteChunk.bytes = chunk.bytes := by
  unfold writePieces
  split
  · exact List.flatMap_singleton _ _
  · next hlong =>
    have hchain := chain_cut chunk.data.length (show 0 < WRITEV_MAX_ELEMENT by decide)
    have hcovers := hchain.flatMap_eq
      (fun p n => ((slice chunk.data p n).zipIdx p).map fun (byte, i) => (chunk.offset + (i : Int), byte))
      (fun p => rfl) (fun p n m hle => by
        have hfull : (slice chunk.data p n).length = n := by rw [length_slice]; omega
        rw [slice_add, List.zipIdx_append, hfull, List.map_append])
    have hwhole : slice chunk.data 0 (chunk.data.length - 0) = chunk.data := List.take_length
    rw [hwhole, List.flatMap_map] at hcovers
    rw [rangeTo, List.map_map, List.flatMap_map, WriteChunk.bytes, ← hcovers]
    apply List.flatMap_congr
    intro k _
    simp only [WriteChunk.bytes, Function.comp_apply]
    -- the last piece stops where the data does
    rw [slice_min, List.zipIdx_eq_map_add (i := k * WRITEV_MAX_ELEMENT), List.map_map]
    apply List.map_congr_left
    intro (byte, i) _
    simp only [Function.comp_apply, Prod.mk.injEq, and_true]
    omega

/-! ## Batches -/

/-- `_batches` -/
def batches (ranges : List ReadRange) : List (List ReadRange) :=
  batchesFrom READV_MAX_CHUNKS READV_MAX_BYTES ReadRange.length [] 0 ranges

/-- `_write_batches` -/
def writeBatches (chunks : List WriteChunk) : List (List WriteChunk) :=
  batchesFrom READV_MAX_CHUNKS READV_MAX_BYTES (fun chunk => chunk.data.length) [] 0 (chunks.flatMap writePieces)

/-- A request that a server takes: an element at least, and as many as it takes, each as long
as it takes, and so long together. -/
structure Accepted {α : Type} (element : Nat) (size : α → Int) (batch : List α) : Prop where
  some_ : batch ≠ []
  count : batch.length ≤ READV_MAX_CHUNKS
  each : ∀ item ∈ batch, size item ≤ element
  total : (batch.map size).sum ≤ READV_MAX_BYTES

/-- Batches of elements are requests that a server takes, and are the elements. -/
theorem batchesFrom_accepted {α : Type} {element : Nat} {size : α → Int} {items : List α}
    (helement : element ≤ READV_MAX_BYTES) (hitems : ∀ item ∈ items, size item ≤ element) :
    (∀ batch ∈ batchesFrom READV_MAX_CHUNKS READV_MAX_BYTES size [] 0 items, Accepted element size batch) ∧
      (batchesFrom READV_MAX_CHUNKS READV_MAX_BYTES size [] 0 items).flatten = items := by
  have hflat := flatten_batchesFrom READV_MAX_CHUNKS READV_MAX_BYTES size [] 0 items
  rw [List.nil_append] at hflat
  refine ⟨fun batch hbatch => ?_, hflat⟩
  have hbytes : ∀ item ∈ items, size item ≤ READV_MAX_BYTES := fun item h =>
    Int.le_trans (hitems item h) (Int.ofNat_le.mpr helement)
  have hfits := batch_of_mem_batchesFrom (by decide) hbytes (.inl rfl) batch hbatch
  have hmem : ∀ item ∈ batch, item ∈ items := fun item h => hflat ▸ List.mem_flatten_of_mem hbatch h
  exact ⟨hfits.some_, hfits.count, fun item h => hitems item (hmem item h), hfits.total⟩

/-! ## Nothing is lost -/

/-- Vector batching loses nothing: the requests that a vector read goes out as are such as a
server takes, are the pieces of the ranges one after another, and ask for their positions in
their order; and those of a vector write put the bytes of the chunks where these do. -/
theorem batches_lose_nothing :
    (∀ wanted : List ReadRange,
      (∀ batch ∈ batches (readElements wanted), Accepted READV_MAX_ELEMENT ReadRange.length batch) ∧
      (batches (readElements wanted)).flatten = wanted.flatMap readPieces ∧
      (batches (readElements wanted)).flatten.flatMap ReadRange.positions = wanted.flatMap ReadRange.positions) ∧
    ∀ chunks : List WriteChunk,
      (∀ batch ∈ writeBatches chunks, Accepted WRITEV_MAX_ELEMENT (fun chunk => chunk.data.length) batch) ∧
      (writeBatches chunks).flatten = chunks.flatMap writePieces ∧
      (writeBatches chunks).flatten.flatMap WriteChunk.bytes = chunks.flatMap WriteChunk.bytes := by
  constructor
  · intro wanted
    have hitems : ∀ piece ∈ wanted.flatMap readPieces, piece.length ≤ READV_MAX_ELEMENT := by
      intro piece h
      obtain ⟨range, -, hpiece⟩ := List.mem_flatMap.mp h
      exact length_le_of_mem_readPieces hpiece
    obtain ⟨haccepted, hflat⟩ := batchesFrom_accepted (by decide) hitems
    rw [readElements_eq, batches, hflat]
    refine ⟨haccepted, rfl, ?_⟩
    rw [List.flatMap_assoc]
    exact List.flatMap_congr fun range _ => positions_readPieces range
  · intro chunks
    have hitems : ∀ piece ∈ chunks.flatMap writePieces, (piece.data.length : Int) ≤ WRITEV_MAX_ELEMENT := by
      intro piece h
      obtain ⟨chunk, -, hpiece⟩ := List.mem_flatMap.mp h
      exact Int.ofNat_le.mpr (length_le_of_mem_writePieces hpiece)
    obtain ⟨haccepted, hflat⟩ := batchesFrom_accepted (by decide) hitems
    rw [writeBatches, hflat]
    refine ⟨haccepted, rfl, ?_⟩
    rw [List.flatMap_assoc]
    exact List.flatMap_congr fun chunk _ => bytes_writePieces chunk

end XrdClient.Client
