/-
  Client/Readv.lean --- vector reads, from the ranges to their bytes.

  Source: `readv` and `_readv_elements` of `client/_reading.py`; `_as_asked`, `_by_offset`,
  `_segment_for` and `_assemble` of `client/_vector.py`.

  A reply names the offset of every segment and not the range it is for.  The client compares
  the segments with the ranges as long as they come in order, and files them under their
  offsets where they do not; two elements that begin at one offset are told apart only by the
  order in which their segments came.

  So a segment may be claimed for the wrong element of the two.  It is never handed over as the
  other's bytes: no element takes more than it asked for, and the segments together are as long
  as the elements, so where one took less than it should, another would have to take more
  (`claimed_in_full`).
-/
import XrdClient.Client.Vector
import XrdClient.Client.VectorCodec
import XrdClient.Lib.Filed

set_option autoImplicit false

namespace XrdClient.Client

open XrdClient.Lib

/-! ## The code -/

/-- `dict[int, list[bytes]]`: the segments under their offsets. -/
abbrev Answers : Type := Assoc Int (List Bytes)

/-- The `ProtocolError`s of a vector read. -/
inductive ReadvError where
  | walk (error : WalkError)
  /-- "the server left the bytes out of its vector read reply" -/
  | left (wanted : ReadRange)
  /-- "the server answered a segment with more bytes" -/
  | long (wanted : ReadRange) (got : Nat)
  deriving DecidableEq

/-- One reply of `_as_asked` beside the ranges that are expected still: those that are expected
behind it, unless anything differs. -/
def asExpected : List ReadRange → List (Int × Bytes) → Option (List ReadRange)
  | expected, [] => some expected
  | [], _ :: _ => none
  | range :: expected, (offset, data) :: segments =>
    if range.offset ≠ offset ∨ range.length ≠ data.length then none else asExpected expected segments

/-- The loop of `_as_asked`, which compares a reply up to where it cannot be walked. -/
def asAskedFrom (wanted expected : List ReadRange) (out : List Bytes) :
    List Bytes → Except ReadvError (Option (List Bytes))
  | [] => .ok (if out.length = wanted.length then some out else none)
  | body :: bodies =>
    match asExpected expected (walk body).1 with
    | none => .ok none
    | some expected =>
      match (walk body).2 with
      | some error => .error (.walk error)
      | none => asAskedFrom wanted expected (out ++ (walk body).1.map Prod.snd) bodies

/-- `_as_asked` -/
def asAsked (bodies : List Bytes) (wanted : List ReadRange) : Except ReadvError (Option (List Bytes)) :=
  asAskedFrom wanted wanted [] bodies

/-- The loop of `_by_offset`. -/
def byOffsetFrom (out : Answers) : List Bytes → Except ReadvError Answers
  | [] => .ok out
  | body :: bodies =>
    match (walk body).2 with
    | some error => .error (.walk error)
    | none => byOffsetFrom ((walk body).1.foldl fileOne out) bodies

/-- `_by_offset` -/
def byOffset (bodies : List Bytes) : Except ReadvError Answers := byOffsetFrom [] bodies

/-- `_segment_for`, and what it leaves of the answers. -/
def segmentFor (wanted : ReadRange) (answers : Answers) : Except ReadvError (Bytes × Answers) :=
  match claim answers wanted.offset with
  | none => .error (.left wanted)
  | some (data, answers) =>
    if wanted.length < data.length then .error (.long wanted data.length) else .ok (data, answers)

/-- `_segment_for` of one element after another. -/
def segmentsFor : List ReadRange → Answers → Except ReadvError (List Bytes × Answers)
  | [], answers => .ok ([], answers)
  | wanted :: more, answers => do
    let (data, answers) ← segmentFor wanted answers
    let (rest, answers) ← segmentsFor more answers
    .ok (data :: rest, answers)

/-- `_assemble`, and what it leaves of the answers. -/
def assemble (range : ReadRange) (answers : Answers) : Except ReadvError (Bytes × Answers) := do
  let (parts, answers) ← segmentsFor (readPieces range) answers
  .ok (parts.flatten, answers)

/-- `_assemble` of one range after another. -/
def assembleAll : List ReadRange → Answers → Except ReadvError (List Bytes)
  | [], _ => .ok []
  | range :: more, answers => do
    let (data, answers) ← assemble range answers
    let rest ← assembleAll more answers
    .ok (data :: rest)

/-- `_readv_elements`; `fetch` is what the requests of some batches are answered with. -/
def readvElements (fetch : List (List ReadRange) → List Bytes) (wanted : List ReadRange) :
    Except ReadvError (List Bytes) := do
  let bodies := fetch (batches wanted)
  match ← asAsked bodies wanted with
  | some quick => .ok quick
  | none =>
    let answers ← byOffset bodies
    let (segments, _) ← segmentsFor wanted answers
    .ok segments

/-- `readv` -/
def readv (fetch : List (List ReadRange) → List Bytes) (wanted : List ReadRange) : Except ReadvError (List Bytes) :=
  if wanted = [] then .ok []
  else if ∀ range ∈ wanted, range.length ≤ READV_MAX_ELEMENT then readvElements fetch wanted
  else do
    let answers ← byOffset (fetch (batches (wanted.flatMap readPieces)))
    assembleAll wanted answers

/-! ## What a server answers -/

/-- The bytes of a range: fewer than it asks for at the end of the file, and none behind it. -/
def ReadRange.of (file : Bytes) (range : ReadRange) : Bytes := slice file range.offset.toNat range.length.toNat

/-- The bytes of a range are told by its offset and by how many they are. -/
theorem of_eq_slice (file : Bytes) (range : ReadRange) :
    range.of file = slice file range.offset.toNat (range.of file).length := by
  rw [ReadRange.of, length_slice, slice_min]

/-- A segment of a reply: the handle, the length and the offset, and the bytes. -/
def segmentOf (file : Bytes) (segment : Bytes × ReadRange) : Bytes :=
  segment.1 ++ (beBytes 4 (segment.2.of file).length ++ (beBytes 8 segment.2.offset.toNat ++ segment.2.of file))

/-- A reply that holds the segments of these ranges, in this order. -/
def Holds (file : Bytes) (ranges : List ReadRange) (body : Bytes) : Prop :=
  ∃ segments : List (Bytes × ReadRange), (∀ segment ∈ segments, segment.1.length = 4) ∧
    segments.map Prod.snd = ranges ∧ body = segments.flatMap (segmentOf file)

/-- A reply to a batch: its elements, each as far as the file goes, in an order of the server's. -/
def Answered (file : Bytes) (batch : List ReadRange) (body : Bytes) : Prop :=
  ∃ ranges, ranges.Perm batch ∧ Holds file ranges body

/-- A range that has a place in a request. -/
structure ReadRange.Sendable (range : ReadRange) : Prop where
  offset : 0 ≤ range.offset
  length : 0 ≤ range.length
  stop : range.offset + range.length < 2 ^ 63

/-- A range that has a place as an element. -/
structure ReadRange.Element (range : ReadRange) : Prop extends range.Sendable where
  short : range.length ≤ READV_MAX_ELEMENT

theorem ReadRange.Sendable.elements {range piece : ReadRange} (h : range.Sendable) (hpiece : piece ∈ readPieces range) :
    piece.Element := by
  have hshort := length_le_of_mem_readPieces hpiece
  unfold readPieces at hpiece
  split at hpiece
  · rw [List.mem_singleton.mp hpiece] at hshort ⊢
    exact ⟨h, hshort⟩
  · next hlong =>
    obtain ⟨hoffset, hlength, hstop⟩ := h
    obtain ⟨start, hstart, rfl⟩ := List.mem_map.mp hpiece
    have hinside : start < range.length.toNat := by
      obtain ⟨k, hk, rfl⟩ := List.mem_map.mp hstart
      have hsome := (chain_cut range.length.toNat (show 0 < READV_MAX_ELEMENT by decide)).pos _
        (List.mem_map_of_mem hk)
      exact Nat.lt_of_sub_pos (Nat.lt_of_lt_of_le hsome (Nat.min_le_right _ _))
    refine ⟨⟨?_, ?_, ?_⟩, hshort⟩ <;> simp only [READV_MAX_ELEMENT] at * <;> omega

/-- The pieces of a range are its bytes. -/
theorem of_readPieces (file : Bytes) {range : ReadRange} (h : range.Sendable) :
    ((readPieces range).map (ReadRange.of file)).flatten = range.of file := by
  unfold readPieces
  split
  · exact List.append_nil _
  · next hlong =>
    have hchain := chain_cut range.length.toNat (show 0 < READV_MAX_ELEMENT by decide)
    have hcovers := hchain.flatMap_eq (fun p n => slice file (range.offset.toNat + p) n)
      (fun p => rfl) (fun p n m _ => by rw [slice_add, Nat.add_assoc])
    rw [Nat.sub_zero, List.flatMap_map, Nat.add_zero] at hcovers
    rw [rangeTo, List.map_map, List.map_map, ← List.flatMap_def, ReadRange.of, ← hcovers]
    apply List.flatMap_congr
    intro k _
    have hoffset := h.offset
    have hat : (range.offset + ((k * READV_MAX_ELEMENT : Nat) : Int)).toNat
        = range.offset.toNat + k * READV_MAX_ELEMENT := by omega
    have hlen : (min (READV_MAX_ELEMENT : Int) (range.length - ((k * READV_MAX_ELEMENT : Nat) : Int))).toNat
        = min READV_MAX_ELEMENT (range.length.toNat - k * READV_MAX_ELEMENT) := by omega
    simp only [ReadRange.of, Function.comp_apply, hat, hlen]

/-! ## A reply, walked -/

theorem slice_between {α : Type} {before piece : List α} (rest : List α) {offset n : Nat} (hoffset : before.length = offset)
    (hn : piece.length = n) : slice (before ++ (piece ++ rest)) offset n = piece := by
  rw [slice, ← hoffset, ← hn, List.drop_left, List.take_left]

theorem signed_of_lt {bits n : Nat} (h : n < 2 ^ (bits - 1)) : signed bits n = n := if_pos h

/-- From a segment on, the walk yields it and goes on behind it. -/
theorem walkFrom_segment (file before rest : Bytes) {segment : Bytes × ReadRange} (hhandle : segment.1.length = 4)
    (helement : segment.2.Element) :
    walkFrom (before ++ (segmentOf file segment ++ rest)) before.length
      = ((segment.2.offset, segment.2.of file)
          :: (walkFrom (before ++ segmentOf file segment ++ rest) (before ++ segmentOf file segment).length).1,
        (walkFrom (before ++ segmentOf file segment ++ rest) (before ++ segmentOf file segment).length).2) := by
  obtain ⟨handle, range⟩ := segment
  obtain ⟨⟨hoffset, hlength, hstop⟩, hshort⟩ := helement
  generalize hdata : range.of file = data
  have hsize : data.length ≤ READV_MAX_ELEMENT := by
    rw [← hdata, ReadRange.of, length_slice]
    simp only at hshort
    omega
  generalize hbody : before ++ (segmentOf file (handle, range) ++ rest) = body
  have hlen : body.length = before.length + (16 + data.length) + rest.length := by
    rw [← hbody, segmentOf, hdata]
    simp only [List.length_append, length_beBytes, hhandle]
    omega
  have hassoc : before ++ segmentOf file (handle, range) ++ rest = body := by rw [List.append_assoc, hbody]
  have hpos : (before ++ segmentOf file (handle, range)).length = before.length + 16 + data.length := by
    rw [segmentOf, hdata]
    simp only [List.length_append, length_beBytes, hhandle]
    omega
  have hmax : READV_MAX_ELEMENT = 2097136 := rfl
  have hlengthField : signed 32 (beNat (slice body (before.length + 4) 4)) = data.length := by
    have hat : slice body (before.length + 4) 4 = beBytes 4 data.length := by
      rw [← hbody, segmentOf, hdata, List.append_assoc, List.append_assoc, ← List.append_assoc before]
      exact slice_between _ (by rw [List.length_append, hhandle]) (length_beBytes _ _)
    rw [hat, beNat_beBytes _ _ (by omega), signed_of_lt (by omega)]
  have hoffsetField : signed 64 (beNat (slice body (before.length + 8) 8)) = range.offset := by
    have hat : slice body (before.length + 8) 8 = beBytes 8 range.offset.toNat := by
      rw [← hbody, segmentOf, hdata, List.append_assoc, List.append_assoc, ← List.append_assoc before,
        ← List.append_assoc (before ++ handle), List.append_assoc (beBytes 8 _)]
      exact slice_between _ (by simp only [List.length_append, length_beBytes, hhandle]) (length_beBytes _ _)
    simp only at hoffset hlength hstop
    rw [hat, beNat_beBytes _ _ (by omega), signed_of_lt (by omega)]
    omega
  have hdataField : slice body (before.length + 16) data.length = data := by
    rw [← hbody, segmentOf, hdata, List.append_assoc, List.append_assoc, List.append_assoc, ← List.append_assoc before,
      ← List.append_assoc (before ++ handle), ← List.append_assoc (before ++ handle ++ beBytes 4 _)]
    exact slice_between _ (by simp only [List.length_append, length_beBytes, hhandle]) rfl
  rw [hassoc, hpos, walkFrom, if_pos (by omega), if_neg (by simp only [READ_LIST_SIZE]; omega)]
  simp only [hlengthField, hoffsetField, READ_LIST_SIZE]
  rw [if_neg (by omega), if_neg (by omega), Int.toNat_natCast, hdataField]

/-- The segments of a range, as the walk yields them. -/
def filed (file : Bytes) (range : ReadRange) : Int × Bytes := (range.offset, range.of file)

theorem walk_of_holds {file body : Bytes} {ranges : List ReadRange} (h : Holds file ranges body)
    (helements : ∀ range ∈ ranges, range.Element) : walk body = (ranges.map (filed file), none) := by
  obtain ⟨segments, hhandles, rfl, rfl⟩ := h
  suffices hfrom : ∀ before : Bytes, walkFrom (before ++ segments.flatMap (segmentOf file)) before.length
      = ((segments.map Prod.snd).map (filed file), none) from hfrom []
  induction segments with
  | nil =>
    intro before
    rw [List.flatMap_nil, List.append_nil, walkFrom, if_neg (Nat.lt_irrefl _)]
    rfl
  | cons segment segments ih =>
    intro before
    rw [List.flatMap_cons, walkFrom_segment file before _ (hhandles _ List.mem_cons_self)
        (helements _ (List.mem_map_of_mem List.mem_cons_self)),
      ih (fun s hs => hhandles s (List.mem_cons_of_mem _ hs))
        (fun r hr => helements r (by rw [List.map_cons]; exact List.mem_cons_of_mem _ hr))]
    rfl

/-! ## The replies, compared and filed -/

section

variable {file : Bytes} {came : List (List ReadRange)} {bodies : List Bytes}

theorem byOffsetFrom_of_holds (h : List.Forall₂ (Holds file) came bodies)
    (helements : ∀ ranges ∈ came, ∀ range ∈ ranges, range.Element) (out : Answers) :
    byOffsetFrom out bodies = .ok ((came.flatten.map (filed file)).foldl fileOne out) := by
  induction h generalizing out with
  | nil => rfl
  | @cons ranges body came bodies hbody hbodies ih =>
    have hwalk := walk_of_holds hbody (helements _ List.mem_cons_self)
    rw [byOffsetFrom, hwalk, List.flatten_cons, List.map_append, List.foldl_append]
    exact ih (fun r hr => helements r (List.mem_cons_of_mem _ hr)) _

/-- The segments under an offset are those of the ranges that begin there. -/
theorem under_byOffset (h : List.Forall₂ (Holds file) came bodies)
    (helements : ∀ ranges ∈ came, ∀ range ∈ ranges, range.Element) :
    ∃ answers, byOffset bodies = .ok answers ∧
      ∀ k, under answers k = (claimsOf ReadRange.offset came.flatten k).map (ReadRange.of file) := by
  refine ⟨_, byOffsetFrom_of_holds h helements [], fun k => ?_⟩
  rw [under_foldl, List.filter_map, List.map_map]
  rfl

/-- Segments that are as expected are the bytes of the ranges they are expected for. -/
theorem asExpected_filed {expected ranges rest : List ReadRange}
    (h : asExpected expected (ranges.map (filed file)) = some rest) :
    ∃ taken, expected = taken ++ rest ∧ ranges.map (ReadRange.of file) = taken.map (ReadRange.of file) := by
  induction ranges generalizing expected with
  | nil =>
    rw [List.map_nil, asExpected] at h
    exact ⟨[], Option.some.inj h, rfl⟩
  | cons range ranges ih =>
    cases expected with
    | nil => cases h
    | cons wanted expected =>
      rw [List.map_cons, filed, asExpected] at h
      split at h
      · cases h
      · next hsame =>
        obtain ⟨hoffset, hlength⟩ := not_or.mp hsame
        obtain ⟨taken, rfl, htaken⟩ := ih h
        refine ⟨wanted :: taken, rfl, ?_⟩
        have hwhole : range.of file = wanted.of file := by
          rw [of_eq_slice, ReadRange.of.eq_1 file wanted, Decidable.not_not.mp hlength, Decidable.not_not.mp hoffset,
            Int.toNat_natCast]
        rw [List.map_cons, List.map_cons, hwhole, htaken]

/-- The comparison never fails, and what it takes for the bytes of the ranges is. -/
theorem asAskedFrom_of_holds (h : List.Forall₂ (Holds file) came bodies)
    (helements : ∀ ranges ∈ came, ∀ range ∈ ranges, range.Element) (seen expected : List ReadRange) :
    asAskedFrom (seen ++ expected) expected (seen.map (ReadRange.of file)) bodies = .ok none ∨
      asAskedFrom (seen ++ expected) expected (seen.map (ReadRange.of file)) bodies
        = .ok (some ((seen ++ expected).map (ReadRange.of file))) := by
  induction h generalizing seen expected with
  | nil =>
    rw [asAskedFrom]
    split
    · next hall =>
      rw [List.length_map, List.length_append] at hall
      rw [List.length_eq_zero_iff.mp (show expected.length = 0 by omega), List.append_nil]
      exact .inr rfl
    · exact .inl rfl
  | @cons ranges body came bodies hbody hbodies ih =>
    have hwalk := walk_of_holds hbody (helements _ List.mem_cons_self)
    rw [asAskedFrom, hwalk]
    rcases hasked : asExpected expected (ranges.map (filed file)) with _ | rest
    · exact .inl rfl
    · obtain ⟨taken, rfl, htaken⟩ := asExpected_filed hasked
      have hdata : (ranges.map (filed file)).map Prod.snd = taken.map (ReadRange.of file) := by
        rw [List.map_map, ← htaken]
        rfl
      simp only
      rw [hdata, ← List.map_append, ← List.append_assoc]
      exact ih (fun r hr => helements r (List.mem_cons_of_mem _ hr)) (seen ++ taken) rest

end

/-! ## The segments, claimed -/

section

variable {file : Bytes}

/-- Every claim gets no more than the bytes of its element. -/
abbrev ClaimedOf (file : Bytes) : List ReadRange → Answers → List Bytes → Answers → Prop :=
  Claimed ReadRange.offset List.length fun range => (range.of file).length

/-- Answers that are bytes of the file, under the offsets they have there. -/
def FromFile (file : Bytes) (answers : Answers) : Prop :=
  ∀ k, ∀ data ∈ under answers k, data = slice file k.toNat data.length

theorem segmentsFor_of_claimed {elements : List ReadRange} {answers left : Answers} {segments : List Bytes}
    (helements : ∀ range ∈ elements, range.Element) (h : ClaimedOf file elements answers segments left) :
    segmentsFor elements answers = .ok (segments, left) := by
  induction h with
  | nil answers => rfl
  | @cons range elements answers answers' left data segments hclaim hle hrest ih =>
    have hlength := (helements range List.mem_cons_self).length
    have hfits : ¬ range.length < data.length := by
      rw [ReadRange.of, length_slice] at hle
      omega
    have hone : segmentFor range answers = .ok (data, answers') := by
      rw [segmentFor, hclaim]
      exact if_neg hfits
    rw [segmentsFor, hone]
    simp only [bind, Except.bind]
    rw [ih fun r hr => helements r (List.mem_cons_of_mem _ hr)]

/-- Where there is something under every offset, the elements are answered from there, or one of
them finds more than it asks for. -/
theorem segmentsFor_cases {elements : List ReadRange} {answers : Answers} (hfile : FromFile file answers)
    (helements : ∀ range ∈ elements, range.Element) (hsome : ∀ range ∈ elements, under answers range.offset ≠ []) :
    (∃ segments left, ClaimedOf file elements answers segments left) ∨
      ∃ range ∈ elements, ∃ data ∈ under answers range.offset, range.length < data.length ∧
        segmentsFor elements answers = .error (.long range data.length) := by
  induction elements generalizing answers with
  | nil => exact .inl ⟨[], answers, .nil answers⟩
  | cons range elements ih =>
    obtain ⟨hnone, -⟩ | ⟨data, rest, answers', -, hclaim, -, -⟩ := claim_cases answers range.offset
    · exact absurd hnone (hsome range List.mem_cons_self)
    have hdata := mem_of_claim hclaim
    by_cases hlong : range.length < data.length
    · refine .inr ⟨range, List.mem_cons_self, data, hdata, hlong, ?_⟩
      rw [segmentsFor, segmentFor, hclaim]
      simp only
      rw [if_pos hlong]
      rfl
    · have hfits : data.length ≤ (range.of file).length := by
        have hslice := congrArg List.length (hfile _ data hdata)
        rw [length_slice] at hslice
        rw [ReadRange.of, length_slice]
        omega
      have hone : segmentFor range answers = .ok (data, answers') := by
        rw [segmentFor, hclaim]
        exact if_neg hlong
      obtain ⟨segments, left, hrest⟩ | ⟨r, hr, d, hd, hmore, herror⟩ := @ih answers'
        (fun k w hw => hfile k w (mem_under_of_claim hclaim hw))
        (fun r hr => helements r (List.mem_cons_of_mem _ hr))
        (fun r hr => under_ne_nil_of_claim hclaim _ (hsome r (List.mem_cons_of_mem _ hr)))
      · exact .inl ⟨data :: segments, left, .cons hclaim hfits hrest⟩
      · refine .inr ⟨r, List.mem_cons_of_mem _ hr, d, mem_under_of_claim hclaim hd, hmore, ?_⟩
        rw [segmentsFor, hone]
        simp only [bind, Except.bind]
        rw [herror]

/-- Segments that are filed as many as the elements, and are the elements' in some order, are
claimed by no other element than one that they are the bytes of. -/
theorem claimed_eq {came elements : List ReadRange} {answers left : Answers} {segments : List Bytes}
    (hunder : ∀ k, under answers k = (claimsOf ReadRange.offset came k).map (ReadRange.of file))
    (hperm : came.Perm elements) (h : ClaimedOf file elements answers segments left) :
    segments = elements.map (ReadRange.of file) := by
  have hsame : ∀ k, (claimsOf ReadRange.offset came k).Perm (claimsOf ReadRange.offset elements k) :=
    fun k => hperm.filter _
  obtain ⟨hlengths, -⟩ := claimed_in_full h
    (fun k _ => by rw [hunder, List.length_map, (hsame k).length_eq])
    (fun k _ => by
      rw [hunder, List.map_map]
      exact Nat.le_of_eq ((hsame k).map _).sum_eq.symm)
  have hmem := h.mem
  clear h hperm hsame
  induction hmem with
  | nil => rfl
  | @cons range data elements segments hdata hrest ih =>
    rw [hunder] at hdata
    obtain ⟨other, hother, rfl⟩ := List.mem_map.mp hdata
    have hoffset : other.offset = range.offset := by simpa using (List.mem_filter.mp hother).2
    obtain ⟨hlen, hlengths⟩ := List.cons.inj hlengths
    rw [List.map_cons, ← ih hlengths, of_eq_slice, hlen, hoffset, ← of_eq_slice]

/-- Behind replies that hold the elements in some order, the segments are claimed by the elements
they are the bytes of, or an element finds a longer one that begins where it does. -/
theorem segmentsFor_of_answered {came : List (List ReadRange)} {bodies : List Bytes} {elements : List ReadRange}
    (h : List.Forall₂ (Holds file) came bodies) (hperm : came.flatten.Perm elements)
    (helements : ∀ range ∈ elements, range.Element) :
    ∃ answers, byOffset bodies = .ok answers ∧
      ((∃ left, segmentsFor elements answers = .ok (elements.map (ReadRange.of file), left)) ∨
        ∃ range ∈ elements, ∃ other ∈ elements, other.offset = range.offset ∧ range.length < other.length ∧
          ∃ got, segmentsFor elements answers = .error (.long range got)) := by
  have hcame : ∀ ranges ∈ came, ∀ range ∈ ranges, range.Element := fun ranges hranges range hrange =>
    helements range (hperm.mem_iff.mp (List.mem_flatten_of_mem hranges hrange))
  obtain ⟨answers, hanswers, hunder⟩ := under_byOffset h hcame
  have hfile : FromFile file answers := by
    intro k data hdata
    rw [hunder] at hdata
    obtain ⟨other, hother, rfl⟩ := List.mem_map.mp hdata
    have hoffset : other.offset = k := by simpa using (List.mem_filter.mp hother).2
    rw [← hoffset]
    exact of_eq_slice file other
  have hsome : ∀ range ∈ elements, under answers range.offset ≠ [] := by
    intro range hrange hnil
    rw [hunder, List.map_eq_nil_iff, claimsOf, List.filter_eq_nil_iff] at hnil
    exact hnil range (hperm.mem_iff.mpr hrange) (by simp)
  refine ⟨answers, hanswers, ?_⟩
  obtain ⟨segments, left, hclaimed⟩ | ⟨range, hrange, data, hdata, hlong, herror⟩ :=
    segmentsFor_cases hfile helements hsome
  · exact .inl ⟨left, by rw [segmentsFor_of_claimed helements hclaimed, claimed_eq hunder hperm hclaimed]⟩
  · rw [hunder] at hdata
    obtain ⟨other, hother, rfl⟩ := List.mem_map.mp hdata
    obtain ⟨hmem, hoffset⟩ := List.mem_filter.mp hother
    have helement := helements other (hperm.mem_iff.mp hmem)
    have hlength := helement.length
    rw [ReadRange.of, length_slice] at hlong
    exact .inr ⟨range, hrange, other, hperm.mem_iff.mp hmem, by simpa using hoffset, by omega, _, herror⟩

/-- Behind replies that hold the elements in their order, no element finds another's segment. -/
theorem segmentsFor_in_order {batches : List (List ReadRange)} {bodies : List Bytes}
    (h : List.Forall₂ (Holds file) batches bodies) (helements : ∀ range ∈ batches.flatten, range.Element) :
    ∃ answers left, byOffset bodies = .ok answers ∧
      segmentsFor batches.flatten answers = .ok (batches.flatten.map (ReadRange.of file), left) := by
  obtain ⟨answers, hanswers, hunder⟩ := under_byOffset h fun ranges hranges range hrange =>
    helements range (List.mem_flatten_of_mem hranges hrange)
  obtain ⟨left, hclaimed⟩ : ∃ left, ClaimedOf file batches.flatten answers (batches.flatten.map (ReadRange.of file)) left :=
    claimed_in_order (fun _ => Nat.le_refl _) fun k _ => hunder k
  exact ⟨answers, left, hanswers, segmentsFor_of_claimed helements hclaimed⟩

end

/-! ## The ranges, put together -/

theorem segmentsFor_append (first more : List ReadRange) (answers : Answers) :
    segmentsFor (first ++ more) answers = (do
      let (parts, answers) ← segmentsFor first answers
      let (rest, answers) ← segmentsFor more answers
      .ok (parts ++ rest, answers)) := by
  induction first generalizing answers with
  | nil =>
    rw [List.nil_append, segmentsFor]
    simp only [bind, Except.bind]
    rcases segmentsFor more answers with e | ⟨rest, left⟩ <;> rfl
  | cons wanted first ih =>
    simp only [List.cons_append, segmentsFor]
    rcases segmentFor wanted answers with e | ⟨data, answers⟩
    · rfl
    · simp only [bind, Except.bind]
      rw [ih]
      rcases segmentsFor first answers with e | ⟨parts, answers⟩
      · rfl
      · simp only [bind, Except.bind]
        rcases segmentsFor more answers with e | ⟨rest, left⟩ <;> rfl

theorem length_segmentsFor {elements : List ReadRange} {answers left : Answers} {segments : List Bytes}
    (h : segmentsFor elements answers = .ok (segments, left)) : segments.length = elements.length := by
  induction elements generalizing answers segments with
  | nil =>
    cases h
    rfl
  | cons wanted elements ih =>
    rw [segmentsFor] at h
    rcases hone : segmentFor wanted answers with e | ⟨data, answers'⟩
    · rw [hone] at h
      cases h
    · rw [hone] at h
      simp only [bind, Except.bind] at h
      rcases hrest : segmentsFor elements answers' with e | ⟨rest, left'⟩
      · rw [hrest] at h
        cases h
      · rw [hrest] at h
        cases h
        rw [List.length_cons, List.length_cons, ih hrest]

/-- The ranges are put together from their elements' segments, and fail as these do. -/
theorem assembleAll_of_segmentsFor (f : ReadRange → Bytes) (wanted : List ReadRange) (answers : Answers) :
    (∀ left, segmentsFor (wanted.flatMap readPieces) answers = .ok ((wanted.flatMap readPieces).map f, left) →
      assembleAll wanted answers = .ok (wanted.map fun range => ((readPieces range).map f).flatten)) ∧
    ∀ e, segmentsFor (wanted.flatMap readPieces) answers = .error e → assembleAll wanted answers = .error e := by
  induction wanted generalizing answers with
  | nil => exact ⟨fun left _ => rfl, fun e h => by cases h⟩
  | cons range wanted ih =>
    rw [List.flatMap_cons, segmentsFor_append, assembleAll, assemble]
    rcases hfirst : segmentsFor (readPieces range) answers with e | ⟨parts, answers'⟩
    · exact ⟨fun left h => (by cases h), fun e h => (by cases h; rfl)⟩
    · obtain ⟨hok, herror⟩ := ih answers'
      have hparts := length_segmentsFor hfirst
      simp only [bind, Except.bind]
      rcases hmore : segmentsFor (wanted.flatMap readPieces) answers' with e | ⟨rest, left'⟩
      · refine ⟨fun left h => (by cases h), fun e' h => ?_⟩
        rw [herror e hmore]
        cases h
        rfl
      · refine ⟨fun left h => ?_, fun e' h => (by cases h)⟩
        obtain ⟨happend, -⟩ := Prod.mk.inj (Except.ok.inj h)
        rw [List.map_append] at happend
        obtain ⟨rfl, rfl⟩ := List.append_inj happend (by rw [hparts, List.length_map])
        rw [hok left' hmore]
        rfl

/-! ## Every range its own bytes -/

/-- What a vector read comes to, from what its segments come to. -/
theorem readv_of_segmentsFor {file : Bytes} {wanted : List ReadRange} (hwanted : ∀ range ∈ wanted, range.Sendable)
    {fetch : List (List ReadRange) → List Bytes} {came : List (List ReadRange)}
    (h : List.Forall₂ (Holds file) came (fetch (batches (readElements wanted))))
    (hcame : ∀ ranges ∈ came, ∀ range ∈ ranges, range.Element) {answers : Answers}
    (hanswers : byOffset (fetch (batches (readElements wanted))) = .ok answers) :
    (∀ left, segmentsFor (readElements wanted) answers = .ok ((readElements wanted).map (ReadRange.of file), left) →
      readv fetch wanted = .ok (wanted.map (ReadRange.of file))) ∧
    ∀ e, segmentsFor (readElements wanted) answers = .error e →
      readv fetch wanted = .ok (wanted.map (ReadRange.of file)) ∨ readv fetch wanted = .error e := by
  unfold readv
  by_cases hnone : wanted = []
  · subst hnone
    exact ⟨fun left _ => rfl, fun e _ => .inl rfl⟩
  rw [if_neg hnone]
  by_cases hshort : ∀ range ∈ wanted, range.length ≤ READV_MAX_ELEMENT
  · have hsame : readElements wanted = wanted := if_pos hshort
    rw [hsame] at h hanswers ⊢
    rw [if_pos hshort, readvElements]
    have hasked : asAsked (fetch (batches wanted)) wanted = .ok none ∨
        asAsked (fetch (batches wanted)) wanted = .ok (some (wanted.map (ReadRange.of file))) :=
      asAskedFrom_of_holds h hcame [] wanted
    obtain hslow | hquick := hasked
    · simp only [bind, Except.bind, hslow, hanswers]
      refine ⟨fun left hok => by rw [hok], fun e herror => .inr (by rw [herror])⟩
    · simp only [bind, Except.bind, hquick]
      exact ⟨fun left _ => trivial, fun e _ => .inl trivial⟩
  · have hsame : readElements wanted = wanted.flatMap readPieces := if_neg hshort
    rw [hsame] at hanswers ⊢
    rw [if_neg hshort]
    obtain ⟨hok, herror⟩ := assembleAll_of_segmentsFor (ReadRange.of file) wanted answers
    have hwhole : (wanted.map fun range => ((readPieces range).map (ReadRange.of file)).flatten)
        = wanted.map (ReadRange.of file) :=
      List.map_congr_left fun range hrange => of_readPieces file (hwanted range hrange)
    rw [hwhole] at hok
    simp only [bind, Except.bind, hanswers]
    exact ⟨hok, fun e he => .inr (herror e he)⟩

/-- A vector read of any ranges hands out the bytes of every range, in the order asked for, or
fails: behind replies that hold the elements of their requests in whatever order, it fails only
where an element finds a longer one that begins at the same offset, and behind replies that
hold them in the order asked for it does not fail. -/
theorem readv_reads (file : Bytes) {wanted : List ReadRange} (hwanted : ∀ range ∈ wanted, range.Sendable)
    (fetch : List (List ReadRange) → List Bytes) :
    (List.Forall₂ (Answered file) (batches (readElements wanted)) (fetch (batches (readElements wanted))) →
      readv fetch wanted = .ok (wanted.map (ReadRange.of file)) ∨
        ∃ range ∈ readElements wanted, ∃ other ∈ readElements wanted, other.offset = range.offset ∧
          range.length < other.length ∧ ∃ got, readv fetch wanted = .error (.long range got)) ∧
    (List.Forall₂ (Holds file) (batches (readElements wanted)) (fetch (batches (readElements wanted))) →
      readv fetch wanted = .ok (wanted.map (ReadRange.of file))) := by
  have hflat : (batches (readElements wanted)).flatten = readElements wanted :=
    flatten_batchesFrom READV_MAX_CHUNKS READV_MAX_BYTES ReadRange.length [] 0 (readElements wanted)
  have helements : ∀ range ∈ readElements wanted, range.Element := by
    rw [readElements_eq]
    intro piece hpiece
    obtain ⟨range, hrange, hmem⟩ := List.mem_flatMap.mp hpiece
    exact (hwanted range hrange).elements hmem
  constructor
  · intro hserver
    obtain ⟨came, hperms, hholds⟩ : ∃ came, List.Forall₂ (fun ranges batch => ranges.Perm batch) came
        (batches (readElements wanted)) ∧ List.Forall₂ (Holds file) came (fetch (batches (readElements wanted))) := by
      generalize fetch (batches (readElements wanted)) = bodies at hserver ⊢
      generalize batches (readElements wanted) = asked at hserver ⊢
      clear helements
      induction hserver with
      | nil => exact ⟨[], .nil, .nil⟩
      | cons hbody _ ih =>
        obtain ⟨ranges, hperm, hheld⟩ := hbody
        obtain ⟨came, hperms, hholds⟩ := ih
        exact ⟨ranges :: came, .cons hperm hperms, .cons hheld hholds⟩
    have hperm : came.flatten.Perm (readElements wanted) := hflat ▸ List.Perm.flatten_congr hperms
    have hcame : ∀ ranges ∈ came, ∀ range ∈ ranges, range.Element := fun ranges hranges range hrange =>
      helements range (hperm.mem_iff.mp (List.mem_flatten_of_mem hranges hrange))
    obtain ⟨answers, hanswers, hsegments⟩ := segmentsFor_of_answered hholds hperm helements
    obtain ⟨hok, herror⟩ := readv_of_segmentsFor hwanted hholds hcame hanswers
    obtain ⟨left, hclaimed⟩ | ⟨range, hrange, other, hother, hoffset, hlonger, got, hlong⟩ := hsegments
    · exact .inl (hok left hclaimed)
    · obtain hdone | hfailed := herror _ hlong
      · exact .inl hdone
      · exact .inr ⟨range, hrange, other, hother, hoffset, hlonger, got, hfailed⟩
  · intro hserver
    have hall : ∀ range ∈ (batches (readElements wanted)).flatten, range.Element := by rwa [hflat]
    obtain ⟨answers, left, hanswers, hsegments⟩ := segmentsFor_in_order hserver hall
    rw [hflat] at hsegments
    exact (readv_of_segmentsFor hwanted hserver (fun ranges hranges range hrange =>
      hall range (List.mem_flatten_of_mem hranges hrange)) hanswers).1 left hsegments

/-- Two ranges of a file of five bytes, of which one goes past the end. -/
def twoRanges : List ReadRange := [⟨3, 4⟩, ⟨0, 2⟩]

/-- A server that answers the two in the other order. -/
def swapped (_ : List (List ReadRange)) : List Bytes :=
  [segmentOf [1, 2, 3, 4, 5] ([0, 0, 0, 7], ⟨0, 2⟩) ++ segmentOf [1, 2, 3, 4, 5] ([0, 0, 0, 7], ⟨3, 4⟩)]

theorem readv_reads_swapped : readv swapped twoRanges = .ok [[4, 5], [1, 2]] := by
  have hsendable : ∀ range ∈ twoRanges, range.Sendable := by
    simp only [twoRanges, List.forall_mem_cons]
    exact ⟨⟨by decide, by decide, by decide⟩, ⟨by decide, by decide, by decide⟩, fun _ h => by cases h⟩
  have hbatches : batches (readElements twoRanges) = [twoRanges] := by decide
  obtain ⟨hany, -⟩ := readv_reads [1, 2, 3, 4, 5] hsendable swapped
  rw [hbatches] at hany
  obtain hread | ⟨range, hrange, other, hother, hoffset, hlonger, -⟩ := hany (.cons
    ⟨[⟨0, 2⟩, ⟨3, 4⟩], .swap _ _ _, [([0, 0, 0, 7], ⟨0, 2⟩), ([0, 0, 0, 7], ⟨3, 4⟩)], by decide, rfl,
      (List.append_nil _).symm⟩ .nil)
  · exact hread
  · have hapart : ∀ range ∈ readElements twoRanges, ∀ other ∈ readElements twoRanges,
        other.offset = range.offset → ¬ range.length < other.length := by decide
    exact absurd hlonger (hapart range hrange other hother hoffset)

end XrdClient.Client
