/-
  Proto/Checkpointed.lean --- a request handed over as a part of a checkpoint.

  Source: `ChkPoint.execute`, `payload` and `trailer` of `proto/_requests_io.py`; `encode` of
  `proto/frames.py`.

  `kXR_ckpXeq` embeds another request: its header is what the frame counts, and its data lie
  behind the frame, uncounted.  A server reads the embedded header, and from that how many
  bytes follow.  It reads what it would have read of the request on its own, where the data of
  that are in its frame and not on a data path.
-/
import XrdClient.Proto.OneFormat

set_option autoImplicit false

namespace XrdClient.Proto.Encoders

open XrdClient.Lib

/-! ## What a server reads -/

/-- A request as a server takes it: what it is for, its parameters and its data. -/
structure ReadRequest where
  opcode : Nat
  params : Bytes
  data : Bytes
  deriving DecidableEq

/-- The request whose header is `head`, and whose data begin at `wire`; and what is behind. -/
def readBehind (head wire : Bytes) : Option (ReadRequest × Bytes) :=
  let dlen := beNat (head.drop 20)
  if head.length ≠ REQUEST_HDRLEN ∨ wire.length < dlen then none
  else some (⟨beNat ((head.drop 2).take 2), (head.drop 4).take 16, wire.take dlen⟩, wire.drop dlen)

/-- A request that stands on its own. -/
def readRequest (wire : Bytes) : Option (ReadRequest × Bytes) :=
  readBehind (wire.take REQUEST_HDRLEN) (wire.drop REQUEST_HDRLEN)

/-- A request in a `kXR_ckpXeq`: the handle of the checkpoint, the request and what is behind. -/
def readExecuted (wire : Bytes) : Option (Bytes × ReadRequest × Bytes) := do
  let (outer, rest) ← readRequest wire
  if outer.opcode ≠ kXR_chkpoint ∨ outer.params.drop 15 ≠ [4] then none
  else do
    let (inner, rest) ← readBehind outer.data rest
    some (outer.params.take 4, inner, rest)

/-! ## Frames -/

/-- Buffers are joined from the bytes behind them. -/
theorem join_raw {parts : List Buf} {frame : Bytes} (h : join parts = some frame) :
    frame = (parts.map Buf.raw).flatten := by
  induction parts generalizing frame with
  | nil => exact (Option.some.inj h).symm
  | cons part parts ih =>
    rw [join] at h
    rcases hblock : part.block with _ | b
    · rw [hblock] at h
      cases h
    rcases hjoin : join parts with _ | rest
    · rw [hblock, hjoin] at h
      cases h
    rw [hblock, hjoin] at h
    have hraw : b = part.raw := by
      cases part with
      | bytes b' => exact (Option.some.inj hblock).symm
      | view shape contiguous b' =>
        cases contiguous with
        | true => exact (Option.some.inj hblock).symm
        | false => cases hblock
    rw [← Option.some.inj h, hraw, ih hjoin]
    rfl

/-- The fields of a header are read back. -/
theorem headerBlock_opcode {streamid dlen : Nat} {opcode : Int} {params head : Bytes}
    (h : headerBlock streamid opcode params dlen = some head) :
    (beNat ((head.drop 2).take 2) : Int) = opcode := by
  obtain ⟨code, hcode, rfl⟩ := Option.map_eq_some_iff.mp h
  unfold unsignedField at hcode
  split at hcode
  · next hfits =>
    obtain rfl := Option.some.inj hcode
    have h2 : (beBytes 2 (streamid % 0x10000)).length = 2 := length_beBytes _ _
    rw [List.append_assoc, List.append_assoc, List.drop_left' h2, List.take_left' (length_beBytes _ _),
      beNat_beBytes _ _ (by omega), Int.toNat_of_nonneg hfits.1]
  · cases hcode

/-- A frame is a header and what is behind, where the data of a request that has none on a data
path are all there. -/
theorem encode_frame {h : Hooks} (hflat : h.Flat) {data : Buf} (hdata : h.pathData = some data) (hnone : data.raw = [])
    {streamid : Nat} {frame : Bytes} (hframe : encode h streamid = some frame) :
    ∃ head params body trailer, h.headerParams = some params ∧ h.payload = some body ∧ h.trailer = some trailer ∧
      frame = head ++ (body.raw ++ trailer) ∧ head.length = REQUEST_HDRLEN ∧ (head.drop 4).take 16 = params ∧
      beNat (head.drop 20) = body.raw.length ∧ (beNat ((head.drop 2).take 2) : Int) = h.opcode := by
  rw [← join_encodeParts] at hframe
  obtain ⟨parts, hparts, hjoin⟩ := Option.bind_eq_some_iff.mp hframe
  obtain ⟨e⟩ := encodeParts_cases hflat hparts
  obtain ⟨hlen, hfields, hdlen⟩ := headerBlock_fields e.head_eq e.sixteen e.fits
  have hsame : e.data = data := Option.some.inj (e.pathData_eq.symm.trans hdata)
  rw [hsame, hnone, List.length_nil, Nat.add_zero] at hdlen
  refine ⟨e.head, e.params, e.body, e.trailer, e.params_eq, e.payload_eq, e.trailer_eq, ?_, hlen, hfields, hdlen,
    headerBlock_opcode e.head_eq⟩
  rw [join_raw hjoin, raw_assemble e.assembled, List.append_assoc]

/-- Behind a header that counts them, the data are read. -/
theorem readBehind_counted {head data : Bytes} (rest : Bytes) (hhead : head.length = REQUEST_HDRLEN)
    (hdlen : beNat (head.drop 20) = data.length) :
    readBehind head (data ++ rest) = some (⟨beNat ((head.drop 2).take 2), (head.drop 4).take 16, data⟩, rest) := by
  have hin : ¬ (head.length ≠ REQUEST_HDRLEN ∨ (data ++ rest).length < beNat (head.drop 20)) := by
    rw [hdlen, List.length_append]
    omega
  unfold readBehind
  simp only
  rw [if_neg hin, hdlen, List.take_left, List.drop_left]

/-! ## The same request -/

/-- A request that a checkpoint can execute, with its data in its frame. -/
structure Instance.Journaled (r : Instance) : Prop where
  plain : r.Plain
  executable : r.cls.opcode ∈ EXECUTABLE
  pathData : ∃ data, r.hooks.pathData = some data ∧ data.raw = []
  trailer : ∀ trailer, r.hooks.trailer = some trailer → trailer = []

theorem Instance.Plain.flat {r : Instance} (h : r.Plain) : r.hooks.Flat :=
  ⟨fun _ hb => payload_flat h hb, fun _ hb => pathData_flat h hb⟩

/-- The frame around an embedded request. -/
def wrapper (handle head tail : Bytes) : Instance := ⟨.chkPoint, .chkPoint (.bytes handle) 4 head tail⟩

theorem wrapper_headerParams (handle head tail : Bytes) :
    (wrapper handle head tail).hooks.headerParams = some (padded handle 4 ++ List.replicate 11 0 ++ [4]) := by
  have hclass := (library_class .chkPoint).1
  obtain ⟨cls, hcls, hzero⟩ := hclass
  have hbeside : ∀ k, (library Empty).Beside (code id nowhere) (wrapper handle head tail).fields k :=
    library_beside (by exact trivial)
  have hrun := (library_kept (ν := Empty)).runHeader_eq hbeside hcls hzero
  show (library Empty).runHeader (code id nowhere) Cls.chkPoint.id (wrapper handle head tail).fields = _
  rw [hrun]
  have hparams := (library_class .chkPoint).2
  simp only [Classes.runParams, hparams, Option.bind_eq_bind, Option.bind_some]
  rfl

/-- Whether the buffers of a frame can be joined does not depend on the header. -/
theorem assemble_join (head head' : Bytes) (body : Buf) (size : Nat) (trailer : Bytes) :
    ((assemble head body size trailer).bind join).isSome = ((assemble head' body size trailer).bind join).isSome := by
  unfold assemble
  by_cases hinline : size + trailer.length ≤ inlineLimit
  · rw [if_pos hinline, if_pos hinline]
    by_cases hempty : size = 0 ∧ trailer = []
    · rw [if_pos hempty, if_pos hempty]
      rfl
    · rw [if_neg hempty, if_neg hempty]
      cases body.block <;> rfl
  · rw [if_neg hinline, if_neg hinline]
    generalize (if size = 0 then [] else [body]) = middle
    generalize (if trailer = [] then [] else [Buf.bytes trailer]) = last
    simp only [Option.bind_some, List.cons_append, join, Buf.block]
    cases join ([] ++ middle ++ last) <;> rfl

/-- Whether a request can be framed does not depend on its stream. -/
theorem encode_isSome (h : Hooks) (streamid streamid' : Nat) :
    (encode h streamid).isSome = (encode h streamid').isSome := by
  rw [← join_encodeParts, ← join_encodeParts]
  unfold encodeParts
  rcases h.headerParams with _ | params
  · rfl
  by_cases hparams : params.length ≠ 16
  · simp [hparams]
  rcases h.payload with _ | body
  · simp
  rcases h.trailer with _ | trailer
  · simp
  rcases hsize : body.len with _ | size
  · simp [hsize]
  rcases h.pathData with _ | data
  · simp
  rcases hbeside : data.len with _ | beside
  · simp [hbeside]
  by_cases hlong : MAX_FRAME_PAYLOAD < size + beside
  · simp [hsize, hbeside, hlong]
  simp only [hparams, hsize, hbeside, hlong, if_false, Option.bind_eq_bind, Option.bind_some, headerBlock]
  rcases unsignedField 2 h.opcode with _ | code
  · rfl
  · exact assemble_join _ _ body size trailer

/-- The frame around an embedded request can be made. -/
theorem encode_wrapper (handle : Bytes) {head : Bytes} (tail : Bytes) (hhead : head.length = REQUEST_HDRLEN)
    (streamid : Nat) : (encode (wrapper handle head tail).hooks streamid).isSome = true := by
  have hparams := wrapper_headerParams handle head tail
  have hpayload : (wrapper handle head tail).hooks.payload = some (.bytes head) := rfl
  have htrailer : (wrapper handle head tail).hooks.trailer = some tail := rfl
  have hdata : (wrapper handle head tail).hooks.pathData = some (.bytes []) := rfl
  have hopcode : (wrapper handle head tail).hooks.opcode = (kXR_chkpoint : Int) := rfl
  have hsixteen : ¬ (padded handle 4 ++ List.replicate 11 0 ++ [4]).length ≠ 16 := by
    simp only [padded, List.length_append, List.length_take, List.length_replicate, List.length_singleton]
    omega
  have hshort : ¬ MAX_FRAME_PAYLOAD < head.length + ([] : Bytes).length := by
    rw [hhead]
    decide
  rw [← join_encodeParts]
  unfold encodeParts
  rw [hparams, hpayload, htrailer, hdata, hopcode]
  simp only [hsixteen, hshort, if_false, Option.bind_eq_bind, Option.bind_some, Buf.len, headerBlock]
  have hcode : unsignedField 2 (kXR_chkpoint : Int) = some (beBytes 2 kXR_chkpoint) := by decide
  rw [hcode]
  simp only [Option.map_some, Option.bind_some]
  unfold assemble
  by_cases hinline : head.length + tail.length ≤ inlineLimit
  · rw [if_pos hinline]
    split <;> rfl
  · rw [if_neg hinline]
    have hsome : ¬ head.length = 0 := by
      rw [hhead]
      decide
    rw [if_neg hsome]
    split <;> rfl

/-- A request that is handed over as a part of a checkpoint is the one that would have been sent:
it is framed where that is, and the server reads the same of both, whatever is behind them. -/
theorem execute_reads_same {r : Instance} (hr : r.Journaled) {handle : Bytes} (hhandle : handle.length = 4)
    (streamid : Nat) :
    (((execute (.bytes handle) r).bind fun outer => encode outer.hooks streamid).isSome
        = (encode r.hooks streamid).isSome) ∧
      ∀ frame, encode r.hooks streamid = some frame → ∃ outer wire request, execute (.bytes handle) r = some outer ∧
        encode outer.hooks streamid = some wire ∧ ∀ rest, readRequest (frame ++ rest) = some (request, rest) ∧
          readExecuted (wire ++ rest) = some (handle, request, rest) := by
  have hexecute : execute (.bytes handle) r = (encode r.hooks 0).map fun frame =>
      wrapper handle (frame.take REQUEST_HDRLEN) (frame.drop REQUEST_HDRLEN) :=
    if_neg (not_not_intro hr.executable)
  obtain ⟨data, hdata, hnone⟩ := hr.pathData
  have hsome := encode_isSome r.hooks streamid 0
  rcases hinner : encode r.hooks 0 with _ | inner
  · rw [hinner] at hsome
    rw [hexecute, hinner]
    refine ⟨hsome.symm, fun frame hframe => ?_⟩
    rw [hframe] at hsome
    cases hsome
  · obtain ⟨head, params, body, trailer, hparams, hbody, htrailer, rfl, hhead, hfields, hdlen, hopcode⟩ :=
      encode_frame hr.plain.flat hdata hnone hinner
    obtain rfl := hr.trailer trailer htrailer
    rw [List.append_nil] at hinner
    rw [hinner] at hsome hexecute
    have htake : (head ++ body.raw).take REQUEST_HDRLEN = head := List.take_left' hhead
    have hdrop : (head ++ body.raw).drop REQUEST_HDRLEN = body.raw := List.drop_left' hhead
    rw [Option.map_some, htake, hdrop] at hexecute
    rw [hexecute, Option.bind_some]
    have hwrapper := encode_wrapper handle body.raw hhead streamid
    refine ⟨hwrapper.trans hsome.symm, fun frame hframe => ?_⟩
    obtain ⟨wire, hwire⟩ := Option.isSome_iff_exists.mp hwrapper
    obtain ⟨head', params', body', trailer', hparams', hbody', htrailer', rfl, hhead', hfields', hdlen', hopcode'⟩ :=
      encode_frame hr.plain.flat hdata hnone hframe
    have hplain : (wrapper handle head body.raw).hooks.Flat :=
      ⟨fun b hb => flat_of_bytes hb, fun b hb => flat_of_bytes hb⟩
    obtain ⟨top, around, counted, tail, haround, hcounted, htail, rfl, htop, htopFields, htopDlen, htopOpcode⟩ :=
      encode_frame hplain rfl rfl hwire
    obtain rfl := Option.some.inj (hparams.symm.trans hparams')
    obtain rfl := Option.some.inj (hbody.symm.trans hbody')
    obtain rfl := hr.trailer trailer' htrailer'
    obtain rfl := Option.some.inj ((show _ = some (Buf.bytes head) from rfl).symm.trans hcounted)
    obtain rfl := Option.some.inj ((show _ = some body.raw from rfl).symm.trans htail)
    obtain rfl := Option.some.inj ((wrapper_headerParams handle head body.raw).symm.trans haround)
    have hsameOpcode : beNat ((head'.drop 2).take 2) = beNat ((head.drop 2).take 2) := by
      have := hopcode'.trans hopcode.symm
      omega
    have hcheckpoint : beNat ((top.drop 2).take 2) = kXR_chkpoint := by
      have : (wrapper handle head body.raw).hooks.opcode = (kXR_chkpoint : Int) := rfl
      omega
    have hhandleField : (padded handle 4 ++ List.replicate 11 (0 : UInt8) ++ [4]).take 4 = handle := by
      rw [padded, ← hhandle, List.take_length, Nat.sub_self, List.replicate_zero, List.append_nil, List.append_assoc,
        List.take_left]
    have hsubcode : (padded handle 4 ++ List.replicate 11 (0 : UInt8) ++ [4]).drop 15 = [4] := by
      have hlen : (padded handle 4 ++ List.replicate 11 (0 : UInt8)).length = 15 := by
        simp only [padded, List.length_append, List.length_take, List.length_replicate]
        omega
      exact List.drop_left' hlen
    refine ⟨_, _, ⟨beNat ((head.drop 2).take 2), (head.drop 4).take 16, body.raw⟩, rfl, hwire, fun rest => ⟨?_, ?_⟩⟩
    · rw [readRequest, List.append_nil, List.append_assoc, List.take_left' hhead', List.drop_left' hhead',
        readBehind_counted rest hhead' hdlen', hsameOpcode, hfields', hfields]
    · have houter : readRequest (top ++ ((Buf.bytes head).raw ++ body.raw) ++ rest)
          = some (⟨kXR_chkpoint, padded handle 4 ++ List.replicate 11 0 ++ [4], head⟩, body.raw ++ rest) := by
        rw [readRequest, List.append_assoc, List.append_assoc, List.take_left' htop, List.drop_left' htop,
          readBehind_counted (body.raw ++ rest) htop htopDlen, hcheckpoint, htopFields]
        rfl
      rw [readExecuted, houter]
      simp only [Option.bind_eq_bind, Option.bind_some, hsubcode, ne_eq, not_true_eq_false, or_self, if_false]
      rw [readBehind_counted rest hhead hdlen, Option.bind_some, hhandleField]

end XrdClient.Proto.Encoders
