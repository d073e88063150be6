/-
  Proto/Signed.lean --- what is signed is what the server reads.

  Source: `SessionMachine._frame` of `proto/machine.py`, `Signer.sign` of
  `crypto/sigver.py`.

  A request's payload may lie in three places: in the frame, on a bound data
  path, or behind the frame uncounted.  The header's `dlen` counts the first two,
  and the signer takes `dlen` bytes of the frame it is given, which holds the
  first and the third.
-/
import XrdClient.Proto.Machine
import XrdClient.Proto.OneFormat

set_option autoImplicit false

namespace XrdClient.Proto

open XrdClient.Lib
open XrdClient.Crypto

/-! ## The layout of a frame -/

/-- The 24 bytes in front of a request. -/
def requestHead (r : Request) (sid : Nat) : Bytes :=
  beBytes 2 (sid % 0x10000) ++ beBytes 2 r.opcode ++ r.params ++
    beBytes 4 (r.payload.length + r.pathData.length)

/-- A request that can be framed. -/
structure Request.Framed (r : Request) : Prop where
  params : r.params.length = 16
  dlen : r.payload.length + r.pathData.length ≤ MAX_FRAME_PAYLOAD
  opcode : r.opcode < 0x10000

/-- What `encode_parts` succeeds on, and the bytes it makes. -/
theorem encodeParts_ok {r : Request} {sid : Nat} {parts : List Bytes}
    (h : encodeParts r sid = .ok parts) :
    r.Framed ∧ parts.flatten = requestHead r sid ++ r.payload ++ r.trailer := by
  unfold encodeParts at h
  simp only at h
  split at h
  · cases h
  rename_i hparams
  split at h
  · cases h
  rename_i hdlen
  split at h
  · cases h
  rename_i hopcode
  refine ⟨⟨by omega, by omega, by omega⟩, ?_⟩
  split at h
  · obtain rfl := Except.ok.inj h
    simp [requestHead]
  · obtain rfl := Except.ok.inj h
    by_cases hp : r.payload = [] <;> by_cases ht : r.trailer = [] <;>
      simp [requestHead, hp, ht]

/-- A request that can be framed is. -/
theorem encodeParts_framed {r : Request} (h : r.Framed) (sid : Nat) :
    ∃ parts, encodeParts r sid = .ok parts := by
  have hparams := h.params
  have hdlen := h.dlen
  have hopcode := h.opcode
  unfold encodeParts
  simp only
  rw [if_neg (by omega), if_neg (by omega), if_neg (by omega)]
  split <;> exact ⟨_, rfl⟩

/-- The fields of the 24 bytes, whatever follows them. -/
theorem requestHead_fields {r : Request} (h : r.Framed) (sid : Nat) (rest : Bytes) :
    (requestHead r sid).length = REQUEST_HDRLEN ∧
      beNat (((requestHead r sid ++ rest).drop 2).take 2) = r.opcode ∧
      ((requestHead r sid ++ rest).drop 4).take 16 = r.params ∧
      beNat (((requestHead r sid ++ rest).drop 20).take 4) =
        r.payload.length + r.pathData.length := by
  have hdlen : r.payload.length + r.pathData.length < 256 ^ 4 := by
    have := h.dlen
    unfold MAX_FRAME_PAYLOAD at this
    omega
  have hparams := h.params
  have h2 : (beBytes 2 (sid % 0x10000)).length = 2 := length_beBytes _ _
  have h4 : (beBytes 2 (sid % 0x10000) ++ beBytes 2 r.opcode).length = 4 := by simp
  have h20 : (beBytes 2 (sid % 0x10000) ++ beBytes 2 r.opcode ++ r.params).length = 20 := by
    simp [hparams]
  refine ⟨?_, ?_, ?_, ?_⟩
  · simp [requestHead, hparams, REQUEST_HDRLEN]
  · have hdrop : (requestHead r sid ++ rest).drop 2 = beBytes 2 r.opcode ++ (r.params ++
        (beBytes 4 (r.payload.length + r.pathData.length) ++ rest)) := by
      simp only [requestHead, List.append_assoc]
      rw [List.drop_left' h2]
    rw [hdrop, List.take_left' (length_beBytes _ _)]
    exact beNat_beBytes 2 _ h.opcode
  · have hdrop : (requestHead r sid ++ rest).drop 4 = r.params ++
        (beBytes 4 (r.payload.length + r.pathData.length) ++ rest) := by
      simp only [requestHead, List.append_assoc]
      rw [← List.append_assoc (beBytes 2 (sid % 0x10000)), List.drop_left' h4]
    rw [hdrop, List.take_left' hparams]
  · have hdrop : (requestHead r sid ++ rest).drop 20 =
        beBytes 4 (r.payload.length + r.pathData.length) ++ rest := by
      unfold requestHead
      rw [List.append_assoc _ _ rest, List.drop_left' h20]
    rw [hdrop, List.take_left' (length_beBytes _ _)]
    exact beNat_beBytes 4 _ hdlen

/-! ## What the machine signs -/

/-- Whether the signer leaves the payload of a request out. -/
def leavesOut (signer : Signer) (opcode : Nat) : Bool :=
  decide (opcode ∈ DATA_OPCODES) && !signer.secodata

/-- The bytes behind the header that the signer takes for the payload. -/
def takenBySigner (r : Request) : Bytes := r.payload ++ r.trailer.take r.pathData.length

/-- `Signer.sign` on a whole frame. -/
theorem sign_frame {signer : Signer} {r : Request} (hframed : r.Framed)
    (hrequired : signer.required r.opcode = true) (sid : Nat)
    (sign : Bytes → Nat → Bytes → Bytes → Bool → Bytes) :
    signer.sign sign (requestHead r sid ++ r.payload ++ r.trailer) =
      (some (signer.seqno + 1,
        sign signer.key (signer.seqno + 1) (requestHead r sid) (takenBySigner r)
          (leavesOut signer r.opcode), leavesOut signer r.opcode),
        { signer with seqno := signer.seqno + 1 }) := by
  obtain ⟨hlen, hopcode, _, hdlen⟩ := requestHead_fields hframed sid (r.payload ++ r.trailer)
  rw [← List.append_assoc] at hopcode hdlen
  have htake : (requestHead r sid ++ r.payload ++ r.trailer).take REQUEST_HDRLEN =
      requestHead r sid := by
    rw [List.append_assoc, List.take_left' hlen]
  have hdrop : (requestHead r sid ++ r.payload ++ r.trailer).drop REQUEST_HDRLEN =
      r.payload ++ r.trailer := by
    rw [List.append_assoc, List.drop_left' hlen]
  have hsigned : signed 32 (r.payload.length + r.pathData.length) =
      ((r.payload.length + r.pathData.length : Nat) : Int) := by
    have := hframed.dlen
    unfold MAX_FRAME_PAYLOAD at this
    unfold signed
    rw [if_pos (by omega)]
  have hslice : (r.payload ++ r.trailer).take (r.payload.length + r.pathData.length) =
      takenBySigner r := by
    rw [List.take_append, takenBySigner]
    congr 1
    · exact List.take_of_length_le (by omega)
    · congr 1
      omega
  simp only [Signer.sign, hopcode, hrequired, if_true, hdlen, hsigned, sliceTo_natCast, htake,
    hdrop, hslice, leavesOut]

/-- `_frame` of a request that must be signed: the signature frame and the request
behind it, in one buffer. -/
theorem frame_signed {m : MachineState} {signer : Signer} (hsigner : m.signer = some signer)
    {r : Request} (hframed : r.Framed) (hrequired : signer.required r.opcode = true)
    (hseqno : signer.seqno + 1 < 2 ^ 64) (sid : Nat) :
    (m.frame r sid).1 =
      (encode (sigverRequest r.opcode (signer.seqno + 1)
        (m.env.sigverSign signer.key (signer.seqno + 1) (requestHead r sid) (takenBySigner r)
          (leavesOut signer r.opcode)) (leavesOut signer r.opcode)) sid).map
        fun sigver => [sigver ++ (requestHead r sid ++ r.payload ++ r.trailer)] := by
  obtain ⟨parts, hparts⟩ := encodeParts_framed hframed sid
  have hbytes := (encodeParts_ok hparts).2
  simp only [MachineState.frame, hparts, hsigner, hbytes, sign_frame hframed hrequired sid,
    MachineState.encodeSigver, if_neg (Nat.not_le.mpr hseqno)]
  cases encode (sigverRequest r.opcode (signer.seqno + 1)
    (m.env.sigverSign signer.key (signer.seqno + 1) (requestHead r sid) (takenBySigner r)
      (leavesOut signer r.opcode)) (leavesOut signer r.opcode)) sid <;> rfl

/-! ## What the server reads -/

/-- A signature and the request it is for, as a server has read them. -/
structure Checked where
  expectrid : Nat
  nodata : Bool
  seqno : Nat
  signature : Bytes
  header : Bytes
  payload : Bytes
  deriving DecidableEq

/-- The server's reading: a `kXR_sigver` frame, the header behind it, and the `dlen`
bytes that header declares, `inFrame` of them behind it and the others on the bound
path. -/
def Checked.read (control path : Bytes) (inFrame : Nat) : Checked :=
  let length := beNat ((control.drop 20).take 4)
  let request := control.drop (REQUEST_HDRLEN + length)
  let dlen := beNat ((request.drop 20).take 4)
  { expectrid := beNat ((control.drop 4).take 2)
    nodata := decide (beNat ((control.drop 7).take 1) &&& kXR_nodata_sig ≠ 0)
    seqno := beNat ((control.drop 8).take 8)
    signature := (control.drop REQUEST_HDRLEN).take length
    header := request.take REQUEST_HDRLEN
    payload := (request.drop REQUEST_HDRLEN).take inFrame ++ path.take (dlen - inFrame) }

/-- The bytes of a `kXR_sigver` frame. -/
theorem encode_sigver {opcode seqno : Nat} {signature : Bytes} {nodata : Bool} {sid : Nat}
    {frame : Bytes}
    (h : encode (sigverRequest opcode seqno signature nodata) sid = .ok frame) :
    (sigverRequest opcode seqno signature nodata).Framed ∧
      frame = requestHead (sigverRequest opcode seqno signature nodata) sid ++ signature := by
  unfold encode at h
  cases hparts : encodeParts (sigverRequest opcode seqno signature nodata) sid with
  | error e => simp [hparts] at h
  | ok parts =>
      obtain ⟨hframed, hbytes⟩ := encodeParts_ok hparts
      simp only [hparts, Except.ok.injEq] at h
      refine ⟨hframed, ?_⟩
      rw [← h, hbytes]
      simp [sigverRequest]

/-- The parameters of a `kXR_sigver` frame. -/
theorem sigver_params {opcode seqno : Nat} {signature : Bytes} {nodata : Bool}
    (hopcode : opcode < 0x10000) (hseqno : seqno < 2 ^ 64) :
    beNat ((sigverRequest opcode seqno signature nodata).params.take 2) = opcode ∧
      decide (beNat (((sigverRequest opcode seqno signature nodata).params.drop 3).take 1) &&&
        kXR_nodata_sig ≠ 0) = nodata ∧
      beNat (((sigverRequest opcode seqno signature nodata).params.drop 4).take 8) = seqno := by
  refine ⟨?_, ?_, ?_⟩
  · simp only [sigverRequest, List.append_assoc]
    rw [List.take_left' (length_beBytes _ _)]
    exact beNat_beBytes 2 _ hopcode
  · have hdrop : (sigverRequest opcode seqno signature nodata).params.drop 3 =
        beBytes 1 (if nodata then kXR_nodata_sig else 0) ++ (beBytes 8 seqno ++
          (beBytes 1 kXR_SHA256_sig ++ List.replicate 3 0)) := by
      have h3 : (beBytes 2 opcode ++ [0]).length = 3 := by simp
      simp only [sigverRequest, List.append_assoc]
      rw [← List.append_assoc (beBytes 2 opcode), List.drop_left' h3]
    rw [hdrop, List.take_left' (length_beBytes _ _)]
    cases nodata <;> decide
  · have hdrop : (sigverRequest opcode seqno signature nodata).params.drop 4 =
        beBytes 8 seqno ++ (beBytes 1 kXR_SHA256_sig ++ List.replicate 3 0) := by
      have h4 : (beBytes 2 opcode ++ ([0] ++
          beBytes 1 (if nodata then kXR_nodata_sig else 0))).length = 4 := by simp
      simp only [sigverRequest, List.append_assoc]
      rw [← List.append_assoc [0], ← List.append_assoc (beBytes 2 opcode), List.drop_left' h4]
    rw [hdrop, List.take_left' (length_beBytes _ _)]
    exact beNat_beBytes 8 _ (by simpa using hseqno)

/-- A field of a block that is itself read by its offset. -/
theorem take_drop_inside {xs block : Bytes} {base width : Nat}
    (hblock : (xs.drop base).take width = block) (at_ n : Nat) (h : at_ + n ≤ width) :
    (xs.drop (base + at_)).take n = (block.drop at_).take n := by
  subst hblock
  rw [List.drop_take, List.take_take, List.drop_drop, Nat.min_eq_left (by omega)]

/-- What a server reads of a signed request: the number, the flag and the signature
that the frame in front carries, the header as sent, and the whole payload. -/
theorem read_signed {r : Request} (hframed : r.Framed) {seqno : Nat} (hseqno : seqno < 2 ^ 64)
    {signature : Bytes} {nodata : Bool} {sid : Nat} {sigver : Bytes}
    (h : encode (sigverRequest r.opcode seqno signature nodata) sid = .ok sigver) :
    Checked.read (sigver ++ (requestHead r sid ++ r.payload ++ r.trailer)) r.pathData
        r.payload.length =
      ⟨r.opcode, nodata, seqno, signature, requestHead r sid, r.payload ++ r.pathData⟩ := by
  obtain ⟨hsigver, rfl⟩ := encode_sigver h
  obtain ⟨hopcode, hnodata, hnumber⟩ :=
    @sigver_params r.opcode seqno signature nodata hframed.opcode hseqno
  obtain ⟨hhead, _, hfields, hlength⟩ := requestHead_fields hsigver sid
    (signature ++ (requestHead r sid ++ r.payload ++ r.trailer))
  obtain ⟨hlen, _, _, hdlen⟩ := requestHead_fields hframed sid (r.payload ++ r.trailer)
  have hcount : (sigverRequest r.opcode seqno signature nodata).payload.length +
      (sigverRequest r.opcode seqno signature nodata).pathData.length = signature.length := rfl
  rw [hcount] at hlength
  rw [← List.append_assoc] at hfields hlength hdlen
  have hrequest : (requestHead (sigverRequest r.opcode seqno signature nodata) sid ++ signature ++
      (requestHead r sid ++ r.payload ++ r.trailer)).drop (REQUEST_HDRLEN + signature.length) =
        requestHead r sid ++ r.payload ++ r.trailer := by
    rw [List.drop_left' (by rw [List.length_append, hhead])]
  have hsignature : ((requestHead (sigverRequest r.opcode seqno signature nodata) sid ++
      signature ++ (requestHead r sid ++ r.payload ++ r.trailer)).drop REQUEST_HDRLEN).take
        signature.length = signature := by
    rw [List.append_assoc, List.drop_left' hhead, List.take_left' rfl]
  have hheader : (requestHead r sid ++ r.payload ++ r.trailer).take REQUEST_HDRLEN =
      requestHead r sid := by
    rw [List.append_assoc, List.take_left' hlen]
  have hbody : ((requestHead r sid ++ r.payload ++ r.trailer).drop REQUEST_HDRLEN).take
      r.payload.length = r.payload := by
    rw [List.append_assoc, List.drop_left' hlen, List.take_left' rfl]
  have hpath : r.pathData.take (r.payload.length + r.pathData.length - r.payload.length) =
      r.pathData := List.take_of_length_le (by omega)
  have hat4 := take_drop_inside hfields 0 2 (by decide)
  have hat7 := take_drop_inside hfields 3 1 (by decide)
  have hat8 := take_drop_inside hfields 4 8 (by decide)
  rw [List.drop_zero] at hat4
  simp only [Checked.read, hlength, hrequest, hsignature, hheader, hdlen, hbody, hpath]
  rw [hat4, hat7, hat8, hopcode, hnodata, hnumber]

/-! ## What is signed is what the server reads -/

/-- A buffer in which the signature covers what the server reads, and which the
server's check accepts. -/
structure SignedAsRead (sha256 : Bytes → Bytes) (cbcEncrypt : Bytes → Bytes → Bytes)
    (cbcDecrypt : Bytes → Bytes → Option Bytes) (key : Bytes) (r : Request) (sid : Nat)
    (c : Checked) : Prop where
  expectrid : c.expectrid = r.opcode
  header : c.header = requestHead r sid
  payload : c.payload = r.payload ++ r.pathData
  covers : c.signature =
    cbcEncrypt key (sha256 (covered c.seqno (requestHead r sid) (r.payload ++ r.pathData) c.nodata))
  verified : sigverVerify sha256 cbcDecrypt key c.signature c.seqno c.header c.payload c.nodata =
    true

/-- Whatever the hash and the cipher are, every frame a machine with this signer makes
of the request is signed as it is read. -/
def SignsWhatIsRead (signer : Signer) (r : Request) (sid : Nat) : Prop :=
  ∀ (sha256 : Bytes → Bytes) (cbcEncrypt : Bytes → Bytes → Bytes)
    (cbcDecrypt : Bytes → Bytes → Option Bytes),
    (∀ key plain, cbcDecrypt key (cbcEncrypt key plain) = some plain) →
    ∀ m : MachineState, m.signer = some signer →
      m.env.sigverSign = sigverSign sha256 cbcEncrypt →
    ∀ parts, (m.frame r sid).1 = .ok parts →
      SignedAsRead sha256 cbcEncrypt cbcDecrypt signer.key r sid
        (Checked.read parts.flatten r.pathData r.payload.length)

/-- A frame that a machine makes, and what the server reads of it. -/
theorem frame_read {m : MachineState} {signer : Signer} (hsigner : m.signer = some signer)
    {r : Request} (hframed : r.Framed) (hrequired : signer.required r.opcode = true)
    (hseqno : signer.seqno + 1 < 2 ^ 64) {sid : Nat} {parts : List Bytes}
    (h : (m.frame r sid).1 = .ok parts) :
    Checked.read parts.flatten r.pathData r.payload.length =
      ⟨r.opcode, leavesOut signer r.opcode, signer.seqno + 1,
        m.env.sigverSign signer.key (signer.seqno + 1) (requestHead r sid) (takenBySigner r)
          (leavesOut signer r.opcode),
        requestHead r sid, r.payload ++ r.pathData⟩ := by
  rw [frame_signed hsigner hframed hrequired hseqno sid] at h
  cases hsigver : encode (sigverRequest r.opcode (signer.seqno + 1)
      (m.env.sigverSign signer.key (signer.seqno + 1) (requestHead r sid) (takenBySigner r)
        (leavesOut signer r.opcode)) (leavesOut signer r.opcode)) sid with
  | error e =>
      rw [hsigver] at h
      cases h
  | ok sigver =>
      rw [hsigver] at h
      obtain rfl := Except.ok.inj h
      rw [List.flatten_singleton]
      exact read_signed hframed hseqno hsigver

/-- What the signer covers is what the server reads, or the payload is left out, or
the uncounted bytes stand in for the data of the path. -/
theorem takenBySigner_eq_iff (r : Request) :
    takenBySigner r = r.payload ++ r.pathData ↔ r.pathData <+: r.trailer := by
  unfold takenBySigner
  rw [List.append_cancel_left_eq, List.prefix_iff_eq_take]
  exact eq_comm

/-- The bytes of the payload that are covered, either way. -/
theorem covered_eq {signer : Signer} {r : Request}
    (h : leavesOut signer r.opcode = true ∨ r.pathData <+: r.trailer) (seqno : Nat)
    (header : Bytes) :
    covered seqno header (takenBySigner r) (leavesOut signer r.opcode) =
      covered seqno header (r.payload ++ r.pathData) (leavesOut signer r.opcode) := by
  rcases h with hnodata | hbegins
  · simp [covered, hnodata]
  · rw [(takenBySigner_eq_iff r).mpr hbegins]

/-- Covering other bytes than the server reads can be told, by some hash. -/
theorem covered_ne {signer : Signer} {r : Request} (hdata : leavesOut signer r.opcode = false)
    (hbegins : ¬ r.pathData <+: r.trailer) (seqno : Nat) (header : Bytes) :
    covered seqno header (takenBySigner r) (leavesOut signer r.opcode) ≠
      covered seqno header (r.payload ++ r.pathData) (leavesOut signer r.opcode) := by
  intro h
  simp only [covered, hdata, Bool.false_eq_true, if_false, List.append_assoc,
    List.append_cancel_left_eq] at h
  exact hbegins ((takenBySigner_eq_iff r).mp h)

/-- A hash that tells one message from all others. -/
def telling (message : Bytes) (b : Bytes) : Bytes := if b = message then [] else [0]

/-- Where the signer covers other bytes, some hash shows it. -/
theorem not_signsWhatIsRead {signer : Signer} {r : Request} (hframed : r.Framed)
    (hrequired : signer.required r.opcode = true) (hseqno : signer.seqno + 1 < 2 ^ 64)
    (hdata : leavesOut signer r.opcode = false) (hbegins : ¬ r.pathData <+: r.trailer)
    (sid : Nat) : ¬ SignsWhatIsRead signer r sid := by
  intro h
  have hne := covered_ne hdata hbegins (signer.seqno + 1) (requestHead r sid)
  let sha256 := telling (covered (signer.seqno + 1) (requestHead r sid) (takenBySigner r)
    (leavesOut signer r.opcode))
  let m : MachineState :=
    { MachineState.bare .ready with
      signer := some signer
      env := { MachineState.bareEnv with sigverSign := sigverSign sha256 fun _ plain => plain } }
  have hsign : m.env.sigverSign signer.key (signer.seqno + 1) (requestHead r sid)
      (takenBySigner r) (leavesOut signer r.opcode) = [] := by
    simp [m, sigverSign, sigverHash, sha256, telling]
  have hparts : ∃ parts, (m.frame r sid).1 = .ok parts := by
    rw [frame_signed (m := m) rfl hframed hrequired hseqno sid, hsign]
    have hsigver : (sigverRequest r.opcode (signer.seqno + 1) []
        (leavesOut signer r.opcode)).Framed := by
      refine ⟨?_, ?_, ?_⟩
      · simp [sigverRequest]
      · simp [sigverRequest, MAX_FRAME_PAYLOAD]
      · show kXR_sigver < 0x10000
        decide
    obtain ⟨parts, hparts⟩ := encodeParts_framed hsigver sid
    exact ⟨_, by rw [encode, hparts]; rfl⟩
  obtain ⟨parts, hparts⟩ := hparts
  have hread := h sha256 (fun _ plain => plain) (fun _ b => some b) (fun _ _ => rfl) m rfl rfl
    parts hparts
  have hcovers := hread.covers
  rw [frame_read (m := m) rfl hframed hrequired hseqno hparts, hsign] at hcovers
  simp only [sha256, telling, hne.symm, if_false] at hcovers
  cases hcovers

/-- For every request that must be signed, whatever its class and its payload: what is
signed is what the server reads, and the server's check accepts it, exactly when the
payload travels unsigned, or none of it goes on a bound path (or what is streamed
behind the frame begins with what does). -/
theorem signed_as_read_iff {signer : Signer} {r : Request} (hframed : r.Framed)
    (hrequired : signer.required r.opcode = true) (hseqno : signer.seqno + 1 < 2 ^ 64)
    (sid : Nat) :
    SignsWhatIsRead signer r sid ↔
      leavesOut signer r.opcode = true ∨ r.pathData <+: r.trailer := by
  constructor
  · intro h
    by_cases hdata : leavesOut signer r.opcode = true
    · exact .inl hdata
    · refine .inr (not_not.mp fun hbegins => ?_)
      exact not_signsWhatIsRead hframed hrequired hseqno (by simpa using hdata) hbegins sid h
  · intro h sha256 cbcEncrypt cbcDecrypt hinverse m hsigner henv parts hparts
    rw [frame_read hsigner hframed hrequired hseqno hparts, henv]
    have hsame := covered_eq h (signer.seqno + 1) (requestHead r sid)
    refine ⟨rfl, rfl, rfl, ?_, ?_⟩
    · simp only [sigverSign, sigverHash, hsame]
    · simp only [sigverVerify, sigverSign, hinverse, sigverHash, hsame, decide_true]

/-- No request class of the library has data on a path and a trailer behind its frame. -/
theorem library_prefix_iff {i : Encoders.Instance} {r : Request} (h : i.hooks.request = some r) :
    r.pathData <+: r.trailer ↔ r.pathData = [] := by
  constructor
  · intro hbegins
    obtain ⟨cls, fields⟩ := i
    simp only [Encoders.Hooks.request, Encoders.Instance.hooks, Option.bind_eq_bind,
      Option.bind_eq_some_iff] at h
    obtain ⟨params, _, body, _, trailer, htrailer, data, hdata, opcode, _, rfl⟩ := h
    simp only at hbegins ⊢
    unfold Encoders.trailer at htrailer
    split at htrailer
    · obtain rfl := Option.some.inj hdata
      rfl
    · obtain rfl := Option.some.inj hdata
      rfl
    · cases htrailer
    · cases htrailer
    · obtain rfl := Option.some.inj htrailer
      exact List.prefix_nil.mp hbegins
  · intro hnil
    rw [hnil]
    exact List.nil_prefix

/-- A session signed at the standard level, by a server that wants data signed too. -/
def strictSigner : Signer where
  key := [1]
  level := 2
  overrides := []
  secodata := true

/-- A write with its data in the frame. -/
def plainWrite : Request := writeRequest [0, 0, 0, 1] 0 [7]

/-- The same write, its data on a bound path. -/
def pathWrite : Request :=
  { plainWrite with
    params := padded [0, 0, 0, 1] 4 ++ beBytes 8 0 ++ [1, 0, 0, 0]
    payload := [], pathid := 1, pathData := [7] }

theorem signed_as_read_iff_plain : SignsWhatIsRead strictSigner plainWrite 4 := by
  refine (signed_as_read_iff ⟨by decide, by decide, by decide⟩ (by decide) (by decide) 4).mpr ?_
  exact .inr (List.nil_prefix)

/-- The data on the path is not under the signature, and the server reads it. -/
theorem pathWrite_not_signed_as_read : ¬ SignsWhatIsRead strictSigner pathWrite 4 := by
  apply not_signsWhatIsRead ⟨by decide, by decide, by decide⟩ (by decide) (by decide) (by decide)
  decide

end XrdClient.Proto
