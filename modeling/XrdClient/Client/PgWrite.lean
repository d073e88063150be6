/-
  Client/PgWrite.lean --- a paged write, and the pages that arrive corrupt.

  Source: `client/_writing.py`, `pgwrite`, `_pgwrite_once` and `_pgwrite_retry`;
  `parse_pgwrite_cse` of `proto/responses.py`.  What `_invalidate` forgets at the end is
  left out.

  The server stores each page where it belongs, as it arrives, and says which of them did
  not match their CRC.  A `Noise` is what the wire makes of a payload on the way; a `Turn`
  is what one request meets, which the server may execute more than once, or execute
  without being heard of.
-/
import Mathlib
import XrdClient.Lib.Act
import XrdClient.Lib.Extent
import XrdClient.Crypto.Pages
import XrdClient.Proto.Wire

set_option autoImplicit false

namespace XrdClient.Client.PgWrite

open XrdClient.Lib
open XrdClient.Proto
open XrdClient.Crypto

/-! ## The code -/

def PGW_MAX_RETRY : Nat := 3

/-- What a paged write raises. -/
inductive Fault where
  /-- `struct.error`: the offset is past its field. -/
  | offset
  /-- `ProtocolError`: the frame is too long. -/
  | tooLong
  /-- Whatever the router raises. -/
  | router
  /-- `ProtocolError`: the trailer is not whole offsets. -/
  | trailer
  /-- `ProtocolError`: a page outside the write is reported. -/
  | outside (pageOffset : Int)
  /-- `PageIntegrityError`. -/
  | pageIntegrity (offset attempts : Nat)
  deriving DecidableEq

/-- `count` times `r.i64()`. -/
def i64s : Nat → Bytes → List Int
  | 0, _ => []
  | count + 1, data => signed 64 (beNat (data.take 8)) :: i64s count (data.drop 8)

/-- `parse_pgwrite_cse`. -/
def parsePgwriteCse (data : Bytes) : Except Fault (List Int) :=
  if data.length < PGW_CSE_HDRLEN ∨ (data.length - PGW_CSE_HDRLEN) % 8 ≠ 0 then .error .trailer
  else .ok (i64s ((data.length - PGW_CSE_HDRLEN) / 8) (data.drop PGW_CSE_HDRLEN))

/-- What a payload is on arrival: as long as it was. -/
structure Noise where
  carry : Bytes → Bytes
  length_carry : ∀ payload, (carry payload).length = payload.length

/-- What one request meets. -/
inductive Turn where
  /-- The server executes it, and answers for the last time that it did.  The trailer has
  a header, but may be left out if no page is in it. -/
  | answered (earlier : List Noise) (last : Noise) (header : Bytes) (length_header : header.length = PGW_CSE_HDRLEN)
      (quiet : Bool)
  /-- The router raises, and the server may have executed it. -/
  | raises (executed : List Noise)

/-- A `kXR_pgwrite` that went out. -/
structure Sent where
  offset : Nat
  payload : Bytes
  retry : Bool
  deriving DecidableEq

/-- The file, and what went out for it. -/
structure World where
  file : Bytes
  sent : List Sent := []
  deriving DecidableEq

section

variable (crc32c : Bytes → UInt32)

/-- The server stores each page that it receives. -/
def store (offset : Nat) (file received : Bytes) : Bytes :=
  writeAt 0 file offset ((slots offset received).map Prod.snd).flatten

/-- And reports the ones that do not match their CRC. -/
def reply (header : Bytes) (quiet : Bool) (corrupt : List Nat) : Bytes :=
  if quiet ∧ corrupt = [] then [] else header ++ corrupt.flatMap (beBytes 8)

/-- What the server is said to have found corrupt. -/
def Turn.reported (sent : Sent) : Turn → List Nat
  | .answered _ last _ _ _ => failing crc32c sent.offset (slots sent.offset (last.carry sent.payload))
  | .raises _ => []

variable (turn : Nat → Turn)

/-- `_submit`. -/
def submit (sent : Sent) : Act World Fault Bytes := fun w =>
  let arrive := fun (file : Bytes) (noise : Noise) => store sent.offset file (noise.carry sent.payload)
  match turn w.sent.length with
  | .answered earlier last header _ quiet =>
      (.ok (reply header quiet (failing crc32c sent.offset (slots sent.offset (last.carry sent.payload)))),
        ⟨arrive (earlier.foldl arrive w.file) last, w.sent ++ [sent]⟩)
  | .raises executed => (.error .router, ⟨executed.foldl arrive w.file, w.sent ++ [sent]⟩)

/-- `_pgwrite_once`. -/
def pgwriteOnce (data : Bytes) (offset : Nat) (retry : Bool) : Act World Fault (List Int) :=
  let payload := packPages crc32c data offset
  if 2 ^ 63 ≤ offset then Act.throw .offset
  else if MAX_FRAME_PAYLOAD < payload.length then Act.throw .tooLong
  else do
    let result ← submit crc32c turn ⟨offset, payload, retry⟩
    if result = [] then pure [] else Act.ofExcept (parsePgwriteCse result)

/-- The loop of `_pgwrite_retry`. -/
def resend (page : Bytes) (pageOffset : Nat) : Nat → Act World Fault Unit
  | 0 => Act.throw (.pageIntegrity pageOffset PGW_MAX_RETRY)
  | left + 1 => do
      let corrupt ← pgwriteOnce crc32c turn page pageOffset true
      if corrupt = [] then pure () else resend page pageOffset left

/-- `_pgwrite_retry`. -/
def pgwriteRetry (data : Bytes) (base : Nat) (pageOffset : Int) : Act World Fault Unit :=
  let start := pageOffset - base
  if ¬ (0 ≤ start ∧ start < data.length) then Act.throw (.outside pageOffset)
  else
    let page := slice data start.toNat (pageSpan pageOffset.toNat (data.length - start.toNat))
    resend crc32c turn page pageOffset.toNat PGW_MAX_RETRY

/-- The loop of `pgwrite`. -/
def retryAll (data : Bytes) (base : Nat) : List Int → Act World Fault Unit
  | [] => pure ()
  | pageOffset :: rest => do
      pgwriteRetry crc32c turn data base pageOffset
      retryAll data base rest

/-- `pgwrite`. -/
def pgwrite (data : Bytes) (offset : Nat) : Act World Fault Nat :=
  if data = [] then pure 0
  else do
    let corrupt ← pgwriteOnce crc32c turn data offset false
    retryAll crc32c turn data offset corrupt
    return data.length

end

/-! ## What the server says -/

section

variable {crc32c : Bytes → UInt32} {turn : Nat → Turn}

/-- An offset as it comes back in a trailer. -/
def asked (p : Nat) : Int := signed 64 (beNat (beBytes 8 p))

theorem asked_of_nonneg {p : Nat} (h : p < 2 ^ 64) (hpos : 0 ≤ asked p) : asked p = p := by
  have hread : beNat (beBytes 8 p) = p := beNat_beBytes 8 p (by simpa using h)
  rw [asked, hread] at hpos ⊢
  unfold signed at hpos ⊢
  split
  · rfl
  · split at hpos
    · contradiction
    · omega

theorem i64s_offsets (corrupt : List Nat) :
    i64s corrupt.length (corrupt.flatMap (beBytes 8)) = corrupt.map asked := by
  induction corrupt with
  | nil => rfl
  | cons p corrupt ih =>
    have hlen := length_beBytes 8 p
    rw [List.flatMap_cons, List.length_cons, i64s, List.take_left' hlen, List.drop_left' hlen, ih]
    rfl

/-- A trailer says what it was made of. -/
theorem parsePgwriteCse_reply {header : Bytes} (hheader : header.length = PGW_CSE_HDRLEN) (corrupt : List Nat) :
    parsePgwriteCse (header ++ corrupt.flatMap (beBytes 8)) = .ok (corrupt.map asked) := by
  have hlen : (corrupt.flatMap (beBytes 8)).length = 8 * corrupt.length := by
    induction corrupt with
    | nil => rfl
    | cons p corrupt ih =>
      rw [List.flatMap_cons, List.length_append, length_beBytes, ih, List.length_cons]
      omega
  have hbody : (header ++ corrupt.flatMap (beBytes 8)).length - PGW_CSE_HDRLEN = 8 * corrupt.length := by
    rw [List.length_append, hheader, hlen, Nat.add_sub_cancel_left]
  unfold parsePgwriteCse
  rw [if_neg ?_, hbody, Nat.mul_div_cancel_left _ (by decide), List.drop_left' hheader, i64s_offsets]
  rw [hbody, Nat.mul_mod_right, List.length_append, hheader]
  simp

theorem reply_read {header : Bytes} (hheader : header.length = PGW_CSE_HDRLEN) (quiet : Bool)
    (corrupt : List Nat) (w : World) :
    (if reply header quiet corrupt = [] then pure []
      else Act.ofExcept (parsePgwriteCse (reply header quiet corrupt)) : Act World Fault (List Int)) w =
      (.ok (corrupt.map asked), w) := by
  have hsome : header ++ corrupt.flatMap (beBytes 8) ≠ [] := by
    refine List.ne_nil_of_length_pos ?_
    rw [List.length_append, hheader, PGW_CSE_HDRLEN]
    omega
  by_cases h : quiet = true ∧ corrupt = []
  · rw [reply, if_pos h, if_pos rfl, h.2]
    rfl
  · rw [reply, if_neg h, if_neg hsome, parsePgwriteCse_reply hheader]
    rfl

/-! ## What arrives -/

/-- What the server makes of a payload. -/
def received (sent : Sent) (noise : Noise) : List Slot := slots sent.offset (noise.carry sent.payload)

theorem received_shape (crc32c : Bytes → UInt32) (data : Bytes) (offset : Nat) (retry : Bool) (noise : Noise) :
    (received ⟨offset, packPages crc32c data offset, retry⟩ noise).map (fun slot => slot.2.length) =
      (pages offset data).map List.length := by
  have hlen := noise.length_carry (packPages crc32c data offset)
  have hshape := slotsFrom_shape (noise.carry (packPages crc32c data offset)).length (firstHead offset) _ _ hlen
  have hslots : slotsFrom (noise.carry (packPages crc32c data offset)).length (firstHead offset)
      (packPages crc32c data offset) = (pages offset data).map (sealed crc32c) := by
    rw [hlen]
    exact slots_packPages crc32c data offset
  rw [hslots] at hshape
  have hsnd := congrArg (List.map Prod.snd) hshape
  rw [List.map_map, List.map_map, List.map_map] at hsnd
  exact hsnd

/-- As many bytes as were sent. -/
theorem length_received (crc32c : Bytes → UInt32) (data : Bytes) (offset : Nat) (retry : Bool) (noise : Noise) :
    ((received ⟨offset, packPages crc32c data offset, retry⟩ noise).map Prod.snd).flatten.length = data.length := by
  have hshape := received_shape crc32c data offset retry noise
  rw [List.length_flatten, List.map_map]
  refine (congrArg List.sum hshape).trans ?_
  rw [← List.length_flatten, flatten_pages]

/-- What the server executed before does not show behind the last time. -/
theorem store_last (file data : Bytes) (offset : Nat) (retry : Bool) (earlier : List Noise) (last : Noise) :
    store offset (earlier.foldl (fun file noise => store offset file (noise.carry (packPages crc32c data offset))) file)
        (last.carry (packPages crc32c data offset)) =
      store offset file (last.carry (packPages crc32c data offset)) := by
  induction earlier generalizing file with
  | nil => rfl
  | cons noise earlier ih =>
    rw [List.foldl_cons, ih, store, store, store]
    refine writeAt_writeAt 0 file offset ?_
    have hfirst := length_received crc32c data offset retry noise
    have hlast := length_received crc32c data offset retry last
    exact hfirst.trans hlast.symm

/-- **What one request comes to.**  It does not go out; or it goes out, and either the
router raises, or the server has stored what arrived and says what of it was corrupt. -/
theorem pgwriteOnce_cases (crc32c : Bytes → UInt32) (turn : Nat → Turn) (data : Bytes) (offset : Nat)
    (retry : Bool) (w : World) :
    let sent : Sent := ⟨offset, packPages crc32c data offset, retry⟩
    (∃ e, (e = .offset ∨ e = .tooLong) ∧ pgwriteOnce crc32c turn data offset retry w = (.error e, w)) ∨
      (∃ file, pgwriteOnce crc32c turn data offset retry w = (.error .router, ⟨file, w.sent ++ [sent]⟩)) ∨
      ∃ earlier last header hheader quiet, turn w.sent.length = .answered earlier last header hheader quiet ∧
        offset + data.length < 2 ^ 64 ∧
        pgwriteOnce crc32c turn data offset retry w =
          (.ok ((failing crc32c offset (received sent last)).map asked),
            ⟨writeAt 0 w.file offset ((received sent last).map Prod.snd).flatten, w.sent ++ [sent]⟩) := by
  intro sent
  unfold pgwriteOnce
  by_cases hoffset : 2 ^ 63 ≤ offset
  · exact .inl ⟨_, .inl rfl, by rw [if_pos hoffset]; rfl⟩
  by_cases hlong : MAX_FRAME_PAYLOAD < (packPages crc32c data offset).length
  · exact .inl ⟨_, .inr rfl, by simp only [if_neg hoffset, if_pos hlong]; rfl⟩
  refine .inr ?_
  simp only [if_neg hoffset, if_neg hlong]
  cases hturn : turn w.sent.length with
  | raises executed =>
    have hsubmit : ∃ file, submit crc32c turn sent w = (.error .router, ⟨file, w.sent ++ [sent]⟩) := by
      rw [submit, hturn]
      exact ⟨_, rfl⟩
    obtain ⟨file, hsubmit⟩ := hsubmit
    exact .inl ⟨file, Act.bind_of_error hsubmit _⟩
  | answered earlier last header hheader quiet =>
    refine .inr ⟨earlier, last, header, hheader, quiet, rfl, ?_, ?_⟩
    · rw [length_packPages, MAX_FRAME_PAYLOAD] at hlong
      omega
    · have hsubmit : submit crc32c turn sent w =
          (.ok (reply header quiet (failing crc32c offset (received sent last))),
            ⟨writeAt 0 w.file offset ((received sent last).map Prod.snd).flatten, w.sent ++ [sent]⟩) := by
        rw [submit, hturn]
        simp only [sent, store_last w.file data offset retry earlier last]
        rfl
      rw [Act.bind_of_ok hsubmit, reply_read hheader]

/-! ## What is resent -/

/-- What the data have at a page, as far as its cell reaches. -/
def pageAt (data : Bytes) (base p : Nat) : Bytes := slice data (p - base) (pageSpan p (data.length - (p - base)))

/-- The request that resends a page. -/
def resent (crc32c : Bytes → UInt32) (data : Bytes) (base p : Nat) : Sent :=
  ⟨p, packPages crc32c (pageAt data base p) p, true⟩

theorem resend_sent (crc32c : Bytes → UInt32) (turn : Nat → Turn) (page : Bytes) (p left : Nat) (w : World) :
    ∃ n, n ≤ left ∧ (resend crc32c turn page p left w).2.sent =
        w.sent ++ List.replicate n ⟨p, packPages crc32c page p, true⟩ ∧
      ((resend crc32c turn page p left w).1 = .ok () → 0 < n) ∧
      ∀ q m, (resend crc32c turn page p left w).1 = .error (.pageIntegrity q m) →
        q = p ∧ m = PGW_MAX_RETRY ∧ n = left := by
  induction left generalizing w with
  | zero =>
    refine ⟨0, Nat.le_refl _, by simp [resend, Act.throw], nofun, fun q m h => ?_⟩
    cases h
    exact ⟨rfl, rfl, rfl⟩
  | succ left ih =>
    rw [resend]
    rcases pgwriteOnce_cases crc32c turn page p true w with
      ⟨e, he, hout⟩ | ⟨file, hout⟩ | ⟨_, last, _, _, _, _, _, hout⟩
    · rw [Act.bind_of_error hout]
      refine ⟨0, Nat.zero_le _, by simp, nofun, fun q m h => ?_⟩
      rcases he with rfl | rfl <;> cases h
    · rw [Act.bind_of_error hout]
      exact ⟨1, Nat.succ_pos _, rfl, nofun, nofun⟩
    · rw [Act.bind_of_ok hout]
      split
      · exact ⟨1, Nat.succ_pos _, rfl, fun _ => Nat.one_pos, nofun⟩
      · obtain ⟨n, hn, hsent, _, herr⟩ := ih _
        refine ⟨n + 1, Nat.succ_le_succ hn, ?_, fun _ => Nat.succ_pos _, fun q m h => ?_⟩
        · rw [hsent, List.append_assoc]
          rfl
        · obtain ⟨hq, hm, hleft⟩ := herr q m h
          exact ⟨hq, hm, congrArg (· + 1) hleft⟩

/-- A page is resent as the data have it, or refused. -/
theorem pgwriteRetry_eq {data : Bytes} {base p : Nat} (hp : p < 2 ^ 64) :
    pgwriteRetry crc32c turn data base (asked p) =
      if base ≤ p ∧ p < base + data.length ∧ asked p = p then
        resend crc32c turn (pageAt data base p) p PGW_MAX_RETRY
      else Act.throw (.outside (asked p)) := by
  unfold pgwriteRetry
  by_cases hin : base ≤ p ∧ p < base + data.length ∧ asked p = p
  · obtain ⟨hlow, hhigh, hasked⟩ := hin
    have hstart : ((p : Int) - base).toNat = p - base := by omega
    have hrange : 0 ≤ (p : Int) - base ∧ (p : Int) - base < data.length := by omega
    rw [hasked, if_neg (not_not_intro hrange), if_pos ⟨hlow, hhigh, rfl⟩, hstart]
    rfl
  · rw [if_neg hin]
    refine if_pos ?_
    rintro ⟨hlow, hhigh⟩
    have hasked := asked_of_nonneg hp (by omega)
    rw [hasked] at hlow hhigh
    exact hin ⟨by omega, by omega, hasked⟩

/-- What the loop over some reported pages sends. -/
structure Resends (crc32c : Bytes → UInt32) (data : Bytes) (base : Nat) (corrupt : List Nat)
    (result : Except Fault Unit) (sent : List Sent) : Prop where
  each : ∀ s ∈ sent, ∃ p ∈ corrupt, s = resent crc32c data base p
  atMost : ∀ p, sent.countP (·.offset = p) ≤ PGW_MAX_RETRY
  all : result = .ok () → ∀ p ∈ corrupt, resent crc32c data base p ∈ sent
  exhausted : ∀ p m, result = .error (.pageIntegrity p m) →
    m = PGW_MAX_RETRY ∧ sent.countP (·.offset = p) = PGW_MAX_RETRY

theorem retryAll_sent (crc32c : Bytes → UInt32) (turn : Nat → Turn) (data : Bytes) (base : Nat)
    {corrupt : List Nat} (hnodup : corrupt.Nodup) (hlt : ∀ p ∈ corrupt, p < 2 ^ 64) (w : World) :
    ∃ sent, (retryAll crc32c turn data base (corrupt.map asked) w).2.sent = w.sent ++ sent ∧
      Resends crc32c data base corrupt (retryAll crc32c turn data base (corrupt.map asked) w).1 sent := by
  induction corrupt generalizing w with
  | nil => exact ⟨[], (List.append_nil _).symm, nofun, fun _ => Nat.zero_le _, fun _ => nofun, nofun⟩
  | cons p corrupt ih =>
    obtain ⟨hp, hnodup⟩ := List.nodup_cons.mp hnodup
    obtain ⟨hplt, hlt⟩ := List.forall_mem_cons.mp hlt
    rw [List.map_cons, retryAll, pgwriteRetry_eq hplt]
    by_cases hin : base ≤ p ∧ p < base + data.length ∧ asked p = p
    · rw [if_pos hin]
      obtain ⟨n, hn, hsent, hsome, herr⟩ :=
        resend_sent crc32c turn (pageAt data base p) p PGW_MAX_RETRY w
      -- the requests for this page, told from those for any other
      have hcount : ∀ q, (List.replicate n (resent crc32c data base p)).countP (·.offset = q) =
          if p = q then n else 0 := by
        intro q
        rw [List.countP_replicate]
        change (if decide (p = q) = true then n else 0) = _
        simp only [decide_eq_true_eq]
      rcases hout : resend crc32c turn (pageAt data base p) p PGW_MAX_RETRY w with ⟨e | ⟨⟩, w₁⟩
      · rw [Act.bind_of_error hout]
        rw [hout] at hsent herr
        refine ⟨_, hsent, fun s hs => ⟨p, List.mem_cons_self, List.eq_of_mem_replicate hs⟩, fun q => ?_, nofun,
          fun q m h => ?_⟩
        · refine Nat.le_trans (Nat.le_of_eq (hcount q)) ?_
          split
          · exact hn
          · exact Nat.zero_le _
        · obtain ⟨rfl, hm, rfl⟩ := herr q m (by cases h; rfl)
          exact ⟨hm, (hcount q).trans (if_pos rfl)⟩
      · rw [Act.bind_of_ok hout]
        rw [hout] at hsent hsome
        obtain ⟨more, hmore, h⟩ := ih hnodup hlt w₁
        have hnone : more.countP (·.offset = p) = 0 := by
          refine List.countP_eq_zero.mpr fun s hs => ?_
          obtain ⟨q, hq, rfl⟩ := h.each s hs
          intro heq
          exact hp (of_decide_eq_true heq ▸ hq)
        refine ⟨List.replicate n (resent crc32c data base p) ++ more, ?_, ?_, fun q => ?_, fun hok => ?_,
          fun q m hraise => ?_⟩
        · rw [hmore, hsent, List.append_assoc]
          rfl
        · intro s hs
          rcases List.mem_append.mp hs with hs | hs
          · exact ⟨p, List.mem_cons_self, List.eq_of_mem_replicate hs⟩
          · obtain ⟨q, hq, hsq⟩ := h.each s hs
            exact ⟨q, List.mem_cons_of_mem _ hq, hsq⟩
        · rw [List.countP_append, hcount]
          split
          · next heq =>
            subst heq
            rw [hnone]
            exact hn
          · rw [Nat.zero_add]
            exact h.atMost q
        · refine List.forall_mem_cons.mpr ⟨?_, fun q hq => ?_⟩
          · exact List.mem_append_left _ (List.mem_replicate.mpr ⟨Nat.pos_iff_ne_zero.mp (hsome rfl), rfl⟩)
          · exact List.mem_append_right _ (h.all hok q hq)
        · obtain ⟨hm, hcounted⟩ := h.exhausted q m hraise
          refine ⟨hm, ?_⟩
          rw [List.countP_append, hcount, hcounted, if_neg, Nat.zero_add]
          rintro rfl
          rw [hnone] at hcounted
          exact absurd hcounted (by decide)
    · rw [if_neg hin]
      exact ⟨[], (List.append_nil _).symm, nofun, fun _ => Nat.zero_le _, nofun, nofun⟩

/-! ## What is stored -/

/-- No page arrives changed with a CRC that it matches. -/
def Turn.Shown (crc32c : Bytes → UInt32) (sent : Sent) : Turn → Prop
  | .answered _ last _ _ _ => ∀ (j : Nat) (slot : Slot), (received sent last)[j]? = some slot → Holds crc32c slot →
      ((slots sent.offset sent.payload)[j]?).map Prod.snd = some slot.2
  | .raises _ => True

/-- A slot that arrived for a page. -/
def Arrived (crc32c : Bytes → UInt32) (slot : Slot) (page : Bytes) : Prop :=
  slot.2.length = page.length ∧ (Holds crc32c slot → slot.2 = page)

theorem arrived {data : Bytes} {offset : Nat} {retry : Bool} {earlier : List Noise} {last : Noise} {header : Bytes}
    {hheader : header.length = PGW_CSE_HDRLEN} {quiet : Bool}
    (h : (Turn.answered earlier last header hheader quiet).Shown crc32c
      ⟨offset, packPages crc32c data offset, retry⟩) :
    List.Forall₂ (Arrived crc32c) (received ⟨offset, packPages crc32c data offset, retry⟩ last)
      (pages offset data) := by
  have hshape := received_shape crc32c data offset retry last
  have hlen := congrArg List.length hshape
  rw [List.length_map, List.length_map] at hlen
  refine List.forall₂_iff_get.mpr ⟨hlen, fun j h₁ h₂ => ?_⟩
  constructor
  · have hj := congrArg (fun lengths => lengths[j]?) hshape
    simp only [List.getElem?_map, List.getElem?_eq_getElem h₁, List.getElem?_eq_getElem h₂, Option.map_some,
      Option.some.injEq] at hj
    exact hj
  · intro hholds
    have hj := h j _ (List.getElem?_eq_getElem h₁) hholds
    dsimp only at hj
    rw [slots_packPages, ← List.getElem?_map, sealed_snd, List.getElem?_eq_getElem h₂, Option.some.injEq] at hj
    exact hj.symm

/-- Writing the failed pages again, over what arrived, leaves what was sent. -/
theorem patched {file : Bytes} {offset : Nat} {page : Nat → Bytes} {ss : List Slot} {ps : List Bytes}
    (h : List.Forall₂ (Arrived crc32c) ss ps) (done : Bytes)
    (hpage : ∀ before p after, ps = before ++ p :: after → page (offset + done.length + before.flatten.length) = p) :
    (failing crc32c (offset + done.length) ss).foldl (fun file p => writeAt 0 file p (page p))
        (writeAt 0 file offset (done ++ (ss.map Prod.snd).flatten)) =
      writeAt 0 file offset (done ++ ps.flatten) := by
  induction h generalizing done with
  | nil => rfl
  | @cons slot p ss ps hslot _ ih =>
    obtain ⟨hlen, hsame⟩ := hslot
    have hstart : offset + done.length + p.length = offset + (done ++ p).length := by
      rw [List.length_append, Nat.add_assoc]
    -- once this page is as it was sent, it is a part of what is done
    have hrest : (failing crc32c (offset + done.length + slot.2.length) ss).foldl
        (fun file p => writeAt 0 file p (page p))
        (writeAt 0 file offset (done ++ (p ++ (ss.map Prod.snd).flatten))) =
        writeAt 0 file offset (done ++ (p :: ps).flatten) := by
      rw [hlen, hstart, ← List.append_assoc, ih (done ++ p) fun before q after hps => ?_, List.flatten_cons,
        List.append_assoc]
      have hbefore := hpage (p :: before) q after (by rw [hps]; rfl)
      rwa [List.flatten_cons, List.length_append, ← Nat.add_assoc, hstart] at hbefore
    rw [failing, List.map_cons, List.flatten_cons]
    by_cases hholds : Holds crc32c slot
    · rw [if_pos hholds, hsame hholds]
      rw [hsame hholds] at hrest
      exact hrest
    · have hfirst := hpage [] p ps rfl
      rw [List.flatten_nil, List.length_nil, Nat.add_zero] at hfirst
      rw [if_neg hholds, List.foldl_cons, hfirst, writeAt_within 0 file offset done _ hlen]
      exact hrest

/-- Every request that this run sent is as `Shown` has it. -/
def AllShown (crc32c : Bytes → UInt32) (turn : Nat → Turn) (first : Nat) (w : World) : Prop :=
  ∀ i sent, first ≤ i → w.sent[i]? = some sent → (turn i).Shown crc32c sent

theorem AllShown.mono {first later : Nat} {w : World} (h : AllShown crc32c turn first w) (hle : first ≤ later) :
    AllShown crc32c turn later w :=
  fun i sent hi => h i sent (Nat.le_trans hle hi)

/-- What is so of the whole run is so of a run that it continues. -/
theorem AllShown.earlier {first : Nat} {w w' : World} {more : List Sent} (h : AllShown crc32c turn first w')
    (hsent : w'.sent = w.sent ++ more) : AllShown crc32c turn first w := by
  intro i sent hi hget
  obtain ⟨hlt, -⟩ := List.getElem?_eq_some_iff.mp hget
  exact h i sent hi (by rw [hsent, List.getElem?_append_left hlt, hget])

/-- A page that is resent until it is taken is stored. -/
theorem resend_file {page : Bytes} {p : Nat} (hpage : pages p page = [page]) {left : Nat} {w w' : World}
    (h : resend crc32c turn page p left w = (.ok (), w')) (hshown : AllShown crc32c turn w.sent.length w') :
    w'.file = writeAt 0 w.file p page := by
  induction left generalizing w with
  | zero => cases h
  | succ left ih =>
    rw [resend] at h
    rcases pgwriteOnce_cases crc32c turn page p true w with
      ⟨e, _, hout⟩ | ⟨file, hout⟩ | ⟨_, last, _, _, _, hturn, _, hout⟩
    · rw [Act.bind_of_error hout] at h
      cases h
    · rw [Act.bind_of_error hout] at h
      cases h
    · rw [Act.bind_of_ok hout] at h
      have hlen := length_received crc32c page p true last
      split at h
      · next hclean =>
        obtain rfl : (⟨_, _⟩ : World) = w' := congrArg Prod.snd h
        have hfirst := hshown _ _ (Nat.le_refl _) List.getElem?_concat_length
        rw [hturn] at hfirst
        have harrived := arrived hfirst
        rw [hpage] at harrived
        have hholds := failing_eq_nil.mp (List.map_eq_nil_iff.mp hclean)
        generalize received _ last = ss at harrived hholds ⊢
        cases harrived with
        | cons hslot hnone =>
          cases hnone with
          | nil =>
            have hsame := hslot.2 (hholds _ List.mem_cons_self)
            simp [hsame]
      · rw [ih h (hshown.mono (by simp)), writeAt_writeAt 0 w.file p hlen]

/-- Reported pages that are all taken in the end are stored as the data have them. -/
theorem retryAll_file {data : Bytes} {base : Nat} {corrupt : List Nat} (hnodup : corrupt.Nodup)
    (hlt : ∀ p ∈ corrupt, p < 2 ^ 64)
    (hpages : ∀ p ∈ corrupt, pages p (pageAt data base p) = [pageAt data base p]) {w w' : World}
    (h : retryAll crc32c turn data base (corrupt.map asked) w = (.ok (), w'))
    (hshown : AllShown crc32c turn w.sent.length w') :
    w'.file = corrupt.foldl (fun file p => writeAt 0 file p (pageAt data base p)) w.file := by
  induction corrupt generalizing w with
  | nil =>
    cases h
    rfl
  | cons p corrupt ih =>
    obtain ⟨hp, hpages⟩ := List.forall_mem_cons.mp hpages
    obtain ⟨hplt, hlt⟩ := List.forall_mem_cons.mp hlt
    rw [List.map_cons, retryAll, pgwriteRetry_eq hplt] at h
    split at h
    · rcases hout : resend crc32c turn (pageAt data base p) p PGW_MAX_RETRY w with ⟨e | ⟨⟩, w₁⟩
      · rw [Act.bind_of_error hout] at h
        cases h
      · rw [Act.bind_of_ok hout] at h
        obtain ⟨n, -, hsent, -⟩ := resend_sent crc32c turn (pageAt data base p) p
          PGW_MAX_RETRY w
        obtain ⟨more, hmore, -⟩ := retryAll_sent crc32c turn data base
          (List.nodup_cons.mp hnodup).2 hlt w₁
        rw [hout] at hsent
        rw [h] at hmore
        have hle : w.sent.length ≤ w₁.sent.length := by
          rw [hsent, List.length_append]
          exact Nat.le_add_right _ _
        rw [ih (List.nodup_cons.mp hnodup).2 hlt hpages h (hshown.mono hle), List.foldl_cons,
          resend_file hp hout (hshown.earlier hmore)]
    · cases h

/-! ## The whole write -/

/-- What a paged write comes to, from `w`, that sent `sent`. -/
structure PagedWrite (crc32c : Bytes → UInt32) (turn : Nat → Turn) (data : Bytes) (offset : Nat) (w : World)
    (sent : List Sent) (result : Except Fault Nat) (w' : World) : Prop where
  log : w'.sent = w.sent ++ sent
  first : ∀ s ∈ sent.head?, s = ⟨offset, packPages crc32c data offset, false⟩
  /-- Behind the first request, each one carries a page that was reported. -/
  resends : ∀ s ∈ sent.tail, s.retry = true ∧
    s.offset ∈ (turn w.sent.length).reported crc32c ⟨offset, packPages crc32c data offset, false⟩ ∧
    ∃ before page after, pages offset data = before ++ page :: after ∧
      s.offset = offset + before.flatten.length ∧ s.payload = packPages crc32c page s.offset
  atMost : ∀ p, sent.tail.countP (·.offset = p) ≤ PGW_MAX_RETRY
  exhausted : ∀ p attempts, result = .error (.pageIntegrity p attempts) →
    attempts = PGW_MAX_RETRY ∧ sent.tail.countP (·.offset = p) = PGW_MAX_RETRY
  taken : ∀ n, result = .ok n → data ≠ [] →
    ∀ p ∈ (turn w.sent.length).reported crc32c ⟨offset, packPages crc32c data offset, false⟩,
      ∃ s ∈ sent.tail, s.offset = p
  stored : ∀ n, result = .ok n → n = data.length ∧
    (AllShown crc32c turn w.sent.length w' → w'.file = writeAt 0 w.file offset data)

/-- What is reported of a write are pages of its data. -/
theorem reported_page {data : Bytes} {offset p : Nat} {last : Noise}
    (h : p ∈ failing crc32c offset (received ⟨offset, packPages crc32c data offset, false⟩ last)) :
    ∃ before page after, pages offset data = before ++ page :: after ∧ p = offset + before.flatten.length := by
  obtain ⟨front, slot, back, heq, rfl⟩ := mem_failing h
  have hshape := received_shape crc32c data offset false last
  rw [heq, List.map_append, List.map_cons] at hshape
  obtain ⟨before, rest, hpages, hfront, hrest⟩ := List.append_eq_map_iff.mp hshape
  obtain ⟨page, after, rfl, -, -⟩ := List.map_eq_cons_iff.mp hrest
  refine ⟨before, page, after, hpages, ?_⟩
  rw [List.length_flatten, List.map_map, List.length_flatten, hfront]
  rfl

theorem reported_lt {data : Bytes} {offset p : Nat} {last : Noise} (hlong : offset + data.length < 2 ^ 64)
    (h : p ∈ failing crc32c offset (received ⟨offset, packPages crc32c data offset, false⟩ last)) : p < 2 ^ 64 := by
  obtain ⟨before, page, after, hpages, rfl⟩ := reported_page h
  have hlen := congrArg List.length (flatten_pages offset data)
  rw [hpages, List.flatten_append, List.length_append] at hlen
  omega

/-- No page is reported twice. -/
theorem reported_nodup (crc32c : Bytes → UInt32) (data : Bytes) (offset : Nat) (last : Noise) :
    (failing crc32c offset (received ⟨offset, packPages crc32c data offset, false⟩ last)).Nodup := by
  refine (failing_sorted fun slot hslot hnil => ?_).1.imp Nat.ne_of_lt
  have hshape := received_shape crc32c data offset false last
  have hmem : slot.2.length ∈ (pages offset data).map List.length := hshape ▸ List.mem_map_of_mem hslot
  obtain ⟨page, hpage, hlen⟩ := List.mem_map.mp hmem
  rw [hnil, List.length_nil] at hlen
  exact (gridded_pages offset data).ne_nil page hpage (List.eq_nil_of_length_eq_zero hlen)

/-- The data at a page of theirs. -/
theorem pageAt_page {data page : Bytes} {offset : Nat} {before after : List Bytes}
    (h : pages offset data = before ++ page :: after) :
    pageAt data offset (offset + before.flatten.length) = page := by
  rw [pageAt, Nat.add_sub_cancel_left]
  exact slice_page h

/-- The loop over what was reported of a write, once it is done, leaves the data. -/
theorem retryAll_stored {data : Bytes} {offset : Nat} {earlier : List Noise} {last : Noise} {header : Bytes}
    {hheader : header.length = PGW_CSE_HDRLEN} {quiet : Bool} {file : Bytes} {w w' : World}
    (hlong : offset + data.length < 2 ^ 64)
    (hfirst : (Turn.answered earlier last header hheader quiet).Shown crc32c
      ⟨offset, packPages crc32c data offset, false⟩)
    (hfile : w.file =
      writeAt 0 file offset ((received ⟨offset, packPages crc32c data offset, false⟩ last).map Prod.snd).flatten)
    (h : retryAll crc32c turn data offset
      ((failing crc32c offset (received ⟨offset, packPages crc32c data offset, false⟩ last)).map asked) w = (.ok (), w'))
    (hshown : AllShown crc32c turn w.sent.length w') : w'.file = writeAt 0 file offset data := by
  have hpages : ∀ p ∈ failing crc32c offset (received ⟨offset, packPages crc32c data offset, false⟩ last),
      pages p (pageAt data offset p) = [pageAt data offset p] := by
    intro p hp
    obtain ⟨before, page, after, hpages, rfl⟩ := reported_page hp
    rw [pageAt_page hpages]
    exact pages_page hpages
  have hpatched := @patched crc32c file _ _ _ _ (arrived hfirst) [] fun before page after hps => by
    rw [List.length_nil, Nat.add_zero]
    exact pageAt_page hps
  rw [flatten_pages, List.nil_append, List.nil_append, List.length_nil, Nat.add_zero] at hpatched
  rw [retryAll_file (reported_nodup crc32c data offset last) (fun p hp => reported_lt hlong hp) hpages h hshown, hfile,
    hpatched]

/-- **A paged write leaves no page corrupt that its CRC shows to be.**  For every data,
offset and server: if it returns, the file holds the data at the offset, unless some page
arrived changed and with a CRC that it matches; each request behind the first carries a
page of the data that was reported; and none is sent more than `PGW_MAX_RETRY` times, all
of which `PageIntegrityError` takes. -/
theorem pgwrite_spec (crc32c : Bytes → UInt32) (turn : Nat → Turn) (data : Bytes) (offset : Nat) (w : World) :
    ∃ sent, PagedWrite crc32c turn data offset w sent (pgwrite crc32c turn data offset w).1
      (pgwrite crc32c turn data offset w).2 := by
  unfold pgwrite
  by_cases hdata : data = []
  · subst hdata
    rw [if_pos rfl]
    refine ⟨[], (List.append_nil _).symm, nofun, nofun, fun _ => Nat.zero_le _, nofun, fun _ _ h => absurd rfl h, ?_⟩
    intro n h
    cases h
    exact ⟨rfl, fun _ => rfl⟩
  rw [if_neg hdata]
  rcases pgwriteOnce_cases crc32c turn data offset false w with
    ⟨e, he, hout⟩ | ⟨file, hout⟩ | ⟨_, last, _, _, _, hturn, hlong, hout⟩
  · rw [Act.bind_of_error hout]
    refine ⟨[], (List.append_nil _).symm, nofun, nofun, fun _ => Nat.zero_le _, fun p m h => ?_, nofun, nofun⟩
    rcases he with rfl | rfl <;> cases h
  · rw [Act.bind_of_error hout]
    refine ⟨[_], rfl, fun s hs => (Option.some.inj hs).symm, nofun, fun _ => Nat.zero_le _, nofun, nofun, nofun⟩
  -- the server has answered: what follows is the loop over what it reported
  obtain ⟨w₁, hw₁⟩ : ∃ w₁ : World, (⟨writeAt 0 w.file offset
    ((received ⟨offset, packPages crc32c data offset, false⟩ last).map Prod.snd).flatten,
      w.sent ++ [⟨offset, packPages crc32c data offset, false⟩]⟩ : World) = w₁ := ⟨_, rfl⟩
  rw [Act.bind_of_ok hout, hw₁]
  have hreported : (turn w.sent.length).reported crc32c ⟨offset, packPages crc32c data offset, false⟩ =
      failing crc32c offset (received ⟨offset, packPages crc32c data offset, false⟩ last) := by
    rw [hturn]
    rfl
  obtain ⟨more, hmore, h⟩ := retryAll_sent crc32c turn data offset (reported_nodup crc32c data offset last)
    (fun p hp => reported_lt hlong hp) w₁
  have hresends : ∀ s ∈ more, s.retry = true ∧
      s.offset ∈ failing crc32c offset (received ⟨offset, packPages crc32c data offset, false⟩ last) ∧
      ∃ before page after, pages offset data = before ++ page :: after ∧
        s.offset = offset + before.flatten.length ∧ s.payload = packPages crc32c page s.offset := by
    intro s hs
    obtain ⟨p, hp, rfl⟩ := h.each s hs
    obtain ⟨before, page, after, hpages, rfl⟩ := reported_page hp
    refine ⟨rfl, hp, before, page, after, hpages, rfl, ?_⟩
    rw [resent, pageAt_page hpages]
  refine ⟨⟨offset, packPages crc32c data offset, false⟩ :: more, ?_⟩
  rcases hretry : retryAll crc32c turn data offset ((failing crc32c offset
    (received ⟨offset, packPages crc32c data offset, false⟩ last)).map asked) w₁ with ⟨e | ⟨⟩, w'⟩
  all_goals
    have hlog : w'.sent = w.sent ++ (⟨offset, packPages crc32c data offset, false⟩ :: more) := by
      rw [hretry] at hmore
      rw [hmore, ← hw₁, List.append_assoc]
      rfl
    rw [hretry] at h
  · rw [Act.bind_of_error hretry]
    refine ⟨hlog, fun s hs => (Option.some.inj hs).symm, hreported.symm ▸ hresends, h.atMost, fun p m he => ?_, nofun,
      nofun⟩
    exact h.exhausted p m (by cases he; rfl)
  · rw [Act.bind_of_ok hretry]
    refine ⟨hlog, fun s hs => (Option.some.inj hs).symm, hreported.symm ▸ hresends, h.atMost, nofun,
      fun n _ _ p hp => ⟨_, h.all rfl p (hreported ▸ hp), rfl⟩, fun n hn => ⟨?_, fun hshown => ?_⟩⟩
    · cases hn
      rfl
    · have hget : w'.sent[w.sent.length]? = some ⟨offset, packPages crc32c data offset, false⟩ := by
        rw [hlog, List.getElem?_append_right (Nat.le_refl _), Nat.sub_self]
        rfl
      have hfirst := hshown _ _ (Nat.le_refl _) hget
      rw [hturn] at hfirst
      have hle : w.sent.length ≤ w₁.sent.length := by
        rw [← hw₁, List.length_append]
        exact Nat.le_add_right _ _
      exact retryAll_stored hlong hfirst (by rw [← hw₁]) hretry (hshown.mono hle)

/-- A wire that makes of the page `01` the page `02`, and of its CRC the CRC of that. -/
def swap : Noise where
  carry payload := if payload = packPages Lib.crc32c [1] 0 then packPages Lib.crc32c [2] 0 else payload
  length_carry payload := by
    split
    · next h =>
      subst h
      decide
    · rfl

/-- What the CRC does not show is stored, and the write returns. -/
theorem undetected_corruption_stored : ¬ ∀ (turn : Nat → Turn) (data : Bytes) (offset : Nat) (w : World) (n : Nat),
    (pgwrite Lib.crc32c turn data offset w).1 = .ok n →
      (pgwrite Lib.crc32c turn data offset w).2.file = writeAt 0 w.file offset data :=
  fun h => absurd (h (fun _ => .answered [] swap (List.replicate 8 0) rfl true) [1] 0 ⟨[], []⟩ 1 (by decide))
    (by decide)

end

end XrdClient.Client.PgWrite
