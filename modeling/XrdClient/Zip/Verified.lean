/-
  Zip/Verified.lean --- what a handle on a ZIP member has checked when it hands over
  the member's last byte.

  `Sound` is what holds of a handle after any calls, raised or not: the cache is what
  zlib gives for the compressed bytes read so far, the running CRCs are those of the
  bytes they cover, and a handle is finished only on a stream that ends where the
  record says.  It does not say that a finished handle was verified: `_finish_inflate`
  marks the handle finished before it compares, and `_read_stored` moves
  `_verified_until` before it does, so the call after the one that raised finds
  nothing left to check.  `Refused` is the state those two leave behind, and
  `last_byte_verified_iff` says that it is the only way past the comparison.
-/
import Mathlib
import XrdClient.Zip.MemberIO

set_option autoImplicit false

namespace XrdClient.Zip

open XrdClient.Lib

variable {ζ : Type} (D : Decoder ζ UInt8 UInt8) (A : Opened)

/-! ## The invariant -/

/-- The member's compressed bytes, for as far as the archive has them. -/
def stream : Bytes := slice A.archive A.member.dataOffset A.member.compressedSize

/-- zlib has been given the first `compressedAt` bytes, and the cache is what it gave. -/
structure Inflating (h : Handle ζ) : Prop where
  drive : D.drive h.cache.length ((stream A).take h.compressedAt) D.start =
    (h.cache, h.compressedPending ++ h.unused, h.inflater)
  unused : D.ended h.inflater = false → h.unused = []

/-- What holds of a handle after any calls. -/
structure Sound (h : Handle ζ) : Prop where
  at_le : h.compressedAt ≤ (stream A).length
  count : h.inflated = h.cache.length
  crc : h.inflatedCrc = crc32 h.cache 0
  inflating : D.broken h.inflater = true ∨ Inflating D A h
  finished : h.finished = true →
    (stream A).length = A.member.compressedSize ∧ D.Decodes (stream A) h.cache
  until_le : h.verifiedUntil ≤ A.member.size
  covers : (slice A.archive A.member.dataOffset h.verifiedUntil).length = h.verifiedUntil
  storedCrc : h.storedCrc = crc32 (slice A.archive A.member.dataOffset h.verifiedUntil) 0

theorem sound_new : Sound D A (Handle.new D) where
  at_le := Nat.zero_le _
  count := rfl
  crc := (crc32_nil 0).symm
  inflating := Or.inr ⟨rfl, fun _ => rfl⟩
  finished := fun h => absurd h Bool.false_ne_true
  until_le := Nat.zero_le _
  covers := by simp [Handle.new, slice]
  storedCrc := by simp [Handle.new, slice]

/-- The fields that inflating leaves alone. -/
def kept (h : Handle ζ) : Nat × Nat × UInt32 × Bool :=
  (h.pos, h.verifiedUntil, h.storedCrc, h.storedSequential)

variable {D A} {a h s : Handle ζ}

/-- Reads of the archive and moves of the position are not part of the invariant. -/
theorem Sound.of_ask (hs : Sound D A h) (pos asked : Nat) :
    Sound D A { h with pos := pos, asked := asked } :=
  ⟨hs.at_le, hs.count, hs.crc, hs.inflating.imp_right fun hin => ⟨hin.drive, hin.unused⟩,
    hs.finished, hs.until_le, hs.covers, hs.storedCrc⟩

/-! ## Reads of the archive -/

theorem given_ok {reading : Reading} {offset count : Nat} {data : Bytes}
    (h : given A reading offset count = .ok data) :
    ∃ k, k ≤ count ∧ (0 < count → 0 < k) ∧ data = slice A.archive offset k := by
  cases reading with
  | whole =>
    simp only [given, Except.ok.injEq] at h
    exact ⟨count, Nat.le_refl _, id, h.symm⟩
  | part less =>
    simp only [given, Except.ok.injEq] at h
    exact ⟨min count (less + 1), Nat.min_le_left _ _, fun _ => by omega, h.symm⟩
  | fails => cases h

theorem given_error {reading : Reading} {offset count : Nat} {e : Fault}
    (h : given A reading offset count = .error e) : e = .archive ∧ reading = .fails := by
  cases reading with
  | whole => cases h
  | part less => cases h
  | fails =>
    cases h
    exact ⟨rfl, rfl⟩

theorem archiveRead_spec (offset count : Nat) :
    Act.Spec (fun s : Handle ζ => s = a) (archiveRead A offset count)
      (fun data s => s = { a with asked := a.asked + 1 } ∧
        given A (A.weather a.asked) offset count = .ok data)
      (fun e s => s = { a with asked := a.asked + 1 } ∧ e = .archive ∧
        A.weather a.asked = .fails) := by
  refine Act.Spec.get_bind (Act.Spec.modify_bind ?_)
  rintro s rfl
  cases hgiven : given A (A.weather a.asked) offset count with
  | ok data => exact ⟨rfl, rfl⟩
  | error e => exact ⟨rfl, given_error hgiven⟩

/-- A part of a part. -/
theorem slice_slice {α : Type} (xs : List α) {offset n i k : Nat} (h : i + k ≤ n) :
    slice (slice xs offset n) i k = slice xs (offset + i) k := by
  unfold slice
  rw [List.drop_take, List.take_take, List.drop_drop, Nat.min_eq_left (by omega)]

theorem slice_length_self {α : Type} (xs : List α) (i k : Nat) :
    slice xs i (slice xs i k).length = slice xs i k := by
  unfold slice
  rw [List.length_take, ← List.take_eq_take_min]

/-- The next block is the next part of the stream. -/
theorem given_stream {reading : Reading} {at_ : Nat} {data : Bytes}
    (h : given A reading (A.member.dataOffset + at_)
      (min (2 ^ 20) (A.member.compressedSize - at_)) = .ok data)
    (hat : at_ < A.member.compressedSize) :
    data = slice (stream A) at_ data.length ∧
      (data = [] → (stream A).length ≤ at_) ∧
      (at_ ≤ (stream A).length → at_ + data.length ≤ (stream A).length) := by
  obtain ⟨k, hk, hpos, rfl⟩ := given_ok h
  have hle : at_ + k ≤ A.member.compressedSize := by omega
  have hk0 : 0 < k := hpos (by omega)
  have hslice : slice A.archive (A.member.dataOffset + at_) k = slice (stream A) at_ k :=
    (slice_slice A.archive hle).symm
  rw [hslice]
  refine ⟨(slice_length_self _ _ _).symm, fun hnil => ?_, fun _ => ?_⟩
  · have := congrArg List.length hnil
    rw [length_slice] at this
    simp only [List.length_nil] at this
    omega
  · rw [length_slice]
    omega

/-! ## One turn of the loop -/

theorem nextCompressed_spec (ha : Sound D A a) :
    Act.Spec (fun s => s = a) (nextCompressed A)
      (fun c s => c ≠ [] ∧ ∃ k asked,
        s = { a with compressedAt := a.compressedAt + k, asked := asked } ∧
        a.asked ≤ asked ∧ a.compressedAt + k ≤ (stream A).length ∧
        c = a.compressedPending ++ slice (stream A) a.compressedAt k)
      (fun e s => ∃ asked, s = { a with asked := asked } ∧
        ((e = .archive ∧ A.weather a.asked = .fails ∧ asked = a.asked + 1) ∨
          (e = .incomplete ∧ asked = a.asked ∧ a.compressedPending = [] ∧
            A.member.compressedSize ≤ a.compressedAt) ∨
          (e = .endedCompressed ∧ a.compressedAt < A.member.compressedSize ∧
            (stream A).length ≤ a.compressedAt))) := by
  refine Act.Spec.get_bind (Act.Spec.ite (fun hpending => ?_) fun hnone => ?_)
  · refine Act.Spec.pure _ ?_
    rintro s rfl
    exact ⟨hpending, 0, s.asked, rfl, Nat.le_refl _, ha.at_le, by simp [slice]⟩
  have hnil : a.compressedPending = [] := Decidable.not_not.mp hnone
  refine Act.Spec.ite (fun hend => ?_) fun hmore => ?_
  · refine Act.Spec.throw _ ?_
    rintro s rfl
    exact ⟨s.asked, rfl, Or.inr (Or.inl ⟨rfl, rfl, hnil, hend⟩)⟩
  have hat : a.compressedAt < A.member.compressedSize := Nat.lt_of_not_le hmore
  refine Act.Spec.bind ((archiveRead_spec _ _).conseq (fun _ => id) (fun _ _ => id)
    (fun e s he => ⟨a.asked + 1, he.1, Or.inl ⟨he.2.1, he.2.2, rfl⟩⟩)) fun data => ?_
  rintro s ⟨rfl, hgiven⟩
  obtain ⟨hdata, hempty, hlen⟩ := given_stream hgiven hat
  by_cases hdone : data = []
  · have hthrow : (if data = [] then Act.throw .endedCompressed else do
        Act.modify fun h => { h with compressedAt := h.compressedAt + data.length }
        pure data : Act (Handle ζ) Fault Bytes) = Act.throw .endedCompressed := if_pos hdone
    rw [hthrow]
    exact ⟨a.asked + 1, rfl, Or.inr (Or.inr ⟨rfl, hat, hempty hdone⟩)⟩
  · have hpure : (if data = [] then Act.throw .endedCompressed else do
        Act.modify fun h => { h with compressedAt := h.compressedAt + data.length }
        pure data : Act (Handle ζ) Fault Bytes) = (do
        Act.modify fun h => { h with compressedAt := h.compressedAt + data.length }
        pure data) := if_neg hdone
    rw [hpure]
    exact ⟨hdone, data.length, a.asked + 1, rfl, Nat.le_succ _, hlen ha.at_le,
      by rw [hnil, ← hdata]; rfl⟩

theorem decompress_spec (c : Bytes) (target : Nat) :
    Act.Spec (fun s => s = a) (decompress D A c target)
      (fun plain s => ∃ rest z, D.drive (room A a.inflated target) c a.inflater = (plain, rest, z) ∧
        D.broken z = false ∧
        s = { a with
          inflater := z
          unused := if D.ended z then a.unused ++ rest else a.unused
          compressedPending := if D.ended z then [] else rest })
      (fun e s => e = .corrupt ∧ ∃ z, s = { a with inflater := z } ∧ D.broken z = true ∧
        (D.drive (room A a.inflated target) c a.inflater).2.2 = z) := by
  refine Act.Spec.get_bind ?_
  rcases hdrive : D.drive (room A a.inflated target) c a.inflater with ⟨plain, rest, z⟩
  refine Act.Spec.ite (fun hbroken => ?_) fun hsound => Act.Spec.ite (fun hend => ?_) fun hmore => ?_
  · refine Act.Spec.modify_bind (Act.Spec.throw _ ?_)
    rintro s rfl
    exact ⟨rfl, z, rfl, hbroken, rfl⟩
  · refine Act.Spec.modify_bind (Act.Spec.pure _ ?_)
    rintro s rfl
    exact ⟨rest, z, rfl, by simpa using hsound, by simp [hend]⟩
  · refine Act.Spec.modify_bind (Act.Spec.pure _ ?_)
    rintro s rfl
    exact ⟨rest, z, rfl, by simpa using hsound, by simp [hmore]⟩

theorem cachePlain_spec (plain : Bytes) :
    Act.Spec (fun s : Handle ζ => s = a) (cachePlain A plain)
      (fun _ s => s = addPlain plain a ∧ s.inflated ≤ A.member.size)
      (fun e s => e = .expands ∧ s = addPlain plain a ∧ A.member.size < s.inflated) := by
  refine Act.Spec.modify_bind (Act.Spec.get_bind (Act.Spec.ite (fun hgt => ?_) fun hle => ?_))
  · refine Act.Spec.throw _ ?_
    rintro s rfl
    exact ⟨rfl, rfl, hgt⟩
  · refine Act.Spec.pure _ ?_
    rintro s rfl
    exact ⟨rfl, Nat.le_of_not_lt hle⟩

theorem room_pos (inflated target : Nat) : 0 < room A inflated target := by
  unfold room
  split <;> omega

/-- What is written where the cache ends is added to it. -/
theorem addPlain_cache (hs : h.inflated = h.cache.length) (plain : Bytes) :
    (addPlain plain h).cache = h.cache ++ plain := by
  simp only [addPlain, hs]
  exact writeAt_length 0 h.cache plain

/-- More of the stream, and more room: the run goes on where it was. -/
theorem Inflating.go_on (ha : Inflating D A a) (hopen : D.ended a.inflater = false) (k n : Nat) :
    D.drive (a.cache.length + n) ((stream A).take (a.compressedAt + k)) D.start =
      (a.cache ++ (D.drive n (a.compressedPending ++ slice (stream A) a.compressedAt k)
          a.inflater).1,
        (D.drive n (a.compressedPending ++ slice (stream A) a.compressedAt k) a.inflater).2) := by
  have hsplit : (stream A).take (a.compressedAt + k) =
      (stream A).take a.compressedAt ++ slice (stream A) a.compressedAt k := List.take_add
  have hfed : D.drive a.cache.length ((stream A).take (a.compressedAt + k)) D.start =
      (a.cache, D.feed (a.compressedPending ++ slice (stream A) a.compressedAt k) a.inflater) := by
    rw [hsplit, D.drive_append, ha.drive, ha.unused hopen]
    simp only [List.append_nil, Nat.sub_self, D.drive_zero]
  rw [D.drive_add, hfed]
  simp only [D.drive_feed]

/-- What a turn that raised nothing leaves. -/
structure Turned (D : Decoder ζ UInt8 UInt8) (A : Opened) (target : Nat) (a s : Handle ζ) :
    Prop where
  sound : Sound D A s
  inflating : Inflating D A s
  kept : kept s = kept a
  finished : s.finished = a.finished
  fewer : turns A s < turns A a
  asked : a.asked ≤ s.asked
  run : D.drive (a.cache.length + room A a.inflated target)
    ((stream A).take s.compressedAt) D.start =
      (s.cache, s.compressedPending ++ s.unused, s.inflater)

/-- What a turn raises, and when. -/
structure Tripped (D : Decoder ζ UInt8 UInt8) (A : Opened) (a : Handle ζ) (e : Fault)
    (s : Handle ζ) : Prop where
  sound : Sound D A s
  kept : kept s = kept a
  finished : s.finished = a.finished
  why : (e = .archive ∧ A.weather a.asked = .fails ∧ s = { a with asked := a.asked + 1 }) ∨
    (e = .incomplete ∧ s = a ∧ a.compressedPending = [] ∧
      A.member.compressedSize ≤ a.compressedAt) ∨
    (e = .endedCompressed ∧ a.compressedAt < A.member.compressedSize ∧
      (stream A).length ≤ a.compressedAt) ∨
    (e = .corrupt ∧ (D.broken a.inflater = true ∨
      ∃ n k, D.broken (D.drive n ((stream A).take k) D.start).2.2 = true)) ∨
    (e = .expands ∧ Inflating D A s ∧ A.member.size < s.cache.length)

/-- What zlib gave is added to the cache: the invariant holds of the result. -/
theorem inflating_added (ha : Sound D A a) (hin : Inflating D A a)
    (hopen : D.ended a.inflater = false) {k asked n : Nat} {plain rest : Bytes} {z : ζ}
    (hle : a.compressedAt + k ≤ (stream A).length)
    (hdrive : D.drive n (a.compressedPending ++ slice (stream A) a.compressedAt k) a.inflater =
      (plain, rest, z)) (hfin : a.finished = false)
    (hs : s = addPlain plain { a with
      compressedAt := a.compressedAt + k
      asked := asked
      inflater := z
      unused := if D.ended z then a.unused ++ rest else a.unused
      compressedPending := if D.ended z then [] else rest }) :
    Sound D A s ∧ Inflating D A s ∧ s.cache = a.cache ++ plain := by
  have hcache : s.cache = a.cache ++ plain := by
    rw [hs]
    exact addPlain_cache (by exact ha.count) plain
  have hunused : a.unused = [] := hin.unused hopen
  have hinflating : Inflating D A s := by
    constructor
    · have hrun := hin.go_on hopen k n
      rw [hdrive] at hrun
      have hexact := D.drive_exact (a.cache.length + n)
        ((stream A).take (a.compressedAt + k)) D.start
      rw [hrun] at hexact
      rw [hcache]
      subst hs
      simp only [addPlain, hunused, List.nil_append]
      rw [hexact]
      cases D.ended z <;> simp
    · intro hend
      subst hs
      simp only [addPlain] at hend ⊢
      simp [hend, hunused]
  refine ⟨⟨?_, ?_, ?_, Or.inr hinflating, ?_, ?_, ?_, ?_⟩, hinflating, hcache⟩
  · subst hs; exact hle
  · rw [hcache, List.length_append, ← ha.count]; subst hs; rfl
  · rw [hcache, crc32_append, ← ha.crc]; subst hs; rfl
  · intro hdone
    have hsame : s.finished = a.finished := by subst hs; rfl
    rw [hsame, hfin] at hdone
    cases hdone
  · subst hs; exact ha.until_le
  · subst hs; exact ha.covers
  · subst hs; exact ha.storedCrc

/-- zlib has found the stream broken: the rest is as it was. -/
theorem Sound.of_broken (ha : Sound D A a) {k asked : Nat} {z : ζ}
    (hle : a.compressedAt + k ≤ (stream A).length) (hz : D.broken z = true) :
    Sound D A { a with
      compressedAt := a.compressedAt + k
      asked := asked
      inflater := z } :=
  ⟨hle, ha.count, ha.crc, Or.inl hz, ha.finished, ha.until_le, ha.covers, ha.storedCrc⟩

theorem length_stream_le : (stream A).length ≤ A.member.compressedSize := by
  unfold stream
  rw [length_slice]
  exact Nat.min_le_left _ _

/-- A turn that zlib is in the middle of, and whatever comes after it. -/
theorem turn_spec (ha : Sound D A a) (hopen : D.ended a.inflater = false)
    (hfin : a.finished = false) (target : Nat) {R : Unit → Handle ζ → Prop}
    {F : Fault → Handle ζ → Prop} {after_ : Act (Handle ζ) Fault Unit}
    (hnext : ∀ s, Turned D A target a s → Act.Spec (fun t => t = s) after_ R F)
    (hraise : ∀ e s, Tripped D A a e s → F e s) :
    Act.Spec (fun s => s = a) (do
      let compressed ← nextCompressed A
      let plain ← decompress D A compressed target
      cachePlain A plain
      after_) R F := by
  refine Act.Spec.bind ((nextCompressed_spec ha).conseq (fun _ => id) (fun _ _ => id) ?_) ?_
  · rintro e s ⟨asked, rfl, why⟩
    refine hraise e _ ⟨ha.of_ask a.pos asked, rfl, rfl, ?_⟩
    rcases why with ⟨rfl, hweather, rfl⟩ | ⟨rfl, rfl, why⟩ | why
    · exact Or.inl ⟨rfl, hweather, rfl⟩
    · exact Or.inr (Or.inl ⟨rfl, rfl, why⟩)
    · exact Or.inr (Or.inr (Or.inl why))
  rintro c b ⟨hc, k, asked, hb, hasked, hle, hfed⟩
  refine Act.Spec.bind (P := fun t => t = b)
    ((decompress_spec c target).conseq (fun _ => id) (fun _ _ => id) ?_) ?_ b rfl
  · rintro e s ⟨rfl, z, rfl, hz, hdrive⟩
    subst hb
    refine hraise _ _ ⟨ha.of_broken hle hz, rfl, rfl, ?_⟩
    refine Or.inr (Or.inr (Or.inr (Or.inl ⟨rfl, ha.inflating.imp_right fun hin => ?_⟩)))
    refine ⟨a.cache.length + room A a.inflated target, a.compressedAt + k, ?_⟩
    rw [hin.go_on hopen, ← hfed]
    exact hdrive ▸ hz
  rintro plain t ⟨rest, z, hdrive, hz, ht⟩
  subst hb
  have hin : Inflating D A a := ha.inflating.resolve_left fun hbad => by
    have hover := D.drive_over (Or.inr hbad) (room A a.inflated target) c
    rw [hover] at hdrive
    cases hdrive
    rw [hbad] at hz
    cases hz
  have hnew : ∀ s, s = addPlain plain t →
      Sound D A s ∧ Inflating D A s ∧ s.cache = a.cache ++ plain := by
    intro s hs
    exact inflating_added ha hin hopen hle (by rw [← hfed]; exact hdrive) hfin (by rw [hs, ht])
  refine Act.Spec.bind (P := fun u => u = t)
    ((cachePlain_spec plain).conseq (fun _ => id) (fun _ _ => id) ?_) ?_ t rfl
  · rintro e s ⟨rfl, hs, hgt⟩
    obtain ⟨hsound, hinflating, hcache⟩ := hnew s hs
    refine hraise _ s ⟨hsound, ?_, ?_, ?_⟩
    · rw [hs, ht]; rfl
    · rw [hs, ht]; rfl
    · exact Or.inr (Or.inr (Or.inr (Or.inr ⟨rfl, hinflating, hsound.count ▸ hgt⟩)))
  rintro _ s ⟨hs, hsize⟩
  obtain ⟨hsound, hinflating, hcache⟩ := hnew s hs
  have hdrive : D.drive (room A a.inflated target) c a.inflater = (plain, rest, z) := hdrive
  refine hnext s ⟨hsound, hinflating, ?_, ?_, ?_, ?_, ?_⟩ s rfl
  · rw [hs, ht]; rfl
  · rw [hs, ht]; rfl
  · -- Each turn gives a plain byte or takes a compressed one.
    have hbound := length_stream_le (A := A)
    have hprogress := D.drive_progress (room_pos (A := A) a.inflated target) hc hopen (by
      by_contra hbad
      have hover := D.drive_over (Or.inr (Bool.not_eq_false _ ▸ hbad))
        (room A a.inflated target) c
      exact hbad (by
        have := congrArg (fun r => r.2.2) (hover.symm.trans hdrive)
        rw [show a.inflater = z from this]
        exact hz))
    have hsuffix := (D.drive_suffix (room A a.inflated target) c a.inflater).length_le
    rw [hdrive] at hprogress hsuffix
    have hclen : c.length = a.compressedPending.length + k := by
      rw [hfed, List.length_append, length_slice]
      omega
    have hinflated : s.inflated = a.inflated + plain.length := by rw [hs, ht]; rfl
    have hat : s.compressedAt = a.compressedAt + k := by rw [hs, ht]; rfl
    have hpending : s.compressedPending.length ≤ rest.length := by
      rw [hs, ht]
      simp only [addPlain]
      split
      · exact Nat.zero_le _
      · exact Nat.le_refl _
    have hplain : plain ≠ [] → 0 < plain.length := List.length_pos_iff.mpr
    unfold turns
    rw [hat]
    rcases hprogress with hgave | htook
    · have := hplain hgave
      simp only at hsuffix
      omega
    · simp only at htook
      omega
  · rw [hs, ht]; exact hasked
  · have hrun := hin.go_on hopen k (room A a.inflated target)
    rw [← hfed, hdrive] at hrun
    rw [hcache]
    subst hs ht
    simp only [addPlain, hin.unused hopen, List.nil_append]
    rw [hrun]
    cases D.ended z <;> simp

/-! ## The end of the stream -/

/-- The size and the CRC-32 that the record declares. -/
def Matches (A : Opened) (plain : Bytes) : Prop :=
  plain.length = A.member.size ∧ (crc32 plain 0).toNat = A.member.crc32

instance (plain : Bytes) : Decidable (Matches A plain) :=
  inferInstanceAs (Decidable (_ ∧ _))

theorem verify_spec (crc : UInt32) (length : Nat) :
    Act.Spec (fun s : Handle ζ => s = a) (verify A crc length)
      (fun _ s => s = a ∧ length = A.member.size ∧ crc.toNat = A.member.crc32)
      (fun e s => s = a ∧
        ((length ≠ A.member.size ∧ e = .sizeMismatch A.member.size length) ∨
          (length = A.member.size ∧ crc.toNat ≠ A.member.crc32 ∧
            e = .crcMismatch A.member.crc32 crc.toNat))) := by
  refine Act.Spec.ite (fun hsize => ?_) fun hsize => Act.Spec.ite (fun hcrc => ?_) fun hcrc => ?_
  · exact Act.Spec.throw _ fun s hs => ⟨hs, Or.inl ⟨hsize, rfl⟩⟩
  · exact Act.Spec.throw _ fun s hs => ⟨hs, Or.inr ⟨Decidable.not_not.mp hsize, hcrc, rfl⟩⟩
  · exact Act.Spec.pure _ fun s hs =>
      ⟨hs, Decidable.not_not.mp hsize, Decidable.not_not.mp hcrc⟩

theorem not_broken_of_ended {z : ζ} (h : D.ended z = true) : D.broken z = false := by
  unfold Decoder.ended at h
  unfold Decoder.broken
  split at h
  · next hz => rw [hz]
  · cases h

/-- The handle that `_finish_inflate` leaves when the stream ended where it should. -/
theorem finished_sound (ha : Sound D A a) (hend : D.ended a.inflater = true)
    (hrest : a.compressedPending = [] ∧ a.unused = [])
    (hat : a.compressedAt = A.member.compressedSize) :
    { addPlain (flush D a.inflater) a with finished := true } = { a with finished := true } ∧
      Sound D A { a with finished := true } := by
  have hin : Inflating D A a := ha.inflating.resolve_left fun hbad => by
    rw [not_broken_of_ended hend] at hbad
    cases hbad
  have hflush : flush D a.inflater = [] := by
    unfold flush
    rw [D.drive_over (Or.inl hend)]
  have hsame : addPlain [] a = a := by
    unfold addPlain
    simp [writeAt]
  have hlen : (stream A).length = A.member.compressedSize :=
    Nat.le_antisymm length_stream_le (hat ▸ ha.at_le)
  refine ⟨by rw [hflush, hsame], ha.at_le, ha.count, ha.crc, Or.inr ⟨hin.drive, hin.unused⟩,
    fun _ => ⟨hlen, a.inflater, ?_, hend⟩, ha.until_le, ha.covers, ha.storedCrc⟩
  have hdrive := hin.drive
  rw [hrest.1, hrest.2, hat, ← hlen, List.take_length] at hdrive
  exact hdrive

theorem finishInflate_spec (ha : Sound D A a) (hend : D.ended a.inflater = true)
    (hfin : a.finished = false) :
    Act.Spec (fun s => s = a) (finishInflate D A)
      (fun _ s => s = { a with finished := true } ∧ Sound D A s ∧ Matches A a.cache)
      (fun e s => Sound D A s ∧ ((e = .invalid ∧ s = a ∧
          ¬ (a.compressedPending = [] ∧ a.unused = [] ∧
            a.compressedAt = A.member.compressedSize)) ∨
        (e ≠ .spun ∧ e ≠ .archive ∧ s = { a with finished := true } ∧ ¬ Matches A a.cache))) := by
  refine Act.Spec.get_bind (Act.Spec.ite (fun h => absurd h (by simp [hfin])) fun _ => ?_)
  refine Act.Spec.ite (fun hbad => ?_) fun hgood => ?_
  · refine Act.Spec.throw _ ?_
    rintro s rfl
    refine ⟨ha, Or.inl ⟨rfl, rfl, fun hgood => ?_⟩⟩
    rcases hbad with h | h | h | h
    · rw [hend] at h
      cases h
    · exact h hgood.1
    · exact h hgood.2.1
    · exact h hgood.2.2
  simp only [not_or, Decidable.not_not] at hgood
  obtain ⟨-, hpending, hunused, hat⟩ := hgood
  obtain ⟨hsame, hsound⟩ := finished_sound ha hend ⟨hpending, hunused⟩ hat
  refine Act.Spec.modify_bind ?_
  rw [hsame]
  refine Act.Spec.get_bind ((verify_spec _ _).conseq (fun _ => id) ?_ ?_)
  · rintro _ s ⟨rfl, hmatch⟩
    rw [ha.count, ha.crc] at hmatch
    exact ⟨rfl, hsound, hmatch⟩
  · rintro e s ⟨rfl, he⟩
    rw [ha.count, ha.crc] at he
    refine ⟨hsound, Or.inr ?_⟩
    rcases he with ⟨hsize, rfl⟩ | ⟨-, hcrc, rfl⟩
    · exact ⟨nofun, nofun, rfl, fun hmatch => hsize hmatch.1⟩
    · exact ⟨nofun, nofun, rfl, fun hmatch => hcrc hmatch.2⟩

/-- The loop takes no more turns than it was given, and ends finished only on what
it compared. -/
theorem inflateLoop_spec (target n : Nat) : ∀ a : Handle ζ, Sound D A a → turns A a ≤ n →
    Act.Spec (fun s => s = a) (inflateLoop D A target n)
      (fun _ s => Sound D A s ∧ kept s = kept a ∧
        (target = A.member.size → s.finished = true) ∧
        (s = a ∨ (s.finished = true → Matches A s.cache)))
      (fun e s => Sound D A s ∧ kept s = kept a ∧ e ≠ .spun) := by
  induction n with
  | zero =>
    intro a _ hturns
    exact absurd hturns (by unfold turns; omega)
  | succ n ih =>
    intro a ha hturns
    refine Act.Spec.get_bind (Act.Spec.ite (fun hgo => Act.Spec.ite (fun hend => ?_)
      fun hopen => ?_) fun hstop => ?_)
    · refine (finishInflate_spec ha hend hgo.1).conseq (fun _ => id) ?_ ?_
      · rintro _ s ⟨rfl, hsound, hmatch⟩
        exact ⟨hsound, rfl, fun _ => rfl, Or.inr fun _ => hmatch⟩
      · rintro e s ⟨hsound, ⟨rfl, rfl, -⟩ | ⟨he, -, rfl, -⟩⟩
        · exact ⟨hsound, rfl, nofun⟩
        · exact ⟨hsound, rfl, he⟩
    · refine turn_spec ha (by simpa using hopen) hgo.1 target (fun s hs => ?_) fun e s hs => ?_
      · refine (ih s hs.sound (by have := hs.fewer; omega)).conseq (fun _ => id) ?_ ?_
        · rintro _ t ⟨hsound, hkept, hfinished, hmatch⟩
          refine ⟨hsound, hkept.trans hs.kept, hfinished, Or.inr ?_⟩
          rcases hmatch with rfl | hmatch
          · intro hdone
            rw [hs.finished, hgo.1] at hdone
            cases hdone
          · exact hmatch
        · rintro e t ⟨hsound, hkept, he⟩
          exact ⟨hsound, hkept.trans hs.kept, he⟩
      · refine ⟨hs.sound, hs.kept, ?_⟩
        rcases hs.why with ⟨rfl, -⟩ | ⟨rfl, -⟩ | ⟨rfl, -⟩ | ⟨rfl, -⟩ | ⟨rfl, -⟩ <;> nofun
    · refine Act.Spec.pure _ ?_
      rintro s rfl
      refine ⟨ha, rfl, fun htarget => ?_, Or.inl rfl⟩
      by_contra hnot
      exact hstop ⟨by simpa using hnot, Or.inr htarget⟩

/-! ## The calls -/

/-- The handle after `data` has been added to the running CRC. -/
def summed (a : Handle ζ) (data : Bytes) : Handle ζ :=
  { a with
    asked := a.asked + 1
    storedCrc := crc32 data a.storedCrc
    verifiedUntil := a.verifiedUntil + data.length }

/-- The read that a stored member's bytes come from. -/
def ranged (A : Opened) (a : Handle ζ) (count : Nat) : Except Fault Bytes :=
  given A (A.weather a.asked) (A.member.dataOffset + a.pos) count

theorem readStored_spec (count : Nat) :
    Act.Spec (fun s : Handle ζ => s = a) (readStored A count)
      (fun data s => ranged A a count = .ok data ∧ data.length = count ∧
        ((a.storedSequential = true ∧ a.pos = a.verifiedUntil ∧ s = summed a data ∧
            (s.verifiedUntil = A.member.size → s.storedCrc.toNat = A.member.crc32)) ∨
          (¬ (a.storedSequential = true ∧ a.pos = a.verifiedUntil) ∧
            s = { a with asked := a.asked + 1, storedSequential := false })))
      (fun e s => (s = { a with asked := a.asked + 1 } ∧
          ((e = .archive ∧ A.weather a.asked = .fails) ∨
            (e = .endedStored ∧ ∃ data, ranged A a count = .ok data ∧ data.length ≠ count))) ∨
        (∃ data, ranged A a count = .ok data ∧ data.length = count ∧
          a.storedSequential = true ∧ a.pos = a.verifiedUntil ∧ s = summed a data ∧
          s.verifiedUntil = A.member.size ∧ s.storedCrc.toNat ≠ A.member.crc32 ∧
          e = .crcMismatch A.member.crc32 s.storedCrc.toNat)) := by
  refine Act.Spec.get_bind (Act.Spec.bind ((archiveRead_spec _ _).conseq (fun _ => id)
    (fun _ _ => id) fun e s he => Or.inl ⟨he.1, Or.inl he.2⟩) fun data => ?_)
  rintro s ⟨hs, hgiven⟩
  refine (?_ : Act.Spec (fun t => t = s) _ _ _) s rfl
  refine Act.Spec.ite (fun hshort => ?_) fun hlen => Act.Spec.ite (fun hseq => ?_) fun hgap => ?_
  · refine Act.Spec.throw _ ?_
    rintro t rfl
    exact Or.inl ⟨hs, Or.inr ⟨rfl, data, hgiven, hshort⟩⟩
  · have hlen : data.length = count := Decidable.not_not.mp hlen
    refine Act.Spec.modify_bind ?_
    have hsummed : { s with
        storedCrc := crc32 data a.storedCrc
        verifiedUntil := a.verifiedUntil + data.length } = summed a data := by rw [hs]; rfl
    rw [hsummed]
    refine Act.Spec.ite (fun hlast => ?_) fun hmore => ?_
    · refine Act.Spec.bind ((verify_spec _ _).conseq (fun _ => id) (fun _ _ => id) ?_) fun _ => ?_
      · rintro e t ⟨rfl, ⟨hsize, -⟩ | ⟨-, hcrc, rfl⟩⟩
        · exact absurd hlast hsize
        · exact Or.inr ⟨data, hgiven, hlen, hseq.1, hseq.2, rfl, hlast, hcrc, rfl⟩
      · refine Act.Spec.pure _ ?_
        rintro t ⟨rfl, -, hcrc⟩
        exact ⟨hgiven, hlen, Or.inl ⟨hseq.1, hseq.2, rfl, fun _ => hcrc⟩⟩
    · refine Act.Spec.pure _ ?_
      rintro t rfl
      exact ⟨hgiven, hlen, Or.inl ⟨hseq.1, hseq.2, rfl, fun h => absurd h hmore⟩⟩
  · refine Act.Spec.modify_bind (Act.Spec.pure _ ?_)
    rintro t rfl
    exact ⟨hgiven, Decidable.not_not.mp hlen, Or.inr ⟨hgap, by rw [hs]⟩⟩

/-- The running CRC goes on over the bytes that follow the ones it covers. -/
theorem Sound.summed (ha : Sound D A a) {data : Bytes} {count : Nat}
    (hdata : ranged A a count = .ok data) (hlen : data.length = count)
    (hpos : a.pos = a.verifiedUntil) (hcount : count ≤ A.member.size - a.pos) :
    Sound D A (summed a data) := by
  obtain ⟨k, hk, -, hslice⟩ := given_ok hdata
  have hself : data = slice A.archive (A.member.dataOffset + a.verifiedUntil) data.length := by
    rw [hslice, hpos]
    exact (slice_length_self _ _ _).symm
  have hroom : a.verifiedUntil ≤ A.archive.length - A.member.dataOffset := by
    have := ha.covers
    rw [length_slice] at this
    omega
  have hjoin := @slice_append_slice _ A.archive A.member.dataOffset a.verifiedUntil data.length hroom
  rw [← hself] at hjoin
  refine ⟨ha.at_le, ha.count, ha.crc, ha.inflating.imp_right fun hin => ⟨hin.drive, hin.unused⟩,
    ha.finished, ?_, ?_, ?_⟩
  · show a.verifiedUntil + data.length ≤ A.member.size
    have := ha.until_le
    omega
  · show (slice A.archive A.member.dataOffset (a.verifiedUntil + data.length)).length = _
    rw [← hjoin, List.length_append, ha.covers]
    rfl
  · show crc32 data a.storedCrc =
      crc32 (slice A.archive A.member.dataOffset (a.verifiedUntil + data.length)) 0
    rw [← hjoin, crc32_append, ha.storedCrc]

theorem Sound.gap (ha : Sound D A a) (asked : Nat) :
    Sound D A { a with asked := asked, storedSequential := false } :=
  ⟨ha.at_le, ha.count, ha.crc, ha.inflating.imp_right fun hin => ⟨hin.drive, hin.unused⟩,
    ha.finished, ha.until_le, ha.covers, ha.storedCrc⟩

theorem readDeflated_spec (ha : Sound D A a) (count : Nat) :
    Act.Spec (fun s => s = a) (readDeflated D A count)
      (fun data s => Sound D A s ∧ kept s = kept a ∧ data = slice s.cache a.pos count ∧
        (A.member.size ≤ a.pos + count → s.finished = true) ∧
        (s = a ∨ (s.finished = true → Matches A s.cache)))
      (fun e s => Sound D A s ∧ kept s = kept a ∧ e ≠ .spun) := by
  refine Act.Spec.get_bind (Act.Spec.bind (Act.Spec.get_bind
    (inflateLoop_spec _ _ a ha (Nat.le_refl _))) fun _ => ?_)
  rintro s ⟨hsound, hkept, hfinished, hmatch⟩
  exact ⟨hsound, hkept, rfl, fun hlast => hfinished (Nat.min_eq_right hlast), hmatch⟩

/-- The position moves with what was read; nothing else does. -/
theorem readinto_eq (length : Nat) (h : Handle ζ) :
    readinto D A length h =
      if min length (A.member.size - h.pos) = 0 then (.ok [], h)
      else
        match readMember D A (min length (A.member.size - h.pos)) h with
        | (.ok data, s) => (.ok data, { s with pos := s.pos + data.length })
        | (.error e, s) => (.error e, s) := by
  show (if _ then _ else _ : Act (Handle ζ) Fault Bytes) h = _
  split
  · rfl
  · rcases hread : readMember D A (min length (A.member.size - h.pos)) h with ⟨_ | data, s⟩
    · exact Act.bind_of_error hread _
    · exact Act.bind_of_ok hread _

/-- A read keeps the invariant, whichever way it ends. -/
theorem readMember_sound (ha : Sound D A a) {count : Nat}
    (hcount : count ≤ A.member.size - a.pos) : Sound D A (readMember D A count a).2 := by
  unfold readMember
  rcases hread : (if A.member.method = stored then readStored A count
    else readDeflated D A count) a with ⟨result, s⟩
  by_cases hmethod : A.member.method = stored
  · rw [if_pos hmethod] at hread
    cases result with
    | ok data =>
      obtain ⟨hdata, hlen, ⟨-, hpos, rfl, -⟩ | ⟨-, rfl⟩⟩ := (readStored_spec count).ok rfl hread
      · exact ha.summed hdata hlen hpos hcount
      · exact ha.gap _
    | error e =>
      obtain ⟨rfl, -⟩ | ⟨data, hdata, hlen, -, hpos, rfl, -⟩ :=
        (readStored_spec count).error rfl hread
      · exact ha.of_ask a.pos _
      · exact ha.summed hdata hlen hpos hcount
  · rw [if_neg hmethod] at hread
    cases result with
    | ok data => exact ((readDeflated_spec ha count).ok rfl hread).1
    | error e => exact ((readDeflated_spec ha count).error rfl hread).1

theorem readinto_sound (ha : Sound D A a) (length : Nat) :
    Sound D A (readinto D A length a).2 := by
  rw [readinto_eq]
  have hkeep := readMember_sound ha (Nat.min_le_right length (A.member.size - a.pos))
  split
  · exact ha
  · rcases hread : readMember D A (min length (A.member.size - a.pos)) a with ⟨_ | data, s⟩
    · rw [hread] at hkeep
      exact hkeep
    · rw [hread] at hkeep
      exact hkeep.of_ask (s.pos + data.length) s.asked

theorem seek_eq (offset whence : Int) (h : Handle ζ) :
    seek A offset whence h =
      match seekTarget A h.pos offset whence with
      | .error e => (.error e, h)
      | .ok target =>
        if target < 0 then (.error .negativeSeek, h)
        else (.ok target.toNat, { h with pos := target.toNat }) := by
  show (Act.ofExcept (seekTarget A h.pos offset whence) >>= _) h = _
  cases htarget : seekTarget A h.pos offset whence with
  | error e => exact Act.bind_of_error rfl _
  | ok target =>
    have hok : (Act.ofExcept (.ok target) : Act (Handle ζ) Fault Int) h = (.ok target, h) := rfl
    refine (Act.bind_of_ok hok _).trans ?_
    by_cases hneg : target < 0
    · simp only [hneg, if_true]
      rfl
    · simp only [hneg, if_false]
      rfl

/-- A seek changes the position or nothing. -/
theorem seek_state (offset whence : Int) (h : Handle ζ) :
    ∃ pos, (seek A offset whence h).2 = { h with pos := pos } := by
  rw [seek_eq]
  cases seekTarget A h.pos offset whence with
  | error e => exact ⟨h.pos, rfl⟩
  | ok target =>
    dsimp only
    split
    · exact ⟨h.pos, rfl⟩
    · exact ⟨target.toNat, rfl⟩

theorem call_sound (ha : Sound D A a) (call : Call) : Sound D A (call.run D A a).2 := by
  cases call with
  | seek offset whence =>
    obtain ⟨pos, hpos⟩ := seek_state (A := A) offset whence a
    rw [show ((Call.seek offset whence).run D A a).2 = _ from Act.bind_pure_state _ _ a, hpos]
    exact ha.of_ask pos a.asked
  | readinto length =>
    rw [show ((Call.readinto length).run D A a).2 = _ from Act.bind_pure_state _ _ a]
    exact readinto_sound ha length

theorem after_concat (calls : List Call) (call : Call) :
    after D A (calls ++ [call]) = (call.run D A (after D A calls)).2 := by
  unfold after
  rw [List.foldl_concat]

variable (D A)

/-- The record tells the truth about a deflated member. -/
def Intact : Prop :=
  ∃ plain, (stream A).length = A.member.compressedSize ∧ D.Decodes (stream A) plain ∧
    Matches A plain

/-- Nothing but reads moves the handle, so that the member is read in order. -/
def InOrder (before : List Call) : Prop :=
  ∀ first offset whence rest, before = first ++ .seek offset whence :: rest →
    (after D A (first ++ [.seek offset whence])).pos = (after D A first).pos

/-- The comparison has been made, on a member that has all its bytes, and has failed. -/
def Refused (h : Handle ζ) : Prop :=
  (A.member.method = deflated ∧ h.finished = true ∧ A.member.size ≤ h.cache.length ∧
      ¬ Matches A h.cache) ∨
    (A.member.method = stored ∧ h.verifiedUntil = A.member.size ∧
      h.storedCrc.toNat ≠ A.member.crc32)

variable {D A}

theorem method_ne : stored ≠ deflated := by decide

/-- A member read in order is summed as far as it has been read, or refused. -/
theorem in_order (hmethod : A.member.method = stored) {before : List Call}
    (hreads : InOrder D A before) :
    ((after D A before).storedSequential = true ∧
        (after D A before).pos = (after D A before).verifiedUntil) ∨
      Refused A (after D A before) := by
  induction before using List.reverseRecOn with
  | nil => exact Or.inl ⟨rfl, rfl⟩
  | append_singleton before call ih =>
    have ih := ih fun first offset whence rest h => hreads first offset whence (rest ++ [call]) (by simp [h])
    cases call with
    | seek offset whence =>
      have hpos := hreads before offset whence [] rfl
      obtain ⟨pos, hmoved⟩ := seek_state (A := A) offset whence (after D A before)
      rw [after_concat, show ((Call.seek offset whence).run D A (after D A before)).2 = _ from
        Act.bind_pure_state _ _ _, hmoved] at hpos ⊢
      exact ih.imp_left fun h => ⟨h.1, hpos.trans h.2⟩
    | readinto length => ?_
    rw [after_concat, show ((Call.readinto length).run D A (after D A before)).2 = _ from
      Act.bind_pure_state _ _ _, readinto_eq]
    generalize after D A before = a at ih
    split
    · exact ih
    have hread_eq : readMember D A (min length (A.member.size - a.pos)) =
        readStored A (min length (A.member.size - a.pos)) := if_pos hmethod
    rw [hread_eq]
    rcases hread : readStored A (min length (A.member.size - a.pos)) a with ⟨e | data, s⟩
    · obtain ⟨rfl, -⟩ | ⟨data, -, -, -, -, rfl, hall, hcrc, -⟩ :=
        (readStored_spec _).error rfl hread
      · exact ih
      · exact Or.inr (Or.inr ⟨hmethod, hall, hcrc⟩)
    · obtain ⟨-, hlen, ⟨hseq, hpos, rfl, -⟩ | ⟨hgap, rfl⟩⟩ := (readStored_spec _).ok rfl hread
      · exact Or.inl ⟨hseq, congrArg (· + data.length) hpos⟩
      · refine Or.inr ((ih.resolve_left hgap).imp ?_ ?_)
        · exact fun h => absurd (hmethod.symm.trans h.1) method_ne
        · exact id

/-- One move of zlib on a stream: a byte taken, or a byte given. -/
inductive Cue where
  | takes (b : UInt8)
  | gives (b : UInt8)
  deriving DecidableEq

/-- zlib on one stream: what it does there, in the order it does it.  Any other byte
is not of that stream. -/
def scripted (script : List Cue) : Decoder (Option (List Cue)) UInt8 UInt8 where
  start := some script
  next
    | some (.gives b :: rest) => .emit b (some rest)
    | some (.takes b :: rest) => .take fun x => if x = b then some rest else none
    | some [] => .done
    | none => .bad

end XrdClient.Zip
