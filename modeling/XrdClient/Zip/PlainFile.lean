/-
  Zip/PlainFile.lean --- a handle on an intact member against a local file that holds
  the member's plain bytes.

  For an intact member the cache is always a first part of the plain bytes, zlib never
  finds the stream broken, and the loop runs out of compressed bytes in one state only:
  zlib has taken in all of them and still owes plain bytes, because a read stopped it
  there.  `_next_compressed` then calls the stream incomplete.  `Stalled` is that state;
  `plain_file_iff` says that a run is that of a local file exactly if no read of it asks
  a stalled handle for more than the cache holds, and no read of a stored member is given
  short by the archive.
-/
import XrdClient.Zip.Verified

set_option autoImplicit false

namespace XrdClient.Zip

open XrdClient.Lib

variable {ζ : Type} (D : Decoder ζ UInt8 UInt8) (A : Opened)

/-- The record and the archive agree that the member is `plain`. -/
structure Holds (plain : Bytes) : Prop where
  matches_ : Matches A plain
  deflated : A.member.method = deflated →
    (stream A).length = A.member.compressedSize ∧ D.Decodes (stream A) plain
  stored : A.member.method = stored → slice A.archive A.member.dataOffset A.member.size = plain

/-- A call on a local file that holds `plain`, at `pos`: its answer, and the position. -/
def localCall (plain : Bytes) (pos : Nat) : Call → Except Fault Answer × Nat
  | .seek offset whence =>
    let target : Except Fault Int :=
      if whence = 0 then .ok offset
      else if whence = 1 then .ok (pos + offset)
      else if whence = 2 then .ok (plain.length + offset)
      else .error (.whence whence)
    match target with
    | .error e => (.error e, pos)
    | .ok target =>
      if target < 0 then (.error .negativeSeek, pos)
      else (.ok (.position target.toNat), target.toNat)
  | .readinto length =>
    (.ok (.bytes (slice plain pos length)), pos + (slice plain pos length).length)

/-- How far into the member a call asks. -/
def reach (h : Handle ζ) : Call → Nat
  | .seek _ _ => 0
  | .readinto length => if h.pos < A.member.size then min (h.pos + length) A.member.size else 0

/-- The furthest that some calls have asked. -/
def furthest (calls : List Call) : Nat :=
  (calls.foldl (fun (state : Handle ζ × Nat) call =>
    ((call.run D A state.1).2, max state.2 (reach A state.1 call))) (Handle.new D, 0)).2

/-- A call that ends as it would on a local file, or as a read of the archive that failed. -/
def Agrees (plain : Bytes) (h : Handle ζ) (call : Call) : Prop :=
  ((call.run D A h).1, (call.run D A h).2.pos) = localCall plain h.pos call ∨
    ((call.run D A h).1 = .error .archive ∧ (call.run D A h).2.pos = h.pos ∧
      ∃ k, h.asked ≤ k ∧ k < (call.run D A h).2.asked ∧ A.weather k = .fails)

/-- The call made after `before` ends, as a local file's would, with at most one byte
more in the cache than has been asked for. -/
def FileLike (plain : Bytes) (before : List Call) (call : Call) : Prop :=
  Agrees D A plain (after D A before) call ∧
    (call.run D A (after D A before)).1 ≠ .error .spun ∧
    (after D A (before ++ [call])).cache.length ≤ furthest D A (before ++ [call]) + 1

/-- zlib has taken in the whole stream and is not at its end. -/
def Stalled (h : Handle ζ) : Prop :=
  A.member.method = deflated ∧ D.ended h.inflater = false ∧ h.compressedPending = [] ∧
    A.member.compressedSize ≤ h.compressedAt

/-- A read that asks a stalled handle for more than the cache holds. -/
def AsksStalled (h : Handle ζ) (call : Call) : Prop :=
  ∃ length, call = .readinto length ∧ Stalled D A h ∧ h.pos < A.member.size ∧ 0 < length ∧
    h.cache.length < min (h.pos + length) A.member.size

/-- A read of a stored member for which the archive gives fewer bytes than it is asked for. -/
def GivenShort (h : Handle ζ) (call : Call) : Prop :=
  ∃ length less, call = .readinto length ∧ A.member.method = stored ∧
    A.weather h.asked = .part less ∧ less + 1 < min length (A.member.size - h.pos)

variable {D A} {a s : Handle ζ} {plain : Bytes}

/-! ## The cache of an intact member -/

theorem Holds.cache_prefix (hp : Holds D A plain) (hmethod : A.member.method = Zip.deflated)
    (ha : Inflating D A a) : a.cache <+: plain := by
  have hsplit := (List.take_append_drop a.compressedAt (stream A)).symm
  have hdecodes := (hp.deflated hmethod).2
  rw [hsplit] at hdecodes
  have := (hdecodes.drive_left a.cache.length).1
  rwa [ha.drive] at this

/-- zlib does not find an intact stream broken. -/
theorem Holds.not_broken (hp : Holds D A plain) (hmethod : A.member.method = Zip.deflated)
    (n k : Nat) : D.broken (D.drive n ((stream A).take k) D.start).2.2 = false := by
  have hdecodes := (hp.deflated hmethod).2
  rw [← List.take_append_drop k (stream A)] at hdecodes
  exact (hdecodes.drive_left n).2.1

/-- zlib ends where the stream does, with all of the member in the cache. -/
theorem Holds.ended (hp : Holds D A plain) (hmethod : A.member.method = Zip.deflated)
    (hs : Sound D A a) (ha : Inflating D A a) (hend : D.ended a.inflater = true) :
    a.cache = plain ∧ a.compressedPending = [] ∧ a.unused = [] ∧
      a.compressedAt = A.member.compressedSize := by
  obtain ⟨hlen, hdecodes⟩ := hp.deflated hmethod
  rw [← List.take_append_drop a.compressedAt (stream A)] at hdecodes
  have hdone := (hdecodes.drive_left a.cache.length).2.2
  rw [ha.drive] at hdone
  obtain ⟨hcache, hrest⟩ := hdone hend
  simp only [List.append_eq_nil_iff, List.drop_eq_nil_iff] at hrest
  refine ⟨hcache, hrest.1.1, hrest.1.2, ?_⟩
  have := hs.at_le
  omega

/-- A run that had room to spare, on the whole stream, has come to its end. -/
theorem Holds.ended_of_room (hp : Holds D A plain) (hmethod : A.member.method = Zip.deflated)
    {n : Nat} {out rest : Bytes} {z : ζ} (hrun : D.drive n (stream A) D.start = (out, rest, z))
    (hroom : out.length < n) : D.ended z = true := by
  obtain ⟨w, hend, hw⟩ := (hp.deflated hmethod).2.drive_ge
  have hshort := D.drive_short (n := n) (c := stream A) (z := D.start) (by rw [hrun]; exact hroom)
    (Nat.le_max_left n plain.length)
  rw [hw _ (Nat.le_max_right _ _), hrun] at hshort
  cases hshort
  exact hend

theorem stream_take_all (hp : Holds D A plain) (hmethod : A.member.method = Zip.deflated)
    (hat : A.member.compressedSize ≤ a.compressedAt) :
    (stream A).take a.compressedAt = stream A :=
  List.take_of_length_le ((hp.deflated hmethod).1 ▸ hat)

/-! ## The loop -/

/-- What the loop does to a handle on an intact member, whichever way it ends. -/
structure Inflated (D : Decoder ζ UInt8 UInt8) (A : Opened) (target : Nat) (a s : Handle ζ) :
    Prop where
  sound : Sound D A s
  inflating : Inflating D A s
  kept : kept s = kept a
  asked : a.asked ≤ s.asked
  within : s.cache.length ≤ max a.cache.length target

theorem Inflated.refl {target : Nat} (hs : Sound D A a) (ha : Inflating D A a) :
    Inflated D A target a a :=
  ⟨hs, ha, rfl, Nat.le_refl _, Nat.le_max_left _ _⟩

/-- A turn on an intact member. -/
theorem Turned.inflated (hp : Holds D A plain) (hmethod : A.member.method = Zip.deflated)
    {target : Nat} (htarget : target ≤ A.member.size) (hs : Sound D A a) (ha : Inflating D A a)
    (hgo : a.inflated < target ∨ target = A.member.size) (h : Turned D A target a s) :
    Inflated D A target a s ∧ ¬ (Stalled D A s ∧ s.cache.length < target) := by
  have hbefore := (hp.cache_prefix hmethod ha).length_le
  have hbegins := (hp.cache_prefix hmethod h.inflating).length_le
  have hsize := hp.matches_.1
  have hlen := D.drive_length_le (a.cache.length + room A a.inflated target)
    ((stream A).take s.compressedAt) D.start
  rw [h.run] at hlen
  have hcount := hs.count
  have hroom : a.cache.length + room A a.inflated target =
      if target = A.member.size then target + 1 else target := by
    unfold room
    split
    · omega
    · omega
  refine ⟨⟨h.sound, h.inflating, h.kept, h.asked, ?_⟩, fun ⟨⟨_, hopen, _, hat⟩, hless⟩ => ?_⟩
  · rw [hroom] at hlen
    split at hlen
    · omega
    · simp only at hlen
      omega
  · have hrun := h.run
    rw [stream_take_all hp hmethod hat] at hrun
    have hend := hp.ended_of_room hmethod hrun (by rw [hroom]; split <;> omega)
    rw [hend] at hopen
    cases hopen

theorem inflateLoop_intact (hp : Holds D A plain) (hmethod : A.member.method = Zip.deflated)
    {target : Nat} (htarget : target ≤ A.member.size) (n : Nat) : ∀ a : Handle ζ, Sound D A a →
      Inflating D A a → turns A a ≤ n →
      Act.Spec (fun s => s = a) (inflateLoop D A target n)
        (fun _ s => Inflated D A target a s ∧ target ≤ s.cache.length)
        (fun e s => Inflated D A target a s ∧
          ((e = .archive ∧ ∃ k, a.asked ≤ k ∧ k < s.asked ∧ A.weather k = .fails) ∨
            (e = .incomplete ∧ Stalled D A a ∧ a.cache.length < target))) := by
  have hsize := hp.matches_.1
  induction n with
  | zero =>
    intro a _ _ hturns
    exact absurd hturns (by unfold turns; omega)
  | succ n ih =>
    intro a hs ha hturns
    have hbegins := hp.cache_prefix hmethod ha
    refine Act.Spec.get_bind (Act.Spec.ite (fun hgo => Act.Spec.ite (fun hend => ?_)
      fun hopen => ?_) fun hstop => ?_)
    · -- The end: everything is in the cache, and it is what the record says.
      obtain ⟨hcache, hpending, hunused, hat⟩ := hp.ended hmethod hs ha hend
      refine (finishInflate_spec hs hend hgo.1).conseq (fun _ => id) ?_ ?_
      · rintro _ s ⟨rfl, hsound, -⟩
        refine ⟨⟨hsound, ⟨ha.drive, ha.unused⟩, rfl, Nat.le_refl _, Nat.le_max_left _ _⟩, ?_⟩
        show target ≤ a.cache.length
        rw [hcache, hsize]
        exact htarget
      · rintro e s ⟨-, ⟨-, -, hbad⟩ | ⟨-, -, -, hbad⟩⟩
        · exact absurd ⟨hpending, hunused, hat⟩ hbad
        · rw [hcache] at hbad
          exact absurd hp.matches_ hbad
    · have hopen : D.ended a.inflater = false := by simpa using hopen
      refine turn_spec hs hopen hgo.1 target (fun s hturn => ?_) fun e s htrip => ?_
      · obtain ⟨hstep, hlive⟩ := hturn.inflated hp hmethod htarget hs ha hgo.2
        have hover : ∀ t, Inflated D A target s t → Inflated D A target a t := fun t ht =>
          ⟨ht.sound, ht.inflating, ht.kept.trans hstep.kept, Nat.le_trans hstep.asked ht.asked, by
            have := ht.within
            have := hstep.within
            omega⟩
        refine (ih s hturn.sound hturn.inflating (by have := hturn.fewer; omega)).conseq
          (fun _ => id) (fun _ t ht => ⟨hover t ht.1, ht.2⟩) ?_
        rintro e t ⟨ht, ⟨rfl, k, hk, hfails⟩ | ⟨-, hstalled⟩⟩
        · exact ⟨hover t ht, Or.inl ⟨rfl, k, Nat.le_trans hstep.asked hk, hfails⟩⟩
        · exact absurd hstalled hlive
      · rcases htrip.why with ⟨rfl, hfails, rfl⟩ | ⟨rfl, rfl, hpending, hat⟩ |
          ⟨-, hat, hlen⟩ |
          ⟨-, hbroken⟩ | ⟨-, hin, hgt⟩
        · exact ⟨⟨htrip.sound, ⟨ha.drive, ha.unused⟩, rfl, Nat.le_succ _, Nat.le_max_left _ _⟩,
            Or.inl ⟨rfl, a.asked, Nat.le_refl _, Nat.lt_succ_self _, hfails⟩⟩
        · refine ⟨Inflated.refl hs ha, Or.inr ⟨rfl, ⟨hmethod, hopen, hpending, hat⟩, ?_⟩⟩
          -- With the whole member in the cache zlib would have seen the stream end.
          by_contra hless
          have hall : s.cache = plain := hbegins.eq_of_length (by
            have := hbegins.length_le
            have := hs.count
            rcases hgo.2 with h | h <;> omega)
          obtain ⟨w, hend, hw⟩ := (hp.deflated hmethod).2.drive_ge
          have hdrive := ha.drive
          rw [stream_take_all hp hmethod hat, hall, hw _ (Nat.le_refl _)] at hdrive
          have hstate : w = s.inflater := congrArg (fun r => r.2.2) hdrive
          rw [← hstate, hend] at hopen
          cases hopen
        · rw [(hp.deflated hmethod).1] at hlen
          omega
        · exfalso
          rcases hbroken with hbroken | ⟨m, k, hbroken⟩
          · have := hp.not_broken hmethod a.cache.length a.compressedAt
            rw [ha.drive, hbroken] at this
            cases this
          · rw [hp.not_broken hmethod m k] at hbroken
            cases hbroken
        · have := (hp.cache_prefix hmethod hin).length_le
          omega
    · refine Act.Spec.pure _ ?_
      rintro s rfl
      refine ⟨Inflated.refl hs ha, ?_⟩
      by_cases hfin : s.finished = true
      · rw [(hs.finished hfin).2.unique (hp.deflated hmethod).2, hsize]
        exact htarget
      · by_contra hless
        exact hstop ⟨by simpa using hfin, Or.inl (by rw [hs.count]; omega)⟩

/-- A stalled handle that is asked for more raises, and stays as it is. -/
theorem stalled_raises (hp : Holds D A plain) (hs : Sound D A a) (hstalled : Stalled D A a)
    {count : Nat} (hless : a.cache.length < min (a.pos + count) A.member.size) :
    readDeflated D A count a = (.error .incomplete, a) := by
  obtain ⟨hmethod, hopen, hpending, hat⟩ := hstalled
  have hfin : a.finished = false := by
    by_contra hdone
    have hcache := (hs.finished (by simpa using hdone)).2.unique (hp.deflated hmethod).2
    have := hp.matches_.1
    rw [hcache] at hless
    omega
  have hnext : nextCompressed A a = (.error .incomplete, a) := by
    show (if _ then _ else _ : Act (Handle ζ) Fault Bytes) a = _
    rw [if_neg (by simp [hpending]), if_pos hat]
    rfl
  have hloop : ∀ n, inflateLoop D A (min (a.pos + count) A.member.size) (n + 1) a =
      (.error .incomplete, a) := by
    intro n
    show (if _ then _ else _ : Act (Handle ζ) Fault Unit) a = _
    rw [if_pos ⟨hfin, Or.inl (by rw [hs.count]; exact hless)⟩, if_neg (by simp [hopen])]
    exact Act.bind_of_error hnext _
  show ((inflateTo D A (a.pos + count) >>= _) a) = _
  exact Act.bind_of_error (hloop _) _

/-! ## The calls -/

/-- A handle on an intact member, between calls. -/
structure Sane (D : Decoder ζ UInt8 UInt8) (A : Opened) (h : Handle ζ) : Prop where
  sound : Sound D A h
  inflating : A.member.method = deflated → Inflating D A h
  cache : A.member.method = stored → h.cache = []

theorem slice_of_prefix {cache plain : Bytes} (h : cache <+: plain) {pos count : Nat}
    (hle : pos + count ≤ cache.length) : slice cache pos count = slice plain pos count := by
  obtain ⟨more, rfl⟩ := h
  unfold slice
  rw [List.drop_append_of_le_length (by omega), List.take_append_of_le_length (by simp; omega)]

/-- What the archive gives for a stored member: the bytes asked for, or fewer. -/
theorem ranged_intact (hp : Holds D A plain) (hmethod : A.member.method = stored) {count : Nat}
    (hcount : count ≤ A.member.size - a.pos) (hpos : a.pos < A.member.size) {data : Bytes}
    (hranged : ranged A a count = .ok data) :
    (data = slice plain a.pos count ∧ data.length = count) ∨
      ∃ less, A.weather a.asked = .part less ∧ less + 1 < count ∧ data.length ≠ count := by
  have hsize := hp.matches_.1
  have hslice := hp.stored hmethod
  have hlength : (slice plain a.pos count).length = count := by
    rw [length_slice]
    omega
  have hgiven : slice A.archive (A.member.dataOffset + a.pos) count = slice plain a.pos count := by
    rw [← hslice, slice_slice A.archive (by omega)]
  unfold ranged given at hranged
  split at hranged
  · cases hranged
    exact .inl ⟨hgiven, hgiven ▸ hlength⟩
  · next less hpart =>
    cases hranged
    rcases Nat.lt_or_ge (less + 1) count with hless | hmore
    · refine .inr ⟨less, hpart, hless, ?_⟩
      rw [length_slice]
      omega
    · rw [Nat.min_eq_left hmore]
      exact .inl ⟨hgiven, hgiven ▸ hlength⟩
  · cases hranged

/-- What a read for `count` bytes leaves, and what it returns. -/
theorem readMember_intact (hp : Holds D A plain) (ha : Sane D A a) {count : Nat} (hcount : count ≤ A.member.size - a.pos) (hpos : a.pos < A.member.size) :
    Act.Spec (fun s => s = a) (readMember D A count)
      (fun data s => Sane D A s ∧ s.pos = a.pos ∧ a.asked ≤ s.asked ∧ data = slice plain a.pos count ∧
        s.cache.length ≤ max a.cache.length (a.pos + count))
      (fun e s => Sane D A s ∧ s.pos = a.pos ∧
        s.cache.length ≤ max a.cache.length (a.pos + count) ∧
        ((e = .archive ∧ ∃ k, a.asked ≤ k ∧ k < s.asked ∧ A.weather k = .fails) ∨
          (e = .incomplete ∧ Stalled D A a ∧ a.cache.length < a.pos + count) ∨
          (e = .endedStored ∧ A.member.method = stored ∧
            ∃ less, A.weather a.asked = .part less ∧ less + 1 < count))) := by
  rcases A.supported with hmethod | hmethod
  · have hslice := hp.stored hmethod
    have hne : A.member.method ≠ deflated := fun h => method_ne (hmethod.symm.trans h)
    have hdata : ∀ data, ranged A a count = .ok data → data.length = count →
        data = slice plain a.pos count := fun data hranged hlen =>
      (ranged_intact hp hmethod hcount hpos hranged).elim And.left fun ⟨_, _, _, h⟩ => absurd hlen h
    have hsane : ∀ s : Handle ζ, Sound D A s → s.cache = a.cache → Sane D A s := fun s hs hc =>
      ⟨hs, fun h => absurd h hne, fun _ => hc.trans (ha.cache hmethod)⟩
    unfold readMember
    rw [if_pos hmethod]
    refine (readStored_spec count).conseq (fun _ => id) ?_ ?_
    · rintro data s ⟨hranged, hlen, hs⟩
      rcases hs with ⟨-, hat, rfl, -⟩ | ⟨-, rfl⟩
      · exact ⟨hsane _ (ha.sound.summed hranged hlen hat hcount) rfl, rfl, Nat.le_succ _,
          hdata _ hranged hlen, Nat.le_max_left _ _⟩
      · exact ⟨hsane _ (ha.sound.gap _) rfl, rfl, Nat.le_succ _, hdata _ hranged hlen,
          Nat.le_max_left _ _⟩
    · rintro e s hs
      rcases hs with ⟨rfl, ⟨rfl, hfails⟩ | ⟨rfl, data, hranged, hne'⟩⟩ |
        ⟨data, hranged, hlen, -, hat, rfl, hall, hcrc, -⟩
      · exact ⟨hsane _ (ha.sound.of_ask a.pos _) rfl, rfl, Nat.le_max_left _ _,
          Or.inl ⟨rfl, a.asked, Nat.le_refl _, Nat.lt_succ_self _, hfails⟩⟩
      · rcases ranged_intact hp hmethod hcount hpos hranged with ⟨-, hlen⟩ | ⟨less, hpart, hless, -⟩
        · exact absurd hlen hne'
        · exact ⟨hsane _ (ha.sound.of_ask a.pos _) rfl, rfl, Nat.le_max_left _ _,
            .inr (.inr ⟨rfl, hmethod, less, hpart, hless⟩)⟩
      · have hsummed := ha.sound.summed hranged hlen hat hcount
        rw [hsummed.storedCrc, hall, hslice] at hcrc
        exact absurd hp.matches_.2 hcrc
  · have hne : A.member.method ≠ stored := fun h => method_ne (h.symm.trans hmethod)
    have hsane : ∀ s : Handle ζ, Inflated D A (min (a.pos + count) A.member.size) a s →
        Sane D A s ∧ s.pos = a.pos ∧ s.cache.length ≤ max a.cache.length (a.pos + count) :=
      fun s hs => ⟨⟨hs.sound, fun _ => hs.inflating, fun h => absurd h hne⟩,
        congrArg Prod.fst hs.kept, by have := hs.within; omega⟩
    unfold readMember
    rw [if_neg hne]
    refine Act.Spec.get_bind (Act.Spec.bind (Act.Spec.get_bind
      ((inflateLoop_intact hp hmethod (Nat.min_le_right _ _) _ a ha.sound (ha.inflating hmethod)
        (Nat.le_refl _)).conseq (fun _ => id) (fun _ _ => id) ?_)) fun _ => ?_)
    · rintro e s ⟨hs, herr⟩
      obtain ⟨hs1, hs2, hs3⟩ := hsane s hs
      refine ⟨hs1, hs2, hs3, herr.imp_right fun h => .inl ⟨h.1, h.2.1, by omega⟩⟩
    · rintro s ⟨hs, hle⟩
      obtain ⟨hs1, hs2, hs3⟩ := hsane s hs
      exact ⟨hs1, hs2, hs.asked, slice_of_prefix (hp.cache_prefix hmethod hs.inflating) (by omega),
        hs3⟩

/-- A stored member's read fails where the archive gives fewer bytes than it was asked for. -/
theorem short_raises (hmethod : A.member.method = stored) {less count : Nat}
    (hpart : A.weather a.asked = .part less) (hless : less + 1 < count) :
    readMember D A count a = (.error .endedStored, { a with asked := a.asked + 1 }) := by
  have hranged : ∀ data, ranged A a count = .ok data → data.length ≠ count := by
    intro data h
    unfold ranged given at h
    rw [hpart] at h
    cases h
    rw [length_slice]
    omega
  unfold readMember
  rw [if_pos hmethod]
  rcases hread : readStored A count a with ⟨e | data, s⟩
  · obtain ⟨rfl, ⟨-, hfails⟩ | ⟨rfl, -⟩⟩ | ⟨data, h, hlen, -⟩ := (readStored_spec count).error rfl hread
    · rw [hpart] at hfails
      cases hfails
    · rfl
    · exact absurd hlen (hranged data h)
  · obtain ⟨h, hlen, -⟩ := (readStored_spec count).ok rfl hread
    exact absurd hlen (hranged data h)

theorem Sane.of_ask (ha : Sane D A a) (asked : Nat) : Sane D A { a with asked := asked } :=
  ⟨ha.sound.of_ask a.pos asked, fun h => ⟨(ha.inflating h).drive, (ha.inflating h).unused⟩, ha.cache⟩

theorem Sane.of_pos (ha : Sane D A a) (pos : Nat) : Sane D A { a with pos := pos } :=
  ⟨ha.sound.of_ask pos a.asked, fun h => ⟨(ha.inflating h).drive, (ha.inflating h).unused⟩,
    ha.cache⟩

/-- What one call does to a handle on an intact member. -/
structure Called (D : Decoder ζ UInt8 UInt8) (A : Opened) (plain : Bytes) (a : Handle ζ)
    (call : Call) : Prop where
  sane : Sane D A (call.run D A a).2
  within : (call.run D A a).2.cache.length ≤ max a.cache.length (reach A a call)
  ends : (call.run D A a).1 ≠ .error .spun
  agrees : Agrees D A plain a call ↔ ¬ AsksStalled D A a call ∧ ¬ GivenShort A a call

theorem seek_called (hp : Holds D A plain) (ha : Sane D A a) (offset whence : Int) :
    Called D A plain a (.seek offset whence) := by
  have hsize := hp.matches_.1
  have hnot : ¬ AsksStalled D A a (.seek offset whence) ∧ ¬ GivenShort A a (.seek offset whence) :=
    ⟨fun ⟨_, h, _⟩ => (nomatch h), fun ⟨_, _, h, _⟩ => (nomatch h)⟩
  have htarget : localCall plain a.pos (.seek offset whence) =
      match seekTarget A a.pos offset whence with
      | .error e => (.error e, a.pos)
      | .ok target =>
        if target < 0 then (.error .negativeSeek, a.pos)
        else (.ok (.position target.toNat), target.toNat) := by
    unfold localCall seekTarget
    rw [hsize]
  have hseek := seek_eq (A := A) offset whence a
  cases hto : seekTarget A a.pos offset whence with
  | error e =>
    rw [hto] at htarget hseek
    have hrun : (Call.seek offset whence).run D A a = (.error e, a) := Act.bind_of_error hseek _
    refine ⟨by rw [hrun]; exact ha, by rw [hrun]; exact Nat.le_max_left _ _, ?_, ?_⟩
    · rw [hrun]
      intro he
      cases he
      unfold seekTarget at hto
      repeat' split at hto
      all_goals cases hto
    · refine ⟨fun _ => hnot, fun _ => Or.inl ?_⟩
      rw [hrun, htarget]
  | ok target =>
    rw [hto] at htarget hseek
    dsimp only at htarget hseek
    split at hseek
    · next hneg =>
      have hrun : (Call.seek offset whence).run D A a = (.error .negativeSeek, a) :=
        Act.bind_of_error hseek _
      refine ⟨by rw [hrun]; exact ha, by rw [hrun]; exact Nat.le_max_left _ _,
        by rw [hrun]; nofun, fun _ => hnot, fun _ => Or.inl ?_⟩
      rw [hrun, htarget, if_pos hneg]
    · next hneg =>
      have hrun : (Call.seek offset whence).run D A a =
          (.ok (.position target.toNat), { a with pos := target.toNat }) :=
        Act.bind_of_ok hseek _
      refine ⟨by rw [hrun]; exact ha.of_pos _, by rw [hrun]; exact Nat.le_max_left _ _,
        by rw [hrun]; nofun, fun _ => hnot, fun _ => Or.inl ?_⟩
      rw [hrun, htarget, if_neg hneg]

theorem readinto_called (hp : Holds D A plain) (ha : Sane D A a) (length : Nat) : Called D A plain a (.readinto length) := by
  have hsize := hp.matches_.1
  have hread := readinto_eq (D := D) (A := A) length a
  have hlocal : slice plain a.pos length = slice plain a.pos (min length (A.member.size - a.pos)) := by
    unfold slice
    rw [List.take_eq_take_min, List.length_drop, hsize]
  by_cases hnone : min length (A.member.size - a.pos) = 0
  · rw [if_pos hnone] at hread
    have hrun : (Call.readinto length).run D A a = (.ok (.bytes []), a) := Act.bind_of_ok hread _
    refine ⟨by rw [hrun]; exact ha, by rw [hrun]; exact Nat.le_max_left _ _,
      by rw [hrun]; nofun, fun _ => ?_, fun _ => Or.inl ?_⟩
    · refine ⟨?_, ?_⟩
      · rintro ⟨n, h, -, hpos, hn, -⟩
        cases h
        omega
      · rintro ⟨n, less, h, -, -, hless⟩
        cases h
        omega
    · have hempty : slice plain a.pos length = [] := by
        rw [hlocal, hnone]
        exact List.take_zero
      rw [hrun]
      simp only [localCall, hempty]
      rfl
  have hpos : a.pos < A.member.size := by omega
  have hreach : reach A a (.readinto length) = a.pos + min length (A.member.size - a.pos) := by
    show (if a.pos < A.member.size then min (a.pos + length) A.member.size else 0) = _
    rw [if_pos hpos]
    omega
  rw [if_neg hnone] at hread
  by_cases hasks : AsksStalled D A a (.readinto length)
  · -- The one read that a local file would have answered.
    obtain ⟨n, h, hstalled, -, -, hless⟩ := id hasks
    cases h
    have hmember : readMember D A (min length (A.member.size - a.pos)) a =
        (.error .incomplete, a) := by
      unfold readMember
      rw [if_neg fun h => method_ne (h.symm.trans hstalled.1)]
      exact stalled_raises hp ha.sound hstalled (by omega)
    rw [hmember] at hread
    have hrun : (Call.readinto length).run D A a = (.error .incomplete, a) :=
      Act.bind_of_error hread _
    refine ⟨by rw [hrun]; exact ha, by rw [hrun]; exact Nat.le_max_left _ _,
      by rw [hrun]; nofun, fun hagrees => ?_, fun h => absurd hasks h.1⟩
    unfold Agrees at hagrees
    rw [hrun] at hagrees
    rcases hagrees with h | ⟨h, -⟩
    · cases h
    · cases h
  by_cases hshort : GivenShort A a (.readinto length)
  · obtain ⟨n, less, h, hmethod, hpart, hless⟩ := id hshort
    cases h
    have hmember := short_raises (D := D) hmethod hpart hless
    rw [hmember] at hread
    have hrun : (Call.readinto length).run D A a = (.error .endedStored, { a with asked := a.asked + 1 }) :=
      Act.bind_of_error hread _
    refine ⟨by rw [hrun]; exact ha.of_ask _, by rw [hrun]; exact Nat.le_max_left _ _,
      by rw [hrun]; nofun, fun hagrees => ?_, fun h => absurd hshort h.2⟩
    unfold Agrees at hagrees
    rw [hrun] at hagrees
    rcases hagrees with h | ⟨h, -⟩
    · cases h
    · cases h
  have hspec := readMember_intact hp ha (Nat.min_le_right length (A.member.size - a.pos)) hpos
  rcases hmember : readMember D A (min length (A.member.size - a.pos)) a with ⟨e | data, s⟩
  · rw [hmember] at hread
    have hrun : (Call.readinto length).run D A a = (.error e, s) := Act.bind_of_error hread _
    obtain ⟨hs, hspos, hwithin, ⟨rfl, hfails⟩ | ⟨rfl, hstalled, hless⟩ | ⟨rfl, hmethod, less, hpart, hless⟩⟩ :=
      hspec.error rfl hmember
    · refine ⟨by rw [hrun]; exact hs, by rw [hrun, hreach]; exact hwithin,
        by rw [hrun]; nofun, fun _ => ⟨hasks, hshort⟩, fun _ => Or.inr ?_⟩
      rw [hrun]
      exact ⟨rfl, hspos, hfails⟩
    · exact absurd ⟨length, rfl, hstalled, hpos, by omega, by omega⟩ hasks
    · exact absurd ⟨length, less, rfl, hmethod, hpart, hless⟩ hshort
  · rw [hmember] at hread
    have hrun : (Call.readinto length).run D A a =
        (.ok (.bytes data), { s with pos := s.pos + data.length }) := Act.bind_of_ok hread _
    obtain ⟨hs, hspos, -, hdata, hwithin⟩ := hspec.ok rfl hmember
    refine ⟨by rw [hrun]; exact hs.of_pos _, by rw [hrun, hreach]; exact hwithin,
      by rw [hrun]; nofun, fun _ => ⟨hasks, hshort⟩, fun _ => Or.inl ?_⟩
    rw [hrun]
    simp only [localCall, hlocal, hspos, hdata]

theorem called (hp : Holds D A plain) (ha : Sane D A a) (call : Call) : Called D A plain a call := by
  cases call with
  | seek offset whence => exact seek_called hp ha offset whence
  | readinto length => exact readinto_called hp ha length

/-! ## Runs -/

theorem furthest_concat (calls : List Call) (call : Call) :
    furthest D A (calls ++ [call]) = max (furthest D A calls) (reach A (after D A calls) call) := by
  have hfirst : ∀ (calls : List Call) (state : Handle ζ × Nat),
      (calls.foldl (fun (state : Handle ζ × Nat) call =>
        ((call.run D A state.1).2, max state.2 (reach A state.1 call))) state).1 =
      calls.foldl (fun h call => (call.run D A h).2) state.1 := by
    intro calls
    induction calls with
    | nil => exact fun _ => rfl
    | cons call calls ih => exact fun state => ih _
  unfold furthest after
  rw [List.foldl_concat]
  dsimp only
  rw [hfirst]

theorem sane_new : Sane D A (Handle.new D) :=
  ⟨sound_new D A, fun _ => ⟨rfl, fun _ => rfl⟩, fun _ => rfl⟩

theorem after_sane (hp : Holds D A plain) (calls : List Call) :
    Sane D A (after D A calls) ∧ (after D A calls).cache.length ≤ furthest D A calls := by
  induction calls using List.reverseRecOn with
  | nil => exact ⟨sane_new, Nat.le_refl _⟩
  | append_singleton calls call ih =>
    have hcall := called hp ih.1 call
    rw [after_concat, furthest_concat]
    refine ⟨hcall.sane, ?_⟩
    have := hcall.within
    have := ih.2
    omega

/-- Over any run on an intact member: every call is that of a local file that holds the
plain bytes, exactly if no read asks for more once zlib has taken in the whole stream
and still owes plain bytes, and no read of a stored member is given fewer bytes by the
archive than it asked for. -/
theorem plain_file_iff (hp : Holds D A plain) (calls : List Call) :
    (∀ before call rest, calls = before ++ call :: rest → FileLike D A plain before call) ↔
      ∀ before call rest, calls = before ++ call :: rest →
        ¬ AsksStalled D A (after D A before) call ∧ ¬ GivenShort A (after D A before) call := by
  have hcalled : ∀ before call, Called D A plain (after D A before) call := fun before call =>
    called hp (after_sane hp before).1 call
  refine ⟨fun hall before call rest hcalls => ?_, fun hnone before call rest hcalls =>
    ⟨?_, (hcalled before call).ends, ?_⟩⟩
  · exact (hcalled before call).agrees.mp (hall before call rest hcalls).1
  · exact (hcalled before call).agrees.mpr (hnone before call rest hcalls)
  · exact Nat.le_succ_of_le (after_sane hp (before ++ [call])).2

/-! ## A stream that zlib has taken in before it has given it all -/

/-- The raw deflate stream of 21 NULs, as zlib reads it: two literals, then one match
that the last byte belongs to. -/
def nulScript : List Cue :=
  [.takes 0x63, .takes 0x60, .gives 0, .takes 0xc0, .gives 0, .takes 0x02, .takes 0x00] ++
    List.replicate 19 (.gives 0)

def nulMember : Opened where
  archive := [0x63, 0x60, 0xc0, 0x02, 0x00]
  weather := fun _ => .whole
  member :=
    { name := "nul".toList, size := 21, compressedSize := 5, offset := 0, method := deflated,
      crc32 := (crc32 (List.replicate 21 0) 0).toNat, flags := 0, dataOffset := 0 }
  plain := rfl
  supported := Or.inr rfl
  sizes := fun h => absurd h (by decide)

theorem nulMember_holds : Holds (scripted nulScript) nulMember (List.replicate 21 0) where
  matches_ := ⟨rfl, rfl⟩
  deflated := fun _ => ⟨rfl, some [], by decide +kernel, rfl⟩
  stored := fun h => absurd h (by decide)

/-- Read as a whole, it is read as a local file is. -/
theorem plain_file_iff_nul :
    FileLike (scripted nulScript) nulMember (List.replicate 21 0) [] (.readinto 21) :=
  (plain_file_iff nulMember_holds [.readinto 21]).mpr (by
    intro before call rest hcalls
    refine ⟨?_, fun ⟨_, _, _, hmethod, _⟩ => absurd hmethod (by decide)⟩
    rintro ⟨length, rfl, ⟨-, -, -, hat⟩, -⟩
    have hfirst : before = [] := by
      cases before with
      | nil => rfl
      | cons first before => simp at hcalls
    subst hfirst
    exact absurd hat (by decide)) [] (.readinto 21) [] rfl

/-- Read two bytes at first, the rest of an intact member cannot be read. -/
theorem short_read_stalls :
    Holds (scripted nulScript) nulMember (List.replicate 21 0) ∧
      ¬ FileLike (scripted nulScript) nulMember (List.replicate 21 0) [.readinto 2]
        (.readinto 19) := by
  refine ⟨nulMember_holds, fun h => ?_⟩
  obtain ⟨hagrees | ⟨hagrees, -⟩, -⟩ := h
  · revert hagrees
    decide +kernel
  · revert hagrees
    decide +kernel

end XrdClient.Zip
