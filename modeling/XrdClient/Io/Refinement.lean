/-
  Io/Refinement.lean --- a raw file does what a local file does.

  Source: `io/raw.py`, over `read`, `readinto`, `write`, `truncate` and `size` of a file.

  The handle of a raw file is kept `Sound`: its size is right, nothing is read ahead, and
  what it may do is what the mode says.  One call then returns what the local file returns
  and leaves what it leaves, whichever paths serve it, unless a data path stores something
  of a chunk that is to be appended and does not answer for it (`step_refines`).
-/
import XrdClient.Client.Sizes
import XrdClient.Client.Stored
import XrdClient.Io.Raw

set_option autoImplicit false

namespace XrdClient.Io

open XrdClient.Lib
open XrdClient.Client
open XrdClient.Client.File (Steady Standing Resets Honest Fresh NothingStray eventChunks)

/-! ## A file that nothing is read ahead of -/

/-- Nothing is kept ahead, and a read that went before, if any, went to the end. -/
def Unread (b : File) (ahead : Nat × Bytes) (sequel _window : Int) : Prop :=
  ahead = (0, []) ∧ (sequel = -1 ∨ b.flags.writing = false ∧ sequel = b.server.length)

theorem unread_resets (b : File) : Resets (Unread b) := fun _ _ _ _ => ⟨rfl, .inl rfl⟩

section

variable {b : File} {w : Weather} {size offset : Nat}

/-- A read to the end does not go on from one before it. -/
theorem sequential_whole_spec (hsize : size ≠ 0) (hend : offset + size = b.server.length)
    (hreads : b.flags.writing = false) (hhonest : Honest b w size offset) :
    Act.Spec (Standing (Unread b) False b) (File.sequential w size offset)
      (fun got s => (∀ data, got = some data → data = slice b.server offset size) ∧
        Standing (Unread b) False b s)
      (fun _ s => Steady (Unread b) b s ∧ ¬ False) := by
  refine Act.Spec.of_each fun f hf => Act.Spec.get_bind ?_
  obtain ⟨hahead, hsequel⟩ := hf.1.ahead
  refine Act.Spec.ite (fun hinside => ?_) fun _ => Act.Spec.ite (fun _ => ?_) fun hstreak => ?_
  · rw [hahead] at hinside
    have := hinside.2
    simp only [List.length_nil] at this
    omega
  · refine Act.Spec.modify_bind ((File.planeRead_spec (unread_resets b) hsize hhonest nofun).conseq
      (fun s hs => ?_) (fun _ _ hs => hs) fun _ _ hs => hs)
    subst hs
    have hlast : ((offset + size : Nat) : Int) = b.server.length := by rw [hend]
    exact ⟨⟨hf.1.config, hf.1.flags, hf.1.recoverHandles, hf.1.checkpoint, hf.1.journal, hf.1.server,
      hf.1.told, hahead, .inr ⟨hreads, hlast⟩⟩, nofun⟩
  · have : (offset : Int) = f.sequel := not_not.mp hstreak
    omega

/-- A read to the end returns everything that there is. -/
theorem read_whole_spec (w : Weather) (offset : Nat)
    (hhonest : b.config.bulk = true → Honest b w (b.server.length - offset) offset) :
    Act.Spec (Standing (Unread b) False b) (File.read w (-1) offset)
      (fun data s => data = b.server.drop offset ∧ Standing (Unread b) False b s)
      (fun _ s => Steady (Unread b) b s ∧ ¬ False) := by
  refine Act.Spec.bind (File.readSize_spec (unread_resets b) nofun nofun) fun n =>
    Act.Spec.of_each fun f hf => ?_
  obtain ⟨rfl, hstanding⟩ := hf
  rw [if_pos (by decide)]
  have hsome : Act.Spec (Standing (Unread b) False b) (File.readSome w (b.server.length - offset) offset)
      (fun data s => data = slice b.server offset (b.server.length - offset) ∧ Standing (Unread b) False b s)
      (fun _ s => Steady (Unread b) b s ∧ ¬ False) := by
    refine File.readSome_of_sequential (unread_resets b) (fun hsize hbulk hahead => ?_) hhonest nofun nofun
    rw [File.readsAhead, Bool.and_eq_true, Bool.not_eq_true'] at hahead
    exact sequential_whole_spec hsize (by omega) hahead.2 (hhonest hbulk)
  refine hsome.conseq (fun s hs => hs ▸ hstanding) (fun data s hs => ⟨?_, hs.2⟩) fun _ _ hs => hs
  rw [hs.1, slice, ← List.length_drop, List.take_length]

end

/-! ## What holds between the calls -/

/-- A handle that is as its mode says, and the only one that writes. -/
structure Sound (raw : XRootDRawIO) : Prop where
  fresh : Fresh raw.file
  ahead : Unread raw.file raw.file.ahead raw.file.sequel raw.file.window
  append : raw.file.flags.append = decide (raw.base = .a)
  writing : raw.writable = true → raw.file.flags.writing = true
  checkpoint : raw.file.checkpoint = false

/-- The raw file and the local one are the same to their callers. -/
structure Like (raw : XRootDRawIO) (loc : LocalFile) : Prop where
  pos : raw.pos = loc.pos
  content : raw.file.server = loc.content
  append : loc.append = decide (raw.base = .a)
  readable : raw.readable = loc.readable
  writable : raw.writable = loc.writable

variable {raw : XRootDRawIO} {loc : LocalFile}

theorem Sound.standing (h : Sound raw) : Standing (Unread raw.file) False raw.file raw.file :=
  ⟨⟨rfl, rfl, rfl, rfl, rfl, rfl, h.fresh, h.ahead⟩, nofun⟩

/-- What was read of the file leaves it sound. -/
theorem Sound.steady (h : Sound raw) {f : File} (hf : Steady (Unread raw.file) raw.file f) (pos : Nat) :
    Sound { raw with file := f, pos } where
  fresh := File.fresh_of_steady hf
  ahead := by
    have := hf.ahead
    rwa [Unread, ← hf.flags, ← hf.server] at this
  append := by rw [hf.flags, h.append]
  writing hw := by rw [hf.flags, h.writing hw]
  checkpoint := by rw [hf.checkpoint, h.checkpoint]

/-- So does what is written to it. -/
theorem Sound.written (h : Sound raw) (hwritable : raw.writable = true) {f : File} (hstat : f.stat = none)
    (hrest : f.rest = raw.file.rest) (pos : Nat) : Sound { raw with file := f, pos } where
  fresh := File.fresh_of_none hstat
  ahead := by
    have hahead := congrArg File.ahead hrest
    have hsequel := congrArg File.sequel hrest
    obtain ⟨hnothing, hbefore⟩ := h.ahead
    refine ⟨hahead.trans hnothing, .inl ?_⟩
    obtain hnone | ⟨hreads, -⟩ := hbefore
    · exact hsequel.trans hnone
    · exact absurd (h.writing hwritable) (by rw [hreads]; decide)
  append := (congrArg (fun f => f.flags.append) hrest).trans h.append
  writing hw := (congrArg (fun f => f.flags.writing) hrest).trans (h.writing hw)
  checkpoint := (congrArg File.checkpoint hrest).trans h.checkpoint

theorem Like.moved (h : Like raw loc) {f : File} (hserver : f.server = raw.file.server) (pos : Nat) :
    Like { raw with file := f, pos } { loc with pos } :=
  ⟨rfl, hserver.trans h.content, h.append, h.readable, h.writable⟩

/-- The bytes that the bulk plane brings are what the server has. -/
def Truthful (raw : XRootDRawIO) (call : Call) (w : CallWeather) : Prop :=
  match call with
  | .readinto view => raw.file.config.bulk = true → Honest raw.file w.reads view.length raw.pos
  | .readall =>
      raw.file.config.bulk = true → Honest raw.file w.reads (raw.file.server.length - raw.pos) raw.pos
  | _ => True

/-- No data path stores anything of a chunk that is to be appended without answering for it. -/
def Unrepeated (raw : XRootDRawIO) (call : Call) (w : CallWeather) : Prop :=
  match call with
  | .write data => raw.base = .a → NothingStray w.writes.ways (raw.file.eventChunks data)
  | _ => True

/-! ## One call -/

namespace XRootDRawIO

theorem checkReadable_spec : Act.Spec (fun s => s = raw) checkReadable
    (fun _ s => s = raw ∧ raw.readable = true) fun _ _ => True :=
  Act.Spec.get_bind (Act.Spec.ite (fun _ => Act.Spec.throw _ fun _ _ => trivial) fun _ =>
    Act.Spec.ite (fun h => Act.Spec.pure _ fun _ hs => ⟨hs, h⟩) fun _ => Act.Spec.throw _ fun _ _ => trivial)

theorem checkWritable_spec : Act.Spec (fun s => s = raw) checkWritable
    (fun _ s => s = raw ∧ raw.writable = true) fun _ _ => True :=
  Act.Spec.get_bind (Act.Spec.ite (fun _ => Act.Spec.throw _ fun _ _ => trivial) fun _ =>
    Act.Spec.ite (fun h => Act.Spec.pure _ fun _ hs => ⟨hs, h⟩) fun _ => Act.Spec.throw _ fun _ _ => trivial)

/-- A call on the file of a sound handle. -/
theorem onFile_spec (hsound : Sound raw) {α : Type} {x : File.Op α} {O : α → Prop} {E : FileError → File → Prop}
    (h : Act.Spec (Standing (Unread raw.file) False raw.file) x
      (fun v s => O v ∧ Standing (Unread raw.file) False raw.file s) E) :
    Act.Spec (fun s => s = raw) (onFile x)
      (fun v s => O v ∧ ∃ f, Steady (Unread raw.file) raw.file f ∧ s = { raw with file := f })
      fun _ _ => True :=
  (Act.Spec.zoom h hsound.standing).conseq (fun _ hs => hs)
    (fun _ _ ⟨f, hf, hs⟩ => ⟨hf.1, f, hf.2.1, hs⟩) fun _ _ _ => trivial

theorem readinto_refines (hsound : Sound raw) (w : Weather) (view : Bytes)
    (hhonest : raw.file.config.bulk = true → Honest raw.file w view.length raw.pos) :
    Act.Spec (fun s => s = raw) (readinto w view)
      (fun got s => raw.readable = true ∧ ∃ data f, data = slice raw.file.server raw.pos view.length ∧
        got = (data.length, data ++ view.drop data.length) ∧
        Steady (Unread raw.file) raw.file f ∧ s = { raw with file := f, pos := raw.pos + data.length })
      fun _ _ => True := by
  refine Act.Spec.bind checkReadable_spec fun _ => Act.Spec.of_each fun s hs => ?_
  obtain ⟨rfl, hreadable⟩ := hs
  refine Act.Spec.ite (fun hempty => Act.Spec.pure _ fun s hs => ?_) fun _ => Act.Spec.get_bind ?_
  · subst hs
    refine ⟨hreadable, [], s.file, ?_, ?_, hsound.standing.1, rfl⟩
    · simp [hempty, slice]
    · simp [hempty]
  · refine Act.Spec.bind (onFile_spec hsound (File.readinto_spec (unread_resets _) hhonest False.elim False.elim))
      fun got => ?_
    rintro s ⟨hgot, f, hf, rfl⟩
    exact ⟨hreadable, got, f, hgot, rfl, hf, rfl⟩

theorem readall_refines (hsound : Sound raw) (stat : Nat → Meeting) (w : Weather)
    (hhonest : raw.file.config.bulk = true →
      Honest raw.file w (raw.file.server.length - raw.pos) raw.pos) :
    Act.Spec (fun s => s = raw) (readall stat w)
      (fun data s => raw.readable = true ∧ data = raw.file.server.drop raw.pos ∧
        ∃ f, Steady (Unread raw.file) raw.file f ∧ s = { raw with file := f, pos := raw.pos + data.length })
      fun _ _ => True := by
  refine Act.Spec.bind checkReadable_spec fun _ => Act.Spec.of_each fun s hs => ?_
  obtain ⟨rfl, hreadable⟩ := hs
  refine Act.Spec.bind (onFile_spec hsound (File.askStat_spec (o := False) (unread_resets _) nofun true))
    fun _ => ?_
  rintro _ ⟨-, f, hf, rfl⟩
  have hread := (read_whole_spec w s.pos hhonest).conseq (fun t (ht : t = f) => ⟨ht ▸ hf, nofun⟩)
    (fun _ _ hs => hs) fun _ _ hs => hs
  have hrest : Act.Spec (fun t => t = { s with file := f })
      (do
        let raw ← Act.get
        let data ← onFile (File.read w (-1) raw.pos)
        Act.modify fun raw => { raw with pos := raw.pos + data.length }
        pure data)
      (fun data t => s.readable = true ∧ data = s.file.server.drop s.pos ∧
        ∃ f, Steady (Unread s.file) s.file f ∧ t = { s with file := f, pos := s.pos + data.length })
      fun _ _ => True := by
    refine Act.Spec.get_bind (Act.Spec.bind ((Act.Spec.zoom hread rfl).conseq (fun _ hs => hs)
      (fun _ _ hs => hs) fun _ _ _ => trivial) fun data => ?_)
    rintro _ ⟨g, hg, rfl⟩
    exact ⟨hreadable, hg.1, g, hg.2.1, rfl⟩
  exact hrest _ rfl

theorem seek_refines (hsound : Sound raw) (stat : Nat → Meeting) (offset whence : Int) :
    Act.Spec (fun s => s = raw) (seek stat offset whence)
      (fun n s => 0 ≤ n ∧
        (whence = SEEK_SET ∧ n = offset ∨ whence = SEEK_CUR ∧ n = raw.pos + offset ∨
          whence = SEEK_END ∧ n = raw.file.server.length + offset) ∧
        ∃ f, Steady (Unread raw.file) raw.file f ∧ s = { raw with file := f, pos := n.toNat })
      fun _ _ => True := by
  have hsame : ∃ f, Steady (Unread raw.file) raw.file f ∧ raw = { raw with file := f } :=
    ⟨raw.file, hsound.standing.1, rfl⟩
  have htarget : Act.Spec (fun s => s = raw) (target stat offset whence)
      (fun n s => (whence = SEEK_SET ∧ n = offset ∨ whence = SEEK_CUR ∧ n = raw.pos + offset ∨
          whence = SEEK_END ∧ n = raw.file.server.length + offset) ∧
        ∃ f, Steady (Unread raw.file) raw.file f ∧ s = { raw with file := f })
      fun _ _ => True := by
    refine Act.Spec.get_bind (Act.Spec.ite (fun h => ?_) fun _ => Act.Spec.ite (fun h => ?_) fun _ =>
      Act.Spec.ite (fun h => ?_) fun _ => Act.Spec.throw _ fun _ _ => trivial)
    · exact Act.Spec.pure _ fun s hs => ⟨.inl ⟨h, rfl⟩, by rwa [hs]⟩
    · exact Act.Spec.pure _ fun s hs => ⟨.inr (.inl ⟨h, rfl⟩), by rwa [hs]⟩
    · exact Act.Spec.bind (onFile_spec hsound (File.size_spec (o := False) (unread_resets _) nofun))
        fun n => Act.Spec.pure _ fun s hs => ⟨.inr (.inr ⟨h, by rw [hs.1]⟩), hs.2⟩
  refine Act.Spec.bind htarget fun n => Act.Spec.ite (fun _ => Act.Spec.throw _ fun _ _ => trivial)
    fun hpos => ?_
  rintro _ ⟨hn, f, hf, rfl⟩
  exact ⟨Int.not_lt.mp hpos, hn, f, hf, rfl⟩

/-- Where a write starts from. -/
theorem findEnd_spec (hsound : Sound raw) (stat : Nat → Meeting) :
    Act.Spec (fun s => s = raw) (findEnd stat)
      (fun _ s => ∃ f, Steady (Unread raw.file) raw.file f ∧
        s = { raw with file := f, pos := if raw.base = .a then raw.file.server.length else raw.pos })
      fun _ _ => True := by
  refine Act.Spec.get_bind (Act.Spec.ite (fun happend => ?_) fun hplace => Act.Spec.pure _ fun s hs => ?_)
  · refine Act.Spec.bind (onFile_spec hsound (File.askStat_spec (o := False) (unread_resets _) nofun true))
      fun n => ?_
    rintro _ ⟨rfl, f, hf, rfl⟩
    exact ⟨f, hf, by rw [if_pos happend]⟩
  · rw [hs, if_neg hplace]
    exact ⟨raw.file, hsound.standing.1, rfl⟩

/-- What a write leaves: everything in its place, or at the end with what was stray of it. -/
def Leaves (raw : XRootDRawIO) (ways : Nat → WriteWay) (data : Bytes) (server : Bytes) : Prop :=
  if raw.base = .a then
    (raw.file.eventChunks data).flatten = data ∧
      server = raw.file.server ++ File.strewn ways 0 (raw.file.eventChunks data)
  else server = writeAt 0 raw.file.server raw.pos data

/-- One write of the file behind a handle that has found the end. -/
theorem leaves_of_write (hsound : Sound raw) (w : WriteWeather) (data : Bytes) {place : Nat}
    (hplace : raw.base ≠ .a → place = raw.pos) {f : File} (hf : Steady (Unread raw.file) raw.file f) :
    Act.Spec (fun s => s = f) (File.write w data place)
      (fun n s => n = data.length ∧ s.stat = none ∧ s.rest = f.rest ∧ Leaves raw w.ways data s.server)
      fun _ _ => True := by
  have happend : f.flags.append = decide (raw.base = .a) := by rw [hf.flags, hsound.append]
  have hways : f.eventWays w.ways = w.ways := by
    rw [File.eventWays, hf.checkpoint, hsound.checkpoint]
    rfl
  have hchunks : f.eventChunks data = raw.file.eventChunks data := by
    rw [eventChunks, hf.config]
    rfl
  by_cases hbase : raw.base = .a
  · rw [hbase] at happend
    refine (File.write_appended happend w data place).conseq (fun _ hs => hs) (fun n s hs => ?_)
      fun _ _ hs => hs
    obtain ⟨hn, hstat, hrest, hwhole, hserver⟩ := hs
    refine ⟨hn, hstat, hrest, ?_⟩
    rw [Leaves, if_pos hbase, ← hchunks, ← hf.server]
    rw [hways] at hserver
    exact ⟨hwhole, hserver⟩
  · rw [decide_eq_false hbase] at happend
    refine (File.write_placed happend w data place).conseq (fun _ hs => hs) (fun n s hs => ?_)
      fun _ _ hs => hs
    obtain ⟨hn, hstat, hrest, hserver⟩ := hs
    refine ⟨hn, hstat, hrest, ?_⟩
    rw [Leaves, if_neg hbase, ← hplace hbase, ← hf.server]
    exact hserver

theorem write_refines (hsound : Sound raw) (stat : Nat → Meeting) (w : WriteWeather) (data : Bytes) :
    Act.Spec (fun s => s = raw) (write stat w data)
      (fun n s => raw.writable = true ∧ n = data.length ∧
        (data = [] ∧ s = raw ∨ data ≠ [] ∧ Sound s ∧ ∃ f, Leaves raw w.ways data f.server ∧
          s = { raw with
            file := f, pos := (if raw.base = .a then raw.file.server.length else raw.pos) + data.length }))
      fun _ _ => True := by
  refine Act.Spec.bind checkWritable_spec fun _ => Act.Spec.of_each fun s hs => ?_
  obtain ⟨rfl, hwritable⟩ := hs
  refine Act.Spec.ite (fun hempty => Act.Spec.pure _ fun t ht =>
    ⟨hwritable, by rw [hempty]; rfl, .inl ⟨hempty, ht⟩⟩) fun hdata => Act.Spec.bind (findEnd_spec hsound stat)
      fun _ => Act.Spec.of_each fun mid hmid => Act.Spec.get_bind ?_
  obtain ⟨f, hf, rfl⟩ := hmid
  have hmid := hsound.steady hf (if s.base = .a then s.file.server.length else s.pos)
  have hwrite := leaves_of_write hsound w data (fun hbase : s.base ≠ .a =>
    (if_neg hbase : (if s.base = .a then s.file.server.length else s.pos) = s.pos)) hf
  refine Act.Spec.bind ((Act.Spec.zoom hwrite rfl).conseq (fun _ hs => hs) (fun _ _ hs => hs)
    fun _ _ _ => trivial) fun n => ?_
  rintro _ ⟨g, ⟨rfl, hstat, hrest, hleaves⟩, rfl⟩
  exact ⟨hwritable, rfl, .inr ⟨hdata, hmid.written hwritable hstat hrest _, g, hleaves, rfl⟩⟩

theorem truncate_refines (hsound : Sound raw) (fate : Fate) (size : Option Int) :
    Act.Spec (fun s => s = raw) (truncate fate size)
      (fun n s => raw.writable = true ∧ n = size.getD raw.pos ∧ 0 ≤ n ∧ Sound s ∧
        ∃ f, f.server = resize 0 n.toNat raw.file.server ∧ s = { raw with file := f })
      fun _ _ => True := by
  refine Act.Spec.bind checkWritable_spec fun _ => Act.Spec.of_each fun s hs => ?_
  obtain ⟨rfl, hwritable⟩ := hs
  have hcut : Act.Spec (fun f => f = s.file) (File.truncate fate (size.getD s.pos))
      (fun n f => 0 ≤ size.getD s.pos ∧ f.stat = none ∧ f.rest = s.file.rest ∧
        f.server = resize 0 (size.getD s.pos).toNat s.file.server)
      fun _ _ => True := by
    refine Act.Spec.ite (fun _ => Act.Spec.throw _ fun _ _ => trivial) fun hpos => ?_
    refine Act.Spec.bind (Q := fun _ f => f = { s.file with
      server := resize 0 (size.getD s.pos).toNat s.file.server })
      (Act.Spec.bind File.handle_same fun _ => ?_) fun _ => ?_
    · cases fate with
      | acked =>
        rintro _ rfl
        rfl
      | failed kept e => exact fun _ _ => trivial
    · rintro _ rfl
      exact ⟨Int.not_lt.mp hpos, rfl, rfl, rfl⟩
  refine Act.Spec.get_bind (Act.Spec.bind ((Act.Spec.zoom hcut rfl).conseq (fun _ hs => hs)
    (fun _ _ hs => hs) fun _ _ _ => trivial) fun n => ?_)
  rintro _ ⟨f, ⟨hpos, hstat, hrest, hserver⟩, rfl⟩
  exact ⟨hwritable, rfl, hpos, hsound.written hwritable hstat hrest _, f, hserver, rfl⟩

theorem flush_refines (fate : Fate) :
    Act.Spec (fun s => s = raw) (flush fate) (fun _ s => s = raw) fun _ _ => True := by
  refine Act.Spec.get_bind (Act.Spec.ite (fun _ => ?_) fun _ => Act.Spec.pure _ fun _ hs => hs)
  have hsync : Act.Spec (fun f => f = raw.file) (File.sync fate) (fun _ f => f = raw.file) fun _ _ => True := by
    refine Act.Spec.bind File.handle_same fun _ => ?_
    cases fate with
    | acked => exact fun _ hs => hs
    | failed kept e => exact fun _ _ => trivial
  refine (Act.Spec.zoom hsync rfl).conseq (fun _ hs => hs) (fun _ s hs => ?_) fun _ _ _ => trivial
  obtain ⟨f, rfl, rfl⟩ := hs
  rfl

/-! ## Every call -/

theorem nothingStray_iff (ways : Nat → WriteWay) (pieces : List Bytes) :
    File.strewn ways 0 pieces = pieces.flatten ↔ NothingStray ways pieces := by
  have hiff := File.strewn_eq_iff pieces ways 0
  simpa only [Nat.zero_add] using hiff

/-- What a write leaves is what the local file has then exactly if nothing is stray. -/
theorem content_iff (hlike : Like raw loc) {ways : Nat → WriteWay} {data server : Bytes}
    (hleaves : Leaves raw ways data server) : server = writeAt 0 loc.content loc.place data ↔
      (raw.base = .a → NothingStray ways (raw.file.eventChunks data)) := by
  rw [Leaves] at hleaves
  by_cases hbase : raw.base = .a
  · rw [if_pos hbase] at hleaves
    obtain ⟨hwhole, rfl⟩ := hleaves
    have hplace : loc.place = loc.content.length := by
      rw [LocalFile.place, hlike.append, decide_eq_true hbase]
      rfl
    rw [hplace, writeAt_length, hlike.content, List.append_cancel_left_eq, imp_iff_right hbase,
      ← nothingStray_iff, hwhole]
  · rw [if_neg hbase] at hleaves
    have hplace : loc.place = raw.pos := by
      rw [LocalFile.place, hlike.append, decide_eq_false hbase, hlike.pos]
      rfl
    rw [hplace, hleaves, hlike.content]
    exact iff_of_true rfl fun h => absurd h hbase

/-- A call that returns, returns what the local file returns; and it leaves what that leaves exactly
if nothing of it was appended twice. -/
theorem step_refines (hsound : Sound raw) (hlike : Like raw loc) (call : Call) (w : CallWeather)
    (htrue : Truthful raw call w) :
    Act.Spec (fun s => s = raw) (step call w)
      (fun v s => Sound s ∧ ∃ loc', loc.step call = some (v, loc') ∧
        (s.pos = loc'.pos ∧ s.file.server = loc'.content ↔ Unrepeated raw call w) ∧
        (s.file.server = loc'.content → Like s loc'))
      fun _ _ => True := by
  -- a call that leaves what the local file leaves
  have hdone : ∀ {s : XRootDRawIO} {loc' : LocalFile} {v : Value}, Unrepeated raw call w → Sound s →
      loc.step call = some (v, loc') → Like s loc' →
      Sound s ∧ ∃ loc', loc.step call = some (v, loc') ∧
        (s.pos = loc'.pos ∧ s.file.server = loc'.content ↔ Unrepeated raw call w) ∧
        (s.file.server = loc'.content → Like s loc') := fun h hs hstep hl =>
    ⟨hs, _, hstep, iff_of_true ⟨hl.pos, hl.content⟩ h, fun _ => hl⟩
  cases call with
  | readinto view =>
    refine Act.Spec.bind (readinto_refines hsound w.reads view htrue) fun got => Act.Spec.pure _ ?_
    rintro _ ⟨hreadable, data, f, hdata, rfl, hf, rfl⟩
    refine hdone trivial (hsound.steady hf _) ?_ (hlike.moved hf.server _)
    rw [LocalFile.step, if_pos (hlike.readable ▸ hreadable), ← hlike.content, ← hlike.pos, ← hdata]
  | readall =>
    refine Act.Spec.bind (readall_refines hsound w.stat w.reads htrue) fun data => Act.Spec.pure _ ?_
    rintro _ ⟨hreadable, hdata, f, hf, rfl⟩
    refine hdone trivial (hsound.steady hf _) ?_ (hlike.moved hf.server _)
    rw [LocalFile.step, if_pos (hlike.readable ▸ hreadable), ← hlike.content, ← hlike.pos, ← hdata]
  | seek offset whence =>
    refine Act.Spec.bind (seek_refines hsound w.stat offset whence) fun n => Act.Spec.pure _ ?_
    rintro _ ⟨hpos, hwhence, f, hf, rfl⟩
    refine hdone trivial (hsound.steady hf _) ?_ (hlike.moved hf.server _)
    have htarget : loc.target offset whence = some n := by
      rw [LocalFile.target, ← hlike.content, ← hlike.pos]
      obtain ⟨rfl, rfl⟩ | ⟨rfl, rfl⟩ | ⟨rfl, rfl⟩ := hwhence
      · rfl
      · rfl
      · rfl
    simp only [LocalFile.step, htarget, Option.bind_eq_bind, Option.bind_some, if_neg (Int.not_lt.mpr hpos)]
  | tell =>
    rintro _ rfl
    exact hdone trivial hsound (by rw [LocalFile.step, hlike.pos]) hlike
  | write data =>
    refine Act.Spec.bind (write_refines hsound w.stat w.writes data) fun n => Act.Spec.pure _ ?_
    rintro s ⟨hwritable, rfl, ⟨rfl, rfl⟩ | ⟨hdata, hsound', f, hleaves, rfl⟩⟩
    · refine hdone (fun _ k p hk => ?_) hsound ?_ hlike
      · cases hk
      · rw [LocalFile.step, if_pos (hlike.writable ▸ hwritable), if_pos rfl]
        rfl
    · have hplace : (if raw.base = .a then raw.file.server.length else raw.pos) = loc.place := by
        simp only [LocalFile.place, hlike.append, decide_eq_true_eq, hlike.content, hlike.pos]
      have hpos : (if raw.base = .a then raw.file.server.length else raw.pos) + data.length =
          loc.place + data.length := by rw [hplace]
      refine ⟨hsound', _, by rw [LocalFile.step, if_pos (hlike.writable ▸ hwritable), if_neg hdata],
        (and_iff_right hpos).trans (content_iff hlike hleaves), fun hcontent => ?_⟩
      exact ⟨hpos, hcontent, hlike.append, hlike.readable, hlike.writable⟩
  | truncate size =>
    refine Act.Spec.bind (truncate_refines hsound w.fate size) fun n => Act.Spec.pure _ ?_
    rintro _ ⟨hwritable, rfl, hpos, hsound', f, hserver, rfl⟩
    rw [hlike.pos] at hpos hserver
    have hlocal : loc.step (.truncate size) = some (.count (size.getD loc.pos),
        { loc with content := resize 0 (size.getD loc.pos).toNat loc.content }) := by
      rw [LocalFile.step, if_pos ⟨hlike.writable ▸ hwritable, hpos⟩]
    have hvalue : (Value.count (size.getD raw.pos)) = .count (size.getD loc.pos) := by rw [hlike.pos]
    rw [hvalue]
    refine hdone trivial hsound' hlocal ⟨hlike.pos, ?_, hlike.append, hlike.readable, hlike.writable⟩
    exact hserver.trans (by rw [hlike.content])
  | flush =>
    refine Act.Spec.bind (flush_refines w.fate) fun _ => Act.Spec.pure _ ?_
    rintro _ rfl
    exact hdone trivial hsound rfl hlike

/-! ## Opening -/

/-- A file as an open gives it. -/
structure JustOpened (file : File) (flags : OpenFlags) : Prop where
  fresh : Fresh file
  ahead : file.ahead = (0, []) ∧ file.sequel = -1
  flags : file.flags = flags
  checkpoint : file.checkpoint = false

theorem openFile_cases {config : FileConfig} {m : Opening} {flags : OpenFlags} {store : Option Bytes}
    {file : File} (h : openFile config m flags store = .ok file) :
    JustOpened file flags ∧ served flags store = .ok file.server := by
  rw [openFile] at h
  cases hraised : m.raised with
  | some e =>
    rw [hraised] at h
    cases h
  | none =>
    rw [hraised] at h
    cases hserved : served flags store with
    | error e =>
      rw [hserved] at h
      cases h
    | ok content =>
      rw [hserved] at h
      obtain rfl := Except.ok.inj h
      cases m.told with
      | true => exact ⟨⟨by rintro _ ⟨⟩; exact ⟨rfl, rfl⟩, ⟨rfl, rfl⟩, rfl, rfl⟩, rfl⟩
      | false => exact ⟨⟨by rintro _ ⟨⟩, ⟨rfl, rfl⟩, rfl, rfl⟩, rfl⟩

/-- What a raw file opens is what the builtin opens. -/
theorem openRaw_cases {config : FileConfig} {first second : Opening} {base : Base} {updating : Bool}
    {store : Option Bytes} {file : File}
    (h : openRaw config first second (flagsForMode base updating) store = .ok file) :
    (∃ new, JustOpened file { flagsForMode base updating with new := new }) ∧
      ∃ loc, LocalFile.opened base updating store = some loc ∧ file.server = loc.content ∧
        loc.pos = if base = .a then file.server.length else 0 := by
  rw [openRaw] at h
  cases hfirst : openFile config first (flagsForMode base updating) store with
  | ok opened =>
    rw [hfirst] at h
    obtain rfl := Except.ok.inj h
    obtain ⟨hjust, hserved⟩ := openFile_cases hfirst
    refine ⟨⟨_, hjust⟩, ?_⟩
    cases base <;> cases store <;> simp_all [served, flagsForMode, LocalFile.opened]
  | error e =>
    rw [hfirst] at h
    dsimp only at h
    split at h
    · next hmissing =>
      obtain rfl : base = .a := by
        have := hmissing.2
        cases base <;> simp_all [flagsForMode]
      obtain ⟨hjust, hserved⟩ := openFile_cases h
      refine ⟨⟨true, hjust⟩, ?_⟩
      cases store <;> simp_all [served, flagsForMode, LocalFile.opened]
    · cases h

theorem JustOpened.sound {file : File} {base : Base} {updating new : Bool}
    (h : JustOpened file { flagsForMode base updating with new := new }) :
    Sound { file, base
            readable := decide (base = .r) || updating
            writable := decide (base ≠ .r) || updating } where
  fresh := h.fresh
  ahead := ⟨h.ahead.1, .inl h.ahead.2⟩
  append := by
    show file.flags.append = _
    rw [h.flags]
    cases base <;> rfl
  writing hw := by
    show file.flags.writing = true
    rw [h.flags]
    cases base <;> simp_all [flagsForMode, OpenFlags.writing]
  checkpoint := h.checkpoint

theorem sound_of_new {config : FileConfig} {mode : Text} {first second : Opening} {stat : Nat → Meeting}
    {store : Option Bytes} {base : Base} {binary updating : Bool}
    (hmode : parseMode mode = .ok (base, binary, updating))
    (hnew : new config mode first second stat store = .ok raw) :
    Sound raw ∧ ∃ loc, LocalFile.opened base updating store = some loc ∧ Like raw loc := by
  rw [new, hmode] at hnew
  cases hopen : openRaw config first second (flagsForMode base updating) store with
  | error e =>
    simp only [hopen, bind, Except.bind] at hnew
    cases hnew
  | ok file =>
    simp only [hopen, bind, Except.bind] at hnew
    obtain ⟨⟨_, hjust⟩, loc, hloc, hcontent, hpos⟩ := openRaw_cases hopen
    obtain ⟨happend, hreadable, hwritable⟩ := LocalFile.opened_mode hloc
    have hsound := hjust.sound
    by_cases hbase : base = .a
    · rw [if_pos hbase] at hnew hpos
      have hsize := @File.size_spec _ file False (unread_resets file) stat nofun file hsound.standing
      rcases hrun : File.size stat file with ⟨e | size, f⟩ <;> rw [hrun] at hnew hsize
      · cases hnew
      · obtain rfl := Except.ok.inj hnew
        obtain ⟨rfl, hsteady, -⟩ := hsize
        exact ⟨hsound.steady hsteady _, loc, hloc,
          ⟨hpos.symm, hsteady.server.trans hcontent, happend, hreadable.symm, hwritable.symm⟩⟩
    · rw [if_neg hbase] at hnew hpos
      obtain rfl := Except.ok.inj hnew
      exact ⟨hsound, loc, hloc, ⟨hpos.symm, hcontent, happend, hreadable.symm, hwritable.symm⟩⟩

/-! ## Runs -/

/-- The bytes that the bulk plane brings are what the server has, in every call. -/
def EachTruthful (raw : XRootDRawIO) : List (Call × CallWeather) → Prop
  | [] => True
  | (call, w) :: rest => Truthful raw call w ∧ EachTruthful (step call w raw).2 rest

/-- No call appends anything twice. -/
def EachUnrepeated (raw : XRootDRawIO) : List (Call × CallWeather) → Prop
  | [] => True
  | (call, w) :: rest => Unrepeated raw call w ∧ EachUnrepeated (step call w raw).2 rest

/-- The calls return what the local file returns for them, at the position and with the contents
that it has then. -/
def AsLocal (raw : XRootDRawIO) (loc : LocalFile) (calls : List (Call × CallWeather)) : Prop :=
  ∀ values raw', run calls raw = (.ok values, raw') →
    ∃ loc', loc.run (calls.map Prod.fst) = some (values, loc') ∧ raw'.pos = loc'.pos ∧
      raw'.file.server = loc'.content

/-- A run that returns is a call that returns, and a run that does. -/
theorem run_cons {call : Call} {w : CallWeather} {rest : List (Call × CallWeather)} {values : List Value}
    {raw' : XRootDRawIO} (h : run ((call, w) :: rest) raw = (.ok values, raw')) :
    ∃ value values', step call w raw = (.ok value, (step call w raw).2) ∧
      run rest (step call w raw).2 = (.ok values', raw') ∧ values = value :: values' := by
  rw [run] at h
  rcases hstep : step call w raw with ⟨e | value, mid⟩
  · rw [Act.bind_of_error hstep] at h
    cases h
  · rw [Act.bind_of_ok hstep] at h
    rcases hrest : run rest mid with ⟨e | values', last⟩
    · rw [Act.bind_of_error hrest] at h
      cases h
    · rw [Act.bind_of_ok hrest] at h
      cases h
      exact ⟨value, values', rfl, rfl, rfl⟩

theorem run_of_step {call : Call} {w : CallWeather} {rest : List (Call × CallWeather)} {value : Value}
    {values : List Value} {mid raw' : XRootDRawIO} (hstep : step call w raw = (.ok value, mid))
    (hrest : run rest mid = (.ok values, raw')) :
    run ((call, w) :: rest) raw = (.ok (value :: values), raw') := by
  rw [run, Act.bind_of_ok hstep, Act.bind_of_ok hrest]
  rfl

theorem run_refines (calls : List (Call × CallWeather)) : ∀ {raw : XRootDRawIO} {loc : LocalFile}
    {values : List Value} {raw' : XRootDRawIO}, Sound raw → Like raw loc →
    run calls raw = (.ok values, raw') → EachTruthful raw calls →
    ((∀ first, first <+: calls → AsLocal raw loc first) ↔ EachUnrepeated raw calls) := by
  induction calls with
  | nil =>
    intro raw loc values raw' _ hlike _ _
    refine iff_of_true (fun first h => ?_) trivial
    rw [List.prefix_nil.mp h]
    rintro _ _ ⟨⟩
    exact ⟨loc, rfl, hlike.pos, hlike.content⟩
  | cons c rest ih =>
    obtain ⟨call, w⟩ := c
    intro raw loc values raw' hsound hlike hrun htrue
    obtain ⟨value, values', hstep, hrest, rfl⟩ := run_cons hrun
    obtain ⟨hsound', loc', hlocal, hiff, hlike'⟩ :=
      (step_refines hsound hlike call w htrue.1).ok rfl hstep
    constructor
    · intro hall
      -- the one call tells whether anything was appended twice
      have hone := hall [(call, w)] (List.cons_prefix_cons.mpr ⟨rfl, List.nil_prefix⟩) _ _
        (run_of_step hstep rfl)
      obtain ⟨loc'', hlast, hpos, hcontent⟩ := hone
      cases (LocalFile.run_cons_iff hlocal).mp hlast
      refine ⟨hiff.mp ⟨hpos, hcontent⟩, (ih hsound' (hlike' hcontent) hrest htrue.2).mp fun first h => ?_⟩
      intro vs s hs
      obtain ⟨l, hl, hafter⟩ := hall ((call, w) :: first) (List.cons_prefix_cons.mpr ⟨rfl, h⟩) _ _
        (run_of_step hstep hs)
      exact ⟨l, (LocalFile.run_cons_iff hlocal).mp hl, hafter⟩
    · rintro ⟨hunrepeated, heach⟩ first hfirst
      obtain ⟨hpos, hcontent⟩ := hiff.mpr hunrepeated
      cases first with
      | nil =>
        rintro _ _ ⟨⟩
        exact ⟨loc, rfl, hlike.pos, hlike.content⟩
      | cons c first =>
        obtain ⟨rfl, hprefix⟩ := List.cons_prefix_cons.mp hfirst
        intro vs s hs
        obtain ⟨v, vs', hstep', hrest', rfl⟩ := run_cons hs
        rw [hstep] at hstep'
        cases hstep'
        obtain ⟨l, hl, hafter⟩ := (ih hsound' (hlike' hcontent) hrest htrue.2).mpr heach first hprefix _ _ hrest'
        exact ⟨l, (LocalFile.run_cons_iff hlocal).mpr hl, hafter⟩

/-- **A raw file is a file.**  For every mode, every file that there is or is not, and every run of
calls that return, whichever path serves each of them: it opens what the builtin opens, and it
returns the same values, is at the same position and leaves the same contents behind every call,
exactly if no data path stored something of a chunk that was to be appended and did not answer. -/
theorem raw_file_iff {config : FileConfig} {mode : Text} {first second : Opening} {stat : Nat → Meeting}
    {store : Option Bytes} {base : Base} {binary updating : Bool} {raw' : XRootDRawIO}
    {calls : List (Call × CallWeather)} {values : List Value}
    (hmode : parseMode mode = .ok (base, binary, updating))
    (hnew : new config mode first second stat store = .ok raw)
    (hrun : run calls raw = (.ok values, raw')) (htrue : EachTruthful raw calls) :
    ∃ loc, LocalFile.opened base updating store = some loc ∧
      ((∀ done, done <+: calls → AsLocal raw loc done) ↔ EachUnrepeated raw calls) := by
  obtain ⟨hsound, loc, hloc, hlike⟩ := sound_of_new hmode hnew
  exact ⟨loc, hloc, run_refines calls hsound hlike hrun htrue⟩

/-! ## Two runs -/

/-- A file of three bytes that is opened to be read and written. -/
def threeBytes : XRootDRawIO where
  file := { config := {}, flags := { update := true }, stat := some 3, sizeHint := 3, server := [1, 2, 3] }
  base := .r
  readable := true
  writable := true

/-- A write past the end, and all of it read back. -/
def pastTheEnd : List (Call × CallWeather) :=
  [(.seek 2 SEEK_END, {}), (.write [9], {}), (.seek 0 SEEK_SET, {}), (.readall, {}), (.flush, {})]

theorem raw_file_pastTheEnd : ∃ loc, LocalFile.opened .r true (some [1, 2, 3]) = some loc ∧
    ((∀ done, done <+: pastTheEnd → AsLocal threeBytes loc done) ↔ EachUnrepeated threeBytes pastTheEnd) := by
  have hnew : new {} ['r', '+'] {} {} (fun _ => {}) (some [1, 2, 3]) = .ok threeBytes := rfl
  have hrun : run pastTheEnd threeBytes = (.ok [.count 5, .count 1, .count 0, .bytes [1, 2, 3, 0, 0, 9], .nothing],
      (run pastTheEnd threeBytes).2) := rfl
  exact raw_file_iff rfl hnew hrun ⟨trivial, trivial, trivial, fun _ => trivial, trivial, trivial⟩

/-- The data path stores the write, and its answer does not come. -/
def lostAnswer : CallWeather where
  writes := { ways := fun _ => { arrival := some (.failed 2 .transient) } }

/-- Two bytes that are appended are in the file twice. -/
theorem raw_file_appends_twice : ¬ ∀ (config : FileConfig) (mode : Text) (first second : Opening)
    (stat : Nat → Meeting) (store : Option Bytes) (base : Base) (binary updating : Bool) (raw raw' : XRootDRawIO)
    (calls : List (Call × CallWeather)) (values : List Value),
    parseMode mode = .ok (base, binary, updating) → new config mode first second stat store = .ok raw →
    run calls raw = (.ok values, raw') → EachTruthful raw calls →
    ∃ loc, LocalFile.opened base updating store = some loc ∧ AsLocal raw loc calls := by
  intro hclaim
  obtain ⟨loc, hloc, hlike⟩ := hclaim {} ['a', 'b'] {} {} (fun _ => {}) (some []) .a true false _ _
    [(.write [1, 2], lostAnswer)] _ rfl rfl rfl ⟨trivial, trivial⟩
  cases hloc
  obtain ⟨loc', hrun, -, hcontent⟩ := hlike _ _ rfl
  cases hrun
  exact absurd hcontent (by decide)

end XRootDRawIO

end XrdClient.Io
