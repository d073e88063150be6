/-
  Client/Readahead.lean --- reading ahead, and no read the wiser.

  Source: `client/_reading.py`, `read`, `pread`, `readinto` and `_sequential`.

  THE BLOCK.  What is kept ahead is what the server has from where it starts (`Ahead`): it
  comes from one read of the plane, and a re-open forgets it.  The window is never below
  nothing, so that a read with the window beyond it has the read in front.

  THE CALLS.  Each call is given its own weather: the plane may decline, or be lost, and
  the handle may be opened again, before any of them.
-/
import XrdClient.Client.Reading

set_option autoImplicit false

namespace XrdClient.Client.File

open XrdClient.Lib
open XrdClient.Session
open XrdClient.Proto (MAX_RESPONSE_BODY kXR_ok)

/-- The block is what the server has where it starts, and the window reaches forward. -/
def Ahead (content : Bytes) (ahead : Nat × Bytes) (_sequel window : Int) : Prop :=
  ahead.2 <+: content.drop ahead.1 ∧ 0 ≤ window

theorem ahead_resets (content : Bytes) : Resets (Ahead content) :=
  fun _ _ _ h => ⟨List.nil_prefix, h.2⟩

/-- A read that lies inside the block. -/
theorem slice_of_block {content block : Bytes} {start offset size : Nat}
    (hblock : block <+: content.drop start) (hle : start ≤ offset)
    (hend : offset + size ≤ start + block.length) :
    (block.drop (offset - start)).take size = slice content offset size := by
  obtain ⟨rest, hrest⟩ := hblock
  have hdrop : content.drop offset = block.drop (offset - start) ++ rest := by
    rw [← List.drop_append_of_le_length (by omega), hrest, List.drop_drop, Nat.add_sub_cancel' hle]
  rw [slice, hdrop, List.take_append_of_le_length (by rw [List.length_drop]; omega)]

section

variable {b : File} {o : Prop} {w : Weather} {size offset : Nat}

theorem Steady.withSequel {s : File} (h : Steady (Ahead b.server) b s) (sequel : Int) {window : Int}
    (hwindow : 0 ≤ window) :
    Steady (Ahead b.server) b { s with sequel := sequel, window := window } :=
  ⟨h.config, h.flags, h.recoverHandles, h.checkpoint, h.journal, h.server, h.told, h.ahead.1, hwindow⟩

theorem Steady.withAhead {s : File} (h : Steady (Ahead b.server) b s) {data : Bytes}
    (hdata : data <+: b.server.drop offset) :
    Steady (Ahead b.server) b { s with ahead := (offset, data) } :=
  ⟨h.config, h.flags, h.recoverHandles, h.checkpoint, h.journal, h.server, h.told, hdata, h.ahead.2⟩

/-- What is read with more behind it is what would have been read. -/
theorem sequential_spec (hsize : size ≠ 0) (hreadahead : 0 ≤ b.config.readahead)
    (hhonest : ∀ n, Honest b w n offset) (hfair : o → ∀ n, FairPlane b w n offset) :
    Act.Spec (Standing (Ahead b.server) o b) (sequential w size offset)
      (fun got s => (∀ data, got = some data → data = slice b.server offset size) ∧
        Standing (Ahead b.server) o b s)
      (fun _ s => Steady (Ahead b.server) b s ∧ ¬ o) := by
  refine Act.Spec.of_each fun f hf => Act.Spec.get_bind (Act.Spec.ite (fun hinside => ?_) fun _ =>
    Act.Spec.ite (fun _ => ?_) fun _ => ?_)
  · -- inside the block
    refine Act.Spec.modify_bind (Act.Spec.pure _ fun s hs => ⟨fun data hdata => ?_, ?_⟩)
    · rw [← Option.some.inj hdata]
      exact slice_of_block hf.1.ahead.1 hinside.1 hinside.2
    · exact hs ▸ ⟨hf.1.withSequel _ hf.1.ahead.2, hf.2⟩
  · -- not where the last read stopped
    refine Act.Spec.modify_bind ((planeRead_spec (ahead_resets _) hsize (hhonest size)
      fun ho => hfair ho size).conseq (fun s hs => ?_) (fun _ _ hs => hs) fun _ _ hs => hs)
    subst hs
    exact ⟨hf.1.withSequel _ (by rw [hf.1.config]; exact hreadahead), hf.2⟩
  · have hwindow : 0 ≤ f.window := hf.1.ahead.2
    have hwhole : ((size : Int) + f.window) = ((size + f.window.toNat : Nat) : Int) := by omega
    rw [hwhole]
    have hdouble : 0 ≤ min (f.window * 2) MAX_AHEAD := by
      have : 0 ≤ MAX_AHEAD := by decide
      omega
    refine Act.Spec.modify_bind (Act.Spec.bind ((planeRead_spec (o := o) (ahead_resets b.server)
      (by omega : size + f.window.toNat ≠ 0) (hhonest _) fun ho => hfair ho _).conseq (fun s hs => ?_)
        (fun _ _ hs => hs) fun _ _ hs => hs) fun got => ?_)
    · subst hs
      exact ⟨hf.1.withSequel _ hdouble, hf.2⟩
    · refine Act.Spec.of_each fun g hg => ?_
      cases got with
      | none => exact Act.Spec.pure _ fun s hs => hs ▸ ⟨nofun, hg.2⟩
      | some data =>
        have hdata := hg.1 data rfl
        refine Act.Spec.modify_bind (Act.Spec.pure _ fun s hs => ⟨fun got hgot => ?_, ?_⟩)
        · rw [← Option.some.inj hgot, hdata, slice, slice, List.take_take,
            Nat.min_eq_left (Nat.le_add_right _ _)]
        · subst hs
          exact ⟨hg.2.1.withAhead (hdata ▸ List.take_prefix _ _), hg.2.2⟩

/-- A read of some bytes returns what the server has there, whichever path it takes. -/
theorem readSome_spec (hreadahead : 0 ≤ b.config.readahead)
    (hhonest : b.config.bulk = true → ∀ n, Honest b w n offset)
    (hplane : o → b.config.bulk = true → ∀ n, FairPlane b w n offset)
    (hchunks : o → FairChunks b w.chunks size offset) :
    Act.Spec (Standing (Ahead b.server) o b) (readSome w size offset)
      (fun data s => data = slice b.server offset size ∧ Standing (Ahead b.server) o b s)
      (fun _ s => Steady (Ahead b.server) b s ∧ ¬ o) :=
  readSome_of_sequential (ahead_resets b.server) (fun hsize hbulk _ =>
    sequential_spec hsize hreadahead (hhonest hbulk) fun ho => hplane ho hbulk)
    (fun hbulk => hhonest hbulk size) (fun ho hbulk => hplane ho hbulk size) hchunks

end

/-! ## Calls -/

inductive ReadCall where
  | read (size : Int) (offset : Nat)
  | pread (size : Int) (offset : Nat)
  | readinto (view : Bytes) (offset : Nat)
  deriving DecidableEq

namespace ReadCall

def run (w : Weather) : ReadCall → Op Bytes
  | .read size offset | .pread size offset => File.read w size offset
  | .readinto view offset => File.readinto w view offset

def offset : ReadCall → Nat
  | .read _ offset | .pread _ offset | .readinto _ offset => offset

/-- It reads to the end of the file. -/
def Whole : ReadCall → Prop
  | .read size _ | .pread size _ => size < 0
  | .readinto _ _ => False

/-- How much it reads of `content`. -/
def size (content : Bytes) : ReadCall → Nat
  | .read size offset | .pread size offset => if size < 0 then content.length - offset else size.toNat
  | .readinto view _ => view.length

/-- `file[offset : offset + size]`. -/
def answer (content : Bytes) (call : ReadCall) : Bytes := slice content call.offset (call.size content)

end ReadCall

/-- Calls one after the other, with what comes of each. -/
def calls : File → List (ReadCall × Weather) → List (ReadCall × Except FileError Bytes)
  | _, [] => []
  | f, (call, w) :: rest => (call, (call.run w f).1) :: calls (call.run w f).2 rest

/-- The plane declines, the handle is opened again, or neither: nothing else goes wrong, and a
read to the end is not of more than there may be. -/
structure Fair (b : File) (call : ReadCall) (w : Weather) : Prop where
  stat : call.Whole → Answered b w.stat
  ceiling : call.Whole → b.config.maxReadSize = 0 ∨ (b.server.length - call.offset : Nat) ≤ b.config.maxReadSize
  plane : b.config.bulk = true → ∀ n, FairPlane b w n call.offset
  chunks : FairChunks b w.chunks (call.size b.server) call.offset

section

variable {b : File} {o : Prop} {w : Weather}

/-- One call returns its part of the file. -/
theorem call_spec (hreadahead : 0 ≤ b.config.readahead) {call : ReadCall}
    (hhonest : b.config.bulk = true → ∀ n, Honest b w n call.offset) (hfair : o → Fair b call w) :
    Act.Spec (Standing (Ahead b.server) o b) (call.run w)
      (fun data s => data = call.answer b.server ∧ Standing (Ahead b.server) o b s)
      (fun _ s => Steady (Ahead b.server) b s ∧ ¬ o) := by
  have hread : ∀ {size : Int} {offset : Nat}, call = .read size offset ∨ call = .pread size offset →
      Act.Spec (Standing (Ahead b.server) o b) (File.read w size offset)
        (fun data s => data = slice b.server offset
          (if size < 0 then b.server.length - offset else size.toNat) ∧ Standing (Ahead b.server) o b s)
        (fun _ s => Steady (Ahead b.server) b s ∧ ¬ o) := by
    rintro size offset (rfl | rfl) <;>
    · refine Act.Spec.bind (readSize_spec (ahead_resets _) (fun ho => (hfair ho).stat) fun ho =>
        (hfair ho).ceiling) fun n => Act.Spec.of_each fun f hf => ?_
      obtain ⟨rfl, hstanding⟩ := hf
      exact (readSome_spec hreadahead hhonest (fun ho => (hfair ho).plane)
        fun ho => (hfair ho).chunks).conseq (fun s hs => hs ▸ hstanding) (fun _ _ hs => hs) fun _ _ hs => hs
  cases call with
  | read size offset => exact hread (.inl rfl)
  | pread size offset => exact hread (.inr rfl)
  | readinto view offset =>
    exact readinto_spec (ahead_resets _) (fun hbulk => hhonest hbulk _) (fun ho hbulk =>
      (hfair ho).plane hbulk _) fun ho => (hfair ho).chunks

end

/-! ## Every sequence of calls -/

theorem calls_spec {b : File} {o : Prop} (hreadahead : 0 ≤ b.config.readahead) :
    ∀ (cs : List (ReadCall × Weather)) (f : File), Standing (Ahead b.server) o b f →
      (∀ c ∈ cs, b.config.bulk = true → ∀ n, Honest b c.2 n c.1.offset) →
      (o → ∀ c ∈ cs, Fair b c.1 c.2) →
      ∀ m ∈ calls f cs, (∀ data, m.2 = .ok data → data = m.1.answer b.server) ∧
        (o → m.2 = .ok (m.1.answer b.server)) := by
  intro cs
  induction cs with
  | nil => exact fun f _ _ _ m hm => absurd hm List.not_mem_nil
  | cons c rest ih =>
    intro f hf hhonest hfair
    obtain ⟨call, w⟩ := c
    obtain ⟨hfirst, hrest⟩ := List.forall_mem_cons.mp hhonest
    have hspec := call_spec (o := o) hreadahead hfirst (fun ho => hfair ho _ (List.mem_cons_self ..)) f hf
    have hfair' : o → ∀ c ∈ rest, Fair b c.1 c.2 := fun ho c hc =>
      hfair ho c (List.mem_cons_of_mem _ hc)
    refine List.forall_mem_cons.mpr ?_
    rcases hrun : call.run w f with ⟨e | data, f'⟩
    · rw [hrun] at hspec
      dsimp only at hspec ⊢
      exact ⟨⟨nofun, fun ho => absurd ho hspec.2⟩,
        ih f' ⟨hspec.1, fun ho => absurd ho hspec.2⟩ hrest hfair'⟩
    · rw [hrun] at hspec
      dsimp only at hspec ⊢
      exact ⟨⟨fun data' h => (Except.ok.inj h).symm.trans hspec.1, fun _ => congrArg Except.ok hspec.1⟩,
        ih f' hspec.2 hrest hfair'⟩

/-- A handle that has just been opened. -/
structure Opened (b : File) : Prop where
  isOpen : b.isOpen = true
  ahead : b.ahead = (0, [])
  window : b.window = b.config.readahead
  told : ∀ n, b.stat = some n → n = b.server.length ∧ b.sizeHint = b.server.length

theorem Opened.standing {b : File} (h : Opened b) (hreadahead : 0 ≤ b.config.readahead) :
    Standing (Ahead b.server) True b b := by
  refine ⟨⟨rfl, rfl, rfl, rfl, rfl, rfl, h.told, ?_, ?_⟩, fun _ => h.isOpen⟩
  · rw [h.ahead]
    exact List.nil_prefix
  · rw [h.window]
    exact hreadahead

/-- The file, with the plane turned off. -/
def plain (b : File) : File := { b with config := { b.config with bulk := false } }

/-- **Reading ahead is not seen.**  For every file, every configuration whose readahead is not
negative and every sequence of calls, with a server that gives what it has of each range and
whatever else the calls meet: a call that returns returns its part of the file, and what the
event path returns if it does.  When nothing worse happens than that the plane declines or the
handle is opened again, every call returns. -/
theorem read_transparent {b : File} (hopened : Opened b) (hreadahead : 0 ≤ b.config.readahead)
    (cs : List (ReadCall × Weather))
    (hhonest : ∀ c ∈ cs, b.config.bulk = true → ∀ n, Honest b c.2 n c.1.offset) :
    (∀ m ∈ calls b cs, ∀ data, m.2 = .ok data → data = m.1.answer b.server ∧
        ∀ w event, (m.1.run w b.plain).1 = .ok event → data = event) ∧
      ((∀ c ∈ cs, Fair b c.1 c.2) → ∀ m ∈ calls b cs, m.2 = .ok (m.1.answer b.server)) := by
  have hstanding := hopened.standing hreadahead
  refine ⟨fun m hm data hdata => ?_, fun hfair m hm =>
    (calls_spec hreadahead cs b hstanding hhonest (fun _ => hfair) m hm).2 trivial⟩
  have hanswer := (calls_spec (o := False) hreadahead cs b ⟨hstanding.1, nofun⟩ hhonest nofun m hm).1
    data hdata
  refine ⟨hanswer, fun w event hevent => ?_⟩
  have hopened' : Opened b.plain := ⟨hopened.isOpen, hopened.ahead, hopened.window, hopened.told⟩
  have hplain := calls_spec (o := False) (b := b.plain) hreadahead [(m.1, w)] b.plain
    ⟨(hopened'.standing hreadahead).1, nofun⟩ (fun _ _ hbulk => absurd hbulk (by simp [plain])) nofun
    _ (List.mem_singleton_self _)
  rw [hanswer, hplain.1 event hevent]
  rfl

/-! ## Two reads in a row -/

/-- The plane answers a read of `size` bytes with one reply. -/
def lending (size : Nat) (reply : Sent) : Weather where
  plane := .lends fun n => BulkReader.fresh (if n = size then [reply] else [])

theorem lending_honest {b : File} {size offset : Nat} {reply : Sent}
    (hexact : ∀ r ∈ lent b.config (BulkReader.fresh [reply]) size,
      Exact (b.server.drop offset) (BulkReader.served (BulkReader.asked
        (BulkReader.chunks r.settings.chunk size) r (BulkReader.into size offset r).2) [reply])) (n : Nat) :
    Honest b (lending size reply) n offset := by
  refine ⟨if n = size then [reply] else [], BulkReader.fresh_ready _, ?_⟩
  split
  · next h =>
    subst h
    simpa only [if_true] using hexact
  · exact fun r _ p hp => absurd hp List.not_mem_nil

theorem lending_fair {b : File} {size offset : Nat} {reply : Sent} (hdepth : 1 ≤ b.config.bulkDepth)
    (hchunk : b.config.bulkChunk ≤ MAX_RESPONSE_BODY) (n : Nat) :
    FairPlane b (lending size reply) n offset := by
  refine ⟨hdepth, hchunk, fun r _ => ?_⟩
  rcases BulkReader.into n offset r with ⟨_ | _, _⟩ <;> trivial

/-- A reader of eight bytes, with so much read ahead. -/
def eightAhead (readahead : Int) : File where
  config := { readahead := readahead }
  flags := {}
  server := BulkReader.eightBytes

def firstTwo : Sent :=
  .plain 4 kXR_ok [1, 2] BulkReader.fullSecond.sid_lt BulkReader.fullSecond.status_lt BulkReader.shortFirst.dlen_lt
    (by decide)

def nextFour : Sent :=
  .plain 4 kXR_ok [3, 4, 5, 6] BulkReader.fullSecond.sid_lt BulkReader.fullSecond.status_lt (by decide) (by decide)

def nextOne : Sent :=
  .plain 4 kXR_ok [3] BulkReader.fullSecond.sid_lt BulkReader.fullSecond.status_lt (by decide) (by decide)

/-- The first two bytes, the next two with two more behind them, those two, and the rest. -/
def inARow : List (ReadCall × Weather) :=
  [(.read 2 0, lending 2 firstTwo), (.read 2 2, lending 4 nextFour), (.pread 2 4, {}), (.read (-1) 6, {})]

theorem read_transparent_inARow : inARow.length = 4 ∧
    ∀ m ∈ calls (eightAhead 2) inARow, m.2 = .ok (m.1.answer BulkReader.eightBytes) := by
  refine ⟨rfl, ?_⟩
  have hhonest : ∀ c ∈ inARow, (eightAhead 2).config.bulk = true →
      ∀ n, Honest (eightAhead 2) c.2 n c.1.offset :=
    List.forall_mem_cons.mpr ⟨fun _ => lending_honest (by decide +kernel),
      List.forall_mem_cons.mpr ⟨fun _ => lending_honest (by decide +kernel),
        List.forall_mem_cons.mpr ⟨fun _ _ => trivial, List.forall_mem_singleton.mpr fun _ _ => trivial⟩⟩⟩
  have hchunks : ∀ {size offset : Nat}, offset + size ≤ 2 ^ 63 →
      FairChunks (eightAhead 2) (fun _ => {}) size offset := fun h =>
    ⟨by decide, by decide, h, fun _ => .inr trivial⟩
  have hdeclines : ∀ n offset, FairPlane (eightAhead 2) {} n offset := fun _ _ =>
    ⟨by decide, by decide, trivial⟩
  refine (read_transparent ⟨rfl, rfl, rfl, by rintro _ ⟨⟩⟩ (by decide) inARow hhonest).2
    (List.forall_mem_cons.mpr ⟨?_, List.forall_mem_cons.mpr ⟨?_, List.forall_mem_cons.mpr ⟨?_,
      List.forall_mem_singleton.mpr ?_⟩⟩⟩)
  · exact ⟨nofun, nofun, fun _ => lending_fair (by decide) (by decide), hchunks (by decide)⟩
  · exact ⟨nofun, nofun, fun _ => lending_fair (by decide) (by decide), hchunks (by decide)⟩
  · exact ⟨nofun, nofun, fun _ n => hdeclines n _, hchunks (by decide)⟩
  · exact ⟨fun _ => trivial, fun _ => .inr (by decide), fun _ n => hdeclines n _, hchunks (by decide)⟩

/-! ## Configurations that are not sizes -/

/-- The same two reads, where the second one asks for one byte less than it was asked for. -/
def oneShort : List (ReadCall × Weather) := [(.read 2 0, lending 2 firstTwo), (.read 2 2, lending 1 nextOne)]

/-- No pipeline, and no ceiling but a low one. -/
def noDepth : File := { eightAhead 2 with config := { bulkDepth := 0 } }

def lowCeiling : File := { eightAhead 2 with config := { maxReadSize := 4 } }

/-- With a readahead below nothing a read that goes on from the last comes back short, though
the server gives all that it is asked for; with no depth a read raises; and a read to the end
of more than the ceiling is refused. -/
theorem short_by_negative_readahead :
    (∀ c ∈ oneShort, ∀ n, Honest (eightAhead (-1)) c.2 n c.1.offset) ∧
      (calls (eightAhead (-1)) oneShort).map Prod.snd = [.ok [1, 2], .ok [3]] ∧
      (calls (eightAhead (-1)) oneShort).map (fun m => m.1.answer BulkReader.eightBytes) =
        [[1, 2], [3, 4]] ∧
      (calls noDepth [(.read 2 0, {})]).map Prod.snd = [.error .zeroDivision] ∧
      (calls lowCeiling [(.read (-1) 0, {})]).map Prod.snd = [.error (.tooLarge 8 4)] := by
  refine ⟨List.forall_mem_cons.mpr ⟨lending_honest (by decide +kernel),
    List.forall_mem_singleton.mpr (lending_honest (by decide +kernel))⟩, by decide +kernel,
    by decide +kernel, by decide, by decide⟩

end XrdClient.Client.File
