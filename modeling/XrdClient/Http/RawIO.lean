/-
  Http/RawIO.lean --- the writing half of a raw HTTP file.

  `write` holds what it is given until that passes `_stream_after`, then starts an upload
  and streams.  How an upload starts, takes a payload and ends is left to hooks, which the
  S3 file overrides, so `write`, `close` and `tell` are written once over any `Hooks`.

  A call is paired with its weather: what becomes of the requests it makes.  `writes` runs
  the calls in order, whether or not the ones before returned, as a caller that catches
  the error and writes again does.
-/
import XrdClient.Lib.Bytes

set_option autoImplicit false

namespace XrdClient.Http

open XrdClient.Lib

/-- What a write or a close raises. -/
inductive Fault (ε : Type) where
  /-- A request raised `e`. -/
  | raised (e : ε)
  /-- `ProtocolError`: the server began an upload without naming it. -/
  | unnamed
  /-- `ProtocolError`: the server failed to complete a multipart upload. -/
  | incomplete
  /-- `AssertionError`: a chunk or a finish without an upload. -/
  | assertion
  deriving DecidableEq

/-- The parts of the file that `HTTPRawIO` and its subclass do differently. -/
structure Hooks (υ ω κ ε : Type) where
  /-- The upload's fields as the constructor leaves them. -/
  initial : υ
  /-- `_streaming` -/
  streaming : υ → Bool
  /-- `_stream_after`, given `config.chunk_size` -/
  streamAfter : Nat → Nat
  /-- `_begin_upload`: the outcome, and the buffer and the upload it leaves. -/
  beginUpload : ω → Bytes → υ → Except (Fault ε) Unit × Bytes × υ
  /-- `_send_chunk` -/
  sendChunk : ω → Bytes → υ → Except (Fault ε) Unit × υ
  /-- `_finish_upload`: the outcome, the object the server has completed, and the upload. -/
  finishUpload : κ → υ → Except (Fault ε) Unit × Option Bytes × υ

/-- A file opened for writing, with the object its requests have stored so far. -/
structure RawIO (υ : Type) where
  chunkSize : Nat
  pos : Nat
  buffer : Bytes
  upload : υ
  done : Bool
  stored : Option Bytes

/-- What becomes of the requests of a close: the single `PUT`, or the end of an upload. -/
structure Closing (κ ε : Type) where
  put : Option ε
  finish : κ

variable {υ ω κ ε : Type} (H : Hooks υ ω κ ε)

/-- A file as its constructor leaves it. -/
def RawIO.new (chunkSize : Nat) : RawIO υ :=
  { chunkSize := chunkSize, pos := 0, buffer := [], upload := H.initial, done := false,
    stored := none }

/-- `tell` -/
def RawIO.tell (s : RawIO υ) : Nat := s.pos

/-- `write` -/
def write (s : RawIO υ) (payload : Bytes) (weather : ω) : Except (Fault ε) Nat × RawIO υ :=
  if payload = [] then (.ok 0, s)
  else if H.streaming s.upload then
    match H.sendChunk weather payload s.upload with
    | (.error e, upload) => (.error e, { s with upload := upload })
    | (.ok (), upload) =>
      (.ok payload.length, { s with upload := upload, pos := s.pos + payload.length })
  else if (s.buffer ++ payload).length ≤ H.streamAfter s.chunkSize then
    (.ok payload.length, { s with buffer := s.buffer ++ payload })
  else
    match H.beginUpload weather (s.buffer ++ payload) s.upload with
    | (.error e, buffer, upload) => (.error e, { s with buffer := buffer, upload := upload })
    | (.ok (), buffer, upload) =>
      (.ok payload.length,
        { s with buffer := buffer, upload := upload, pos := s.pos + payload.length })

/-- `close` -/
def close (s : RawIO υ) (closing : Closing κ ε) : Except (Fault ε) Unit × RawIO υ :=
  if s.done then (.ok (), s)
  else if H.streaming s.upload then
    match H.finishUpload closing.finish s.upload with
    | (outcome, completed, upload) =>
      (outcome, { s with done := true, upload := upload, stored := completed.or s.stored })
  else
    match closing.put with
    | some e => (.error (.raised e), { s with done := true })
    | none => (.ok (), { s with done := true, buffer := [], stored := some s.buffer })

/-- The calls made one after another: the payloads whose write returned, and the file. -/
def writes (s : RawIO υ) : List (Bytes × ω) → List Bytes × RawIO υ
  | [] => ([], s)
  | (payload, weather) :: calls =>
    match write H s payload weather with
    | (.ok _, s') => (payload :: (writes s' calls).1, (writes s' calls).2)
    | (.error _, s') => writes s' calls

/-- Every payload of some calls, whether or not its write returned. -/
def attempted (calls : List (Bytes × ω)) : Bytes := (calls.map Prod.fst).flatten

/-- How many bytes the writes that returned accepted. -/
def accepted (returned : List Bytes) : Nat := (returned.map List.length).sum

variable {H} {s : RawIO υ} {payload : Bytes} {weather : ω} {calls : List (Bytes × ω)}

@[simp] theorem accepted_nil : accepted [] = 0 := rfl

@[simp] theorem accepted_cons (payload : Bytes) (returned : List Bytes) :
    accepted (payload :: returned) = payload.length + accepted returned := rfl

@[simp] theorem attempted_nil : attempted ([] : List (Bytes × ω)) = [] := rfl

@[simp] theorem attempted_cons (call : Bytes × ω) (calls : List (Bytes × ω)) :
    attempted (call :: calls) = call.1 ++ attempted calls := rfl

@[simp] theorem writes_nil (s : RawIO υ) : writes H s [] = ([], s) := rfl

theorem writes_cons_ok {n : Nat} (h : (write H s payload weather).1 = .ok n) :
    writes H s ((payload, weather) :: calls) =
      (payload :: (writes H (write H s payload weather).2 calls).1,
        (writes H (write H s payload weather).2 calls).2) := by
  rcases hw : write H s payload weather with ⟨outcome, s'⟩
  rw [hw] at h
  subst h
  rw [writes, hw]

theorem writes_cons_error {e : Fault ε} (h : (write H s payload weather).1 = .error e) :
    writes H s ((payload, weather) :: calls) = writes H (write H s payload weather).2 calls := by
  rcases hw : write H s payload weather with ⟨outcome, s'⟩
  rw [hw] at h
  subst h
  rw [writes, hw]

theorem writes_snd : (writes H s ((payload, weather) :: calls)).2 =
    (writes H (write H s payload weather).2 calls).2 := by
  rcases hw : (write H s payload weather).1 with e | n
  · rw [writes_cons_error hw]
  · rw [writes_cons_ok hw]

theorem writes_append (calls more : List (Bytes × ω)) : ∀ s : RawIO υ,
    writes H s (calls ++ more) =
      ((writes H s calls).1 ++ (writes H (writes H s calls).2 more).1,
        (writes H (writes H s calls).2 more).2) := by
  induction calls with
  | nil => intro s; rfl
  | cons call calls ih =>
    intro s
    obtain ⟨payload, weather⟩ := call
    rw [List.cons_append]
    rcases hw : (write H s payload weather).1 with e | n
    · rw [writes_cons_error hw, writes_cons_error hw, ih]
    · rw [writes_cons_ok hw, writes_cons_ok hw, ih]
      rfl

/-- No more is returned than was attempted. -/
theorem returned_length_le : ∀ (calls : List (Bytes × ω)) (s : RawIO υ),
    (writes H s calls).1.flatten.length ≤ (attempted calls).length := by
  intro calls
  induction calls with
  | nil => intro s; exact Nat.le_refl _
  | cons call calls ih =>
    intro s
    obtain ⟨payload, weather⟩ := call
    have hrest := ih (write H s payload weather).2
    rw [attempted_cons, List.length_append]
    rcases hw : (write H s payload weather).1 with e | n
    · rw [writes_cons_error hw]
      exact Nat.le_trans hrest (Nat.le_add_left _ _)
    · rw [writes_cons_ok hw, List.flatten_cons, List.length_append]
      exact Nat.add_le_add_left hrest _

/-! ## What one write can do -/

theorem write_nil : write H s [] weather = (.ok 0, s) := if_pos rfl

/-- A write once streaming is a chunk. -/
theorem write_streaming (hp : payload ≠ []) (hs : H.streaming s.upload = true) :
    write H s payload weather =
      match H.sendChunk weather payload s.upload with
      | (.error e, upload) => (.error e, { s with upload := upload })
      | (.ok (), upload) =>
        (.ok payload.length, { s with upload := upload, pos := s.pos + payload.length }) := by
  rw [write, if_neg hp, if_pos hs]

/-- A write that still fits is held. -/
theorem write_held (hp : payload ≠ []) (hs : H.streaming s.upload = false)
    (hfits : (s.buffer ++ payload).length ≤ H.streamAfter s.chunkSize) :
    write H s payload weather = (.ok payload.length, { s with buffer := s.buffer ++ payload }) := by
  rw [write, if_neg hp, if_neg (by simp [hs]), if_pos hfits]

/-- A write that no longer fits starts the upload. -/
theorem write_begins (hp : payload ≠ []) (hs : H.streaming s.upload = false)
    (hfull : H.streamAfter s.chunkSize < (s.buffer ++ payload).length) :
    write H s payload weather =
      match H.beginUpload weather (s.buffer ++ payload) s.upload with
      | (.error e, buffer, upload) => (.error e, { s with buffer := buffer, upload := upload })
      | (.ok (), buffer, upload) =>
        (.ok payload.length,
          { s with buffer := buffer, upload := upload, pos := s.pos + payload.length }) := by
  rw [write, if_neg hp, if_neg (by simp [hs]), if_neg (by omega)]

/-- What a write of a chunk comes to, once it is known what the hook does. -/
theorem write_streaming_of {outcome : Except (Fault ε) Unit} {upload : υ} (hp : payload ≠ [])
    (hs : H.streaming s.upload = true)
    (hsend : H.sendChunk weather payload s.upload = (outcome, upload)) :
    write H s payload weather =
      (outcome.map fun _ => payload.length,
        { s with upload := upload,
                 pos := if outcome.isOk then s.pos + payload.length else s.pos }) := by
  rw [write_streaming hp hs, hsend]
  rcases outcome with e | ⟨⟩ <;> rfl

theorem write_begins_of {outcome : Except (Fault ε) Unit} {buffer : Bytes} {upload : υ}
    (hp : payload ≠ []) (hs : H.streaming s.upload = false)
    (hfull : H.streamAfter s.chunkSize < (s.buffer ++ payload).length)
    (hbegin : H.beginUpload weather (s.buffer ++ payload) s.upload = (outcome, buffer, upload)) :
    write H s payload weather =
      (outcome.map fun _ => payload.length,
        { s with buffer := buffer, upload := upload,
                 pos := if outcome.isOk then s.pos + payload.length else s.pos }) := by
  rw [write_begins hp hs hfull, hbegin]
  rcases outcome with e | ⟨⟩ <;> rfl

/-- A write touches the position, the buffer and the upload, and nothing else: whatever
becomes of it, it completes no object. -/
theorem write_frame : (write H s payload weather).2.chunkSize = s.chunkSize ∧
    (write H s payload weather).2.done = s.done ∧
    (write H s payload weather).2.stored = s.stored := by
  rw [write]
  split_ifs
  · exact ⟨rfl, rfl, rfl⟩
  · rcases H.sendChunk weather payload s.upload with ⟨_ | _, _⟩ <;> exact ⟨rfl, rfl, rfl⟩
  · exact ⟨rfl, rfl, rfl⟩
  · rcases H.beginUpload weather (s.buffer ++ payload) s.upload with ⟨_ | _, _, _⟩ <;>
      exact ⟨rfl, rfl, rfl⟩

/-- A rule for runs: what one write keeps, some writes keep. -/
theorem writes_induct {P : RawIO υ → Prop}
    (step : ∀ (s : RawIO υ) (payload : Bytes) (weather : ω), P s → P (write H s payload weather).2) :
    ∀ (calls : List (Bytes × ω)) (s : RawIO υ), P s → P (writes H s calls).2 := by
  intro calls
  induction calls with
  | nil => exact fun _ h => h
  | cons call calls ih =>
    intro s h
    obtain ⟨payload, weather⟩ := call
    have hstep := step s payload weather h
    rcases hw : (write H s payload weather).1 with e | n
    · rw [writes_cons_error hw]
      exact ih _ hstep
    · rw [writes_cons_ok hw]
      exact ih _ hstep

theorem writes_frame (calls : List (Bytes × ω)) (s : RawIO υ) :
    (writes H s calls).2.chunkSize = s.chunkSize ∧ (writes H s calls).2.done = s.done ∧
      (writes H s calls).2.stored = s.stored := by
  refine writes_induct
    (P := fun t : RawIO υ => t.chunkSize = s.chunkSize ∧ t.done = s.done ∧ t.stored = s.stored)
    (fun t payload weather h => ?_) calls s ⟨rfl, rfl, rfl⟩
  obtain ⟨h₁, h₂, h₃⟩ := @write_frame _ _ _ _ H t payload weather
  exact ⟨h₁.trans h.1, h₂.trans h.2.1, h₃.trans h.2.2⟩

/-- A file that holds all it was given is one `PUT`. -/
theorem close_buffered (hdone : s.done = false) (hs : H.streaming s.upload = false)
    (closing : Closing κ ε) :
    (closing.put = none →
      close H s closing = (.ok (), { s with done := true, buffer := [], stored := some s.buffer })) ∧
    ∀ e, closing.put = some e →
      close H s closing = (.error (.raised e), { s with done := true }) := by
  refine ⟨fun hput => ?_, fun e hput => ?_⟩ <;>
    rw [close, if_neg (by simp [hdone]), if_neg (by simp [hs]), hput]

/-- A file that streams ends its upload. -/
theorem close_streaming {closing : Closing κ ε} {outcome : Except (Fault ε) Unit}
    {completed : Option Bytes} {upload : υ} (hdone : s.done = false)
    (hs : H.streaming s.upload = true)
    (hfinish : H.finishUpload closing.finish s.upload = (outcome, completed, upload)) :
    close H s closing =
      (outcome, { s with done := true, upload := upload, stored := completed.or s.stored }) := by
  rw [close, if_neg (by simp [hdone]), if_pos hs, hfinish]

/-- The file after some writes from its opening on. -/
def after (H : Hooks υ ω κ ε) (chunkSize : Nat) (calls : List (Bytes × ω)) : RawIO υ :=
  (writes H ( RawIO.new H chunkSize) calls).2

/-- The payloads whose write returned. -/
def returned (H : Hooks υ ω κ ε) (chunkSize : Nat) (calls : List (Bytes × ω)) : List Bytes :=
  (writes H ( RawIO.new H chunkSize) calls).1

/-- An upload commits all or nothing: a close that returns has stored the payloads whose
write returned, each once and in order; and once a chunk or part is lost (`lost`), no
later write or close completes an object, whatever becomes of the requests of the close. -/
structure AllOrNothing (H : Hooks υ ω κ ε) (lost : υ → Prop) (chunkSize : Nat)
    (calls : List (Bytes × ω)) : Prop where
  exact : ∀ closing : Closing κ ε, (close H (after H chunkSize calls) closing).1 = .ok () →
    (close H (after H chunkSize calls) closing).2.stored =
      some (returned H chunkSize calls).flatten
  none : ∀ before later, calls = before ++ later → lost (after H chunkSize before).upload →
    (after H chunkSize calls).stored = none ∧
      ∀ closing : Closing κ ε, (close H (after H chunkSize calls) closing).2.stored = none

/-! ## The position

The position moves on two of the three ways a write can return: a payload that is held
does not move it.  Once the file streams, or holds more than it may because the opening
request failed, no write is held again, and the position keeps up from there. -/

/-- What the hooks owe the base class: an upload that has begun stays one, and a request
that failed to begin one leaves the payloads in the buffer. -/
structure Hooks.Lawful (H : Hooks υ ω κ ε) : Prop where
  send_streams : ∀ weather payload upload, H.streaming upload = true →
    H.streaming (H.sendChunk weather payload upload).2 = true
  begins : ∀ weather buffer upload, H.streaming upload = false →
    H.streaming (H.beginUpload weather buffer upload).2.2 = true ∨
      (∃ e, (H.beginUpload weather buffer upload).1 = .error e) ∧
        (H.beginUpload weather buffer upload).2.1 = buffer

/-- No later payload will be held. -/
def Full (H : Hooks υ ω κ ε) (s : RawIO υ) : Prop :=
  H.streaming s.upload = true ∨ H.streamAfter s.chunkSize < s.buffer.length

/-- The first payload that is not empty is more than the file may hold. -/
def StartsFull (H : Hooks υ ω κ ε) (chunkSize : Nat) (payloads : List Bytes) : Prop :=
  ∀ payload, payloads.find? (· ≠ []) = some payload → H.streamAfter chunkSize < payload.length

/-- A write that leaves a full file, and moves the position by what it accepts. -/
structure KeepsUp (H : Hooks υ ω κ ε) (s : RawIO υ) (payload : Bytes) (weather : ω) : Prop where
  full : Full H (write H s payload weather).2
  ok : ∀ n, (write H s payload weather).1 = .ok n →
    (write H s payload weather).2.pos = s.pos + payload.length
  error : ∀ e, (write H s payload weather).1 = .error e →
    (write H s payload weather).2.pos = s.pos

/-- A write that starts the upload keeps up, also if the opening request fails. -/
theorem begins_keepsUp (hH : H.Lawful) (hp : payload ≠ [])
    (hs : H.streaming s.upload = false)
    (hfull : H.streamAfter s.chunkSize < (s.buffer ++ payload).length) :
    KeepsUp H s payload weather := by
  have hbegins := hH.begins weather (s.buffer ++ payload) s.upload hs
  have hwrite : write H s payload weather = _ := write_begins hp hs hfull
  rcases hb : H.beginUpload weather (s.buffer ++ payload) s.upload with ⟨e | ⟨⟩, buffer, upload⟩
  · rw [hb] at hbegins hwrite
    refine ⟨?_, fun n hn => ?_, fun _ _ => by rw [hwrite]⟩
    · rw [hwrite]
      rcases hbegins with hup | ⟨_, hbuf⟩
      · exact .inl hup
      · refine .inr ?_
        show H.streamAfter s.chunkSize < buffer.length
        rw [show buffer = s.buffer ++ payload from hbuf]
        exact hfull
    · rw [hwrite] at hn
      exact nomatch hn
  · rw [hb] at hbegins hwrite
    refine ⟨?_, fun _ _ => by rw [hwrite], fun e he => ?_⟩
    · rw [hwrite]
      rcases hbegins with hup | ⟨⟨e, he⟩, _⟩
      · exact .inl hup
      · exact nomatch he
    · rw [hwrite] at he
      exact nomatch he

theorem streams_keepsUp (hH : H.Lawful) (hp : payload ≠ []) (hs : H.streaming s.upload = true) :
    KeepsUp H s payload weather := by
  have hstays := hH.send_streams weather payload s.upload hs
  have hwrite : write H s payload weather = _ := write_streaming hp hs
  rcases hb : H.sendChunk weather payload s.upload with ⟨e | ⟨⟩, upload⟩
  · rw [hb] at hstays hwrite
    refine ⟨by rw [hwrite]; exact .inl hstays, fun n hn => ?_, fun _ _ => by rw [hwrite]⟩
    rw [hwrite] at hn
    exact nomatch hn
  · rw [hb] at hstays hwrite
    refine ⟨by rw [hwrite]; exact .inl hstays, fun _ _ => by rw [hwrite], fun e he => ?_⟩
    rw [hwrite] at he
    exact nomatch he

/-- A payload that is not empty is held, or the write keeps up. -/
theorem write_held_or_keepsUp (hH : H.Lawful) (hp : payload ≠ []) :
    (H.streaming s.upload = false ∧
      s.buffer.length + payload.length ≤ H.streamAfter s.chunkSize ∧
      write H s payload weather =
        (.ok payload.length, { s with buffer := s.buffer ++ payload })) ∨
    KeepsUp H s payload weather := by
  rcases hs : H.streaming s.upload with _ | _
  · rcases Nat.lt_or_ge (H.streamAfter s.chunkSize) (s.buffer ++ payload).length with
      hfull | hfits
    · exact .inr (begins_keepsUp hH hp hs hfull)
    · exact .inl ⟨rfl, by rwa [List.length_append] at hfits, write_held hp hs hfits⟩
  · exact .inr (streams_keepsUp hH hp hs)

/-- A full file stays full, and its position keeps up with what its writes accept. -/
theorem full_keepsUp (hH : H.Lawful) (h : Full H s) : KeepsUp H s payload weather := by
  by_cases hp : payload = []
  · subst hp
    exact ⟨by rwa [write_nil], fun _ _ => by rw [write_nil]; rfl, fun _ _ => by rw [write_nil]⟩
  rcases @write_held_or_keepsUp _ _ _ _ H s payload weather hH hp with ⟨hs, hfits, _⟩ | hkeeps
  · rcases h with hup | hfull
    · rw [hs] at hup
      exact nomatch hup
    · omega
  · exact hkeeps

/-- From a full file on, the position counts what was accepted. -/
theorem writes_pos_full (hH : H.Lawful) : ∀ (calls : List (Bytes × ω)) (s : RawIO υ), Full H s →
    (writes H s calls).2.pos = s.pos + accepted (writes H s calls).1 := by
  intro calls
  induction calls with
  | nil => intro s _; rfl
  | cons call calls ih =>
    intro s h
    obtain ⟨payload, weather⟩ := call
    have hkeeps : KeepsUp H s payload weather := full_keepsUp hH h
    rcases hw : (write H s payload weather).1 with e | n
    · rw [writes_cons_error hw, ih _ hkeeps.full, hkeeps.error e hw]
    · rw [writes_cons_ok hw, ih _ hkeeps.full, hkeeps.ok n hw, accepted_cons, Nat.add_assoc]

/-- The position never counts more than was accepted. -/
theorem writes_pos_le (hH : H.Lawful) : ∀ (calls : List (Bytes × ω)) (s : RawIO υ),
    (writes H s calls).2.pos ≤ s.pos + accepted (writes H s calls).1 := by
  intro calls
  induction calls with
  | nil => intro s; exact Nat.le_refl _
  | cons call calls ih =>
    intro s
    obtain ⟨payload, weather⟩ := call
    by_cases hp : payload = []
    · subst hp
      rw [writes_cons_ok (n := 0) (by rw [write_nil]), write_nil]
      have hrest := ih s
      simp only [accepted_cons, List.length_nil] at hrest ⊢
      omega
    rcases @write_held_or_keepsUp _ _ _ _ H s payload weather hH hp with
      ⟨_, _, hheld⟩ | hkeeps
    · rw [writes_cons_ok (n := payload.length) (by rw [hheld]), hheld]
      have hrest := ih { s with buffer := s.buffer ++ payload }
      simp only [accepted_cons] at hrest ⊢
      omega
    · rcases hw : (write H s payload weather).1 with e | n
      · rw [writes_cons_error hw, ← hkeeps.error e hw]
        exact ih _
      · rw [writes_cons_ok hw, accepted_cons, ← Nat.add_assoc, ← hkeeps.ok n hw]
        exact ih _

/-- `tell` counts what was accepted exactly if no payload was held on the way: the first
that is not empty is more than the file may hold. -/
theorem writes_tell_iff (hH : H.Lawful) (hinit : H.streaming H.initial = false)
    (chunkSize : Nat) : ∀ calls : List (Bytes × ω),
    (after H chunkSize calls).tell = accepted (returned H chunkSize calls) ↔
      StartsFull H chunkSize (calls.map Prod.fst) := by
  intro calls
  induction calls with
  | nil => exact iff_of_true rfl (fun _ h => nomatch h)
  | cons call calls ih =>
    obtain ⟨payload, weather⟩ := call
    rw [after, returned] at ih ⊢
    by_cases hp : payload = []
    · subst hp
      rw [writes_cons_ok (n := 0) (by rw [write_nil]), write_nil]
      simpa [StartsFull] using ih
    have hfirst : StartsFull H chunkSize (((payload, weather) :: calls).map Prod.fst) ↔
        H.streamAfter chunkSize < payload.length := by
      simp [StartsFull, hp]
    rw [hfirst]
    rcases Nat.lt_or_ge (H.streamAfter chunkSize) payload.length with hfull | hfits
    · -- never held: the position keeps up from the first byte
      refine iff_of_true ?_ hfull
      have hkeeps : KeepsUp H ( RawIO.new H chunkSize) payload weather :=
        begins_keepsUp hH hp hinit hfull
      rcases hw : (write H ( RawIO.new H chunkSize) payload weather).1 with e | n
      · rw [writes_cons_error hw]
        show (writes H _ calls).2.pos = _
        rw [writes_pos_full hH _ _ hkeeps.full, hkeeps.error e hw]
        exact Nat.zero_add _
      · rw [writes_cons_ok hw]
        show (writes H _ calls).2.pos = _
        rw [writes_pos_full hH _ _ hkeeps.full, hkeeps.ok n hw, accepted_cons]
        exact congrArg (· + _) (Nat.zero_add _)
    · -- held: accepted, and the position stays behind for good
      refine iff_of_false ?_ (Nat.not_lt.mpr hfits)
      have hheld : write H ( RawIO.new H chunkSize) payload weather = _ :=
        write_held hp hinit hfits
      rw [writes_cons_ok (n := payload.length) (by rw [hheld]), hheld]
      have hrest := writes_pos_le hH calls
        { RawIO.new H chunkSize with buffer := ( RawIO.new H chunkSize).buffer ++ payload }
      have hpos : 0 < payload.length := List.length_pos_of_ne_nil hp
      have hzero : ( RawIO.new H chunkSize).pos = 0 := rfl
      show (writes H _ calls).2.pos ≠ _
      simp only [accepted_cons] at hrest ⊢
      omega

end XrdClient.Http
