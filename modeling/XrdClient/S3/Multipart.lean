/-
  S3/Multipart.lean --- the multipart upload of `S3RawIO`.

  The file overrides the hooks of the raw HTTP file: an upload is opened by a request of
  its own and named by the server, payloads collect in a pending part, and a part goes out
  once it is as large as the number of parts already sent asks for.  A part that is lost
  fails the upload for good: `_failure` is what every later write and the close raise.

  `sent` lists the part requests made, with their numbers.  What the server makes of a
  manifest is `assembled`: the parts numbered one to the length of the manifest, in order,
  a number sent twice standing for its last body.
-/
import Mathlib
import XrdClient.Http.Upload

set_option autoImplicit false

namespace XrdClient.S3

open XrdClient.Lib XrdClient.Http

/-- `MIN_PART_SIZE` -/
def minPartSize : Nat := 5 <<< 20

/-- `MAX_PARTS` -/
def maxParts : Nat := 10000

/-- `MAX_PART_SIZE` -/
def maxPartSize : Nat := 5 <<< 30

/-- `_PARTS_PER_DOUBLING` -/
def partsPerDoubling : Nat := 900

/-- `_part_size`: how much the next part holds, once `sent` parts have gone up. -/
def partSize (sent : Nat) : Nat :=
  min (minPartSize <<< (sent / partsPerDoubling)) maxPartSize

/-- `_etag`: an `ETag` without the quotes around it. -/
def etag (value : Text) : Text :=
  (((strip value).dropWhile (· = '"')).reverse.dropWhile (· = '"')).reverse

/-- The fields of the upload, and the part requests made so far. -/
structure Multipart (ε : Type) where
  uploadId : Text
  parts : List Text
  pending : Bytes
  failure : Option (Fault ε)
  sent : List (Nat × Bytes)

/-- What becomes of the requests of one write: the `UploadId` the opening request is
answered with, and the `ETag` of the part. -/
structure Weather (ε : Type) where
  opens : Except ε Text
  part : Except ε Text

/-- What becomes of the requests of a close: the last part, and the completion, with
whether its answer reports an error. -/
structure Finish (ε : Type) where
  part : Except ε Text
  completes : Except ε Bool

variable {ε : Type}

/-- The object a manifest of `n` parts makes. -/
def assembled (sent : List (Nat × Bytes)) (n : Nat) : Bytes :=
  (List.range n).flatMap fun i =>
    ((sent.reverse.find? fun part => part.1 = i + 1).map Prod.snd).getD []

/-- `_fail`: the request that throws the parts away stores nothing, and its own failure is
swallowed. -/
def fail (e : Fault ε) (u : Multipart ε) : Multipart ε :=
  { u with failure := u.failure.or (some e), uploadId := [], pending := [] }

/-- `_drain` -/
def drain (final : Bool) (part : Except ε Text) (u : Multipart ε) :
    Except (Fault ε) Unit × Multipart ε :=
  if partSize u.parts.length ≤ u.pending.length ∨ final = true ∧ u.pending ≠ [] then
    let sent := u.sent ++ [(u.parts.length + 1, u.pending)]
    match part with
    | .error e => (.error (.raised e), fail (.raised e) { u with pending := [], sent := sent })
    | .ok tag => (.ok (), { u with pending := [], sent := sent, parts := u.parts ++ [etag tag] })
  else (.ok (), u)

/-- `_begin_upload` -/
def beginUpload (weather : Weather ε) (buffer : Bytes) (u : Multipart ε) :
    Except (Fault ε) Unit × Bytes × Multipart ε :=
  match weather.opens with
  | .error e => (.error (.raised e), buffer, u)
  | .ok name =>
    if name = [] then (.error .unnamed, buffer, { u with uploadId := [] })
    else
      match drain false weather.part
          { u with uploadId := name, pending := u.pending ++ buffer } with
      | (outcome, u) => (outcome, [], u)

/-- `_send_chunk` -/
def sendChunk (weather : Weather ε) (payload : Bytes) (u : Multipart ε) :
    Except (Fault ε) Unit × Multipart ε :=
  match u.failure with
  | some e => (.error e, u)
  | none => drain false weather.part { u with pending := u.pending ++ payload }

/-- `_finish_upload` -/
def finishUpload (weather : Finish ε) (u : Multipart ε) :
    Except (Fault ε) Unit × Option Bytes × Multipart ε :=
  match u.failure with
  | some e => (.error e, none, u)
  | none =>
    match drain true weather.part u with
    | (.error e, u) => (.error e, none, fail e u)
    | (.ok (), u) =>
      match weather.completes with
      | .error e => (.error (.raised e), none, fail (.raised e) u)
      | .ok true => (.error .incomplete, none, fail .incomplete u)
      | .ok false => (.ok (), some (assembled u.sent u.parts.length), { u with uploadId := [] })

/-- `S3RawIO` -/
def s3RawIO : Hooks (Multipart ε) (Weather ε) (Finish ε) ε where
  initial := { uploadId := [], parts := [], pending := [], failure := none, sent := [] }
  streaming u := u.uploadId ≠ [] || u.failure.isSome
  streamAfter chunkSize := max chunkSize minPartSize
  beginUpload := beginUpload
  sendChunk := sendChunk
  finishUpload := finishUpload

variable {u : Multipart ε} {s : RawIO (Multipart ε)} {payload taken : Bytes}
  {weather : Weather ε}

/-! ## What the server assembles -/

theorem assembled_append (sent : List (Nat × Bytes)) (n : Nat) (body : Bytes) :
    assembled (sent ++ [(n + 1, body)]) (n + 1) = assembled sent n ++ body := by
  rw [assembled, List.range_succ, List.flatMap_append, List.reverse_append]
  congr 1
  · refine List.flatMap_congr fun i hi => ?_
    have hne : ¬n = i := Nat.ne_of_gt (List.mem_range.mp hi)
    simp [hne]
  · simp

/-- Parts numbered from one, each once: the object is their bodies in order. -/
theorem assembled_numbered : ∀ sent : List (Nat × Bytes),
    sent.map Prod.fst = List.range' 1 sent.length →
    assembled sent sent.length = (sent.map Prod.snd).flatten := by
  intro sent
  induction sent using List.reverseRecOn with
  | nil => exact fun _ => rfl
  | append_singleton sent part ih =>
    intro h
    rw [List.length_append, List.length_singleton, List.map_append, List.range'_concat] at h
    obtain ⟨hinit, hlast⟩ := List.append_inj h (by simp)
    obtain ⟨number, body⟩ := part
    have hnumber : number = sent.length + 1 := by
      have hn : number = 1 + 1 * sent.length := by simpa using hlast
      omega
    rw [List.length_append, List.length_singleton, hnumber, assembled_append, ih hinit]
    simp

/-! ## The upload under way -/

/-- A named upload that has lost nothing: what was given to it is in the parts sent, which
are numbered from one, and in the pending part. -/
structure Open (taken : Bytes) (u : Multipart ε) : Prop where
  named : u.uploadId ≠ []
  whole : u.failure = none
  tagged : u.parts.length = u.sent.length
  numbered : u.sent.map Prod.fst = List.range' 1 u.sent.length
  bytes : (u.sent.map Prod.snd).flatten ++ u.pending = taken

/-- A part, or the upload, has been lost. -/
def Lost (u : Multipart ε) : Prop := u.failure ≠ none

/-- A named upload with more in its pending part. -/
theorem Open.take (h : Open taken u) (payload : Bytes) :
    Open (taken ++ payload) { u with pending := u.pending ++ payload } where
  named := h.named
  whole := h.whole
  tagged := h.tagged
  numbered := h.numbered
  bytes := by rw [← h.bytes, List.append_assoc]

/-- The upload after its pending part has gone up. -/
def sendPart (tag : Text) (u : Multipart ε) : Multipart ε :=
  { u with pending := [], sent := u.sent ++ [(u.parts.length + 1, u.pending)],
           parts := u.parts ++ [etag tag] }

theorem Open.send (h : Open taken u) (tag : Text) : Open taken (sendPart tag u) where
  named := h.named
  whole := h.whole
  tagged := by simp [sendPart, h.tagged]
  numbered := by
    have hfrom : 1 + 1 * u.sent.length = u.parts.length + 1 := by
      rw [h.tagged]
      omega
    show (u.sent ++ [(u.parts.length + 1, u.pending)]).map Prod.fst = _
    rw [List.map_append, h.numbered]
    show _ = List.range' 1 (u.sent ++ [(u.parts.length + 1, u.pending)]).length
    rw [List.length_append, List.length_singleton, List.range'_concat, hfrom]
    rfl
  bytes := by simp [sendPart, ← h.bytes]

/-- Whether a drain makes a part request. -/
def Due (final : Bool) (u : Multipart ε) : Prop :=
  partSize u.parts.length ≤ u.pending.length ∨ final = true ∧ u.pending ≠ []

/-- All that a drain can do: nothing, send the pending part, or lose it. -/
theorem drain_cases (final : Bool) (part : Except ε Text) (u : Multipart ε) :
    (¬Due final u ∧ drain final part u = (.ok (), u)) ∨
    (Due final u ∧ ∃ tag, part = .ok tag ∧ drain final part u = (.ok (), sendPart tag u)) ∨
    (Due final u ∧ ∃ e, part = .error e ∧ drain final part u =
      (.error (.raised e), fail (.raised e)
        { u with pending := [], sent := u.sent ++ [(u.parts.length + 1, u.pending)] })) := by
  by_cases hdue : Due final u
  · rcases part with e | tag
    · exact .inr (.inr ⟨hdue, e, rfl, if_pos hdue⟩)
    · exact .inr (.inl ⟨hdue, tag, rfl, if_pos hdue⟩)
  · exact .inl ⟨hdue, if_neg hdue⟩

theorem fail_lost (e : Fault ε) (u : Multipart ε) : Lost (fail e u) := by
  show u.failure.or (some e) ≠ none
  rcases u.failure with _ | e' <;> exact Option.some_ne_none _

/-- A drain keeps an open upload open, or loses it and raises. -/
theorem Open.drain (h : Open taken u) (final : Bool) (part : Except ε Text) :
    (∃ u', S3.drain final part u = (.ok (), u') ∧ Open taken u') ∨
      ∃ e u', part = .error e ∧ S3.drain final part u = (.error (.raised e), u') ∧ Lost u' := by
  rcases drain_cases final part u with ⟨_, hd⟩ | ⟨_, tag, _, hd⟩ | ⟨_, e, hpart, hd⟩
  · exact .inl ⟨u, hd, h⟩
  · exact .inl ⟨_, hd, h.send tag⟩
  · exact .inr ⟨e, _, hpart, hd, fail_lost _ _⟩

/-- A final drain leaves nothing pending. -/
theorem drain_final {u' : Multipart ε} {part : Except ε Text}
    (h : drain true part u = (.ok (), u')) : u'.pending = [] := by
  rcases drain_cases true part u with ⟨hdue, hd⟩ | ⟨_, tag, _, hd⟩ | ⟨_, e, _, hd⟩
  · rw [hd] at h
    cases h
    by_contra hne
    exact hdue (.inr ⟨rfl, hne⟩)
  · rw [hd] at h
    cases h
    rfl
  · rw [hd] at h
    exact nomatch h

theorem streaming_iff (u : Multipart ε) :
    s3RawIO.streaming u = true ↔ u.uploadId ≠ [] ∨ Lost u := by
  show (decide (u.uploadId ≠ []) || u.failure.isSome) = true ↔ _
  rw [Bool.or_eq_true, decide_eq_true_iff, Option.isSome_iff_ne_none]
  exact Iff.rfl

theorem Open.streaming (h : Open taken u) : s3RawIO.streaming u = true :=
  (streaming_iff u).mpr (.inl h.named)

theorem Lost.streaming (h : Lost u) : s3RawIO.streaming u = true :=
  (streaming_iff u).mpr (.inr h)

/-- A drain of an upload under way leaves one under way, or one that has failed. -/
theorem drain_streaming (final : Bool) (part : Except ε Text)
    (h : s3RawIO.streaming u = true) : s3RawIO.streaming (drain final part u).2 = true := by
  rcases drain_cases final part u with ⟨_, hd⟩ | ⟨_, tag, _, hd⟩ | ⟨_, e, _, hd⟩
  · rwa [hd]
  · rw [hd]
    exact h
  · rw [hd]
    exact (fail_lost _ _).streaming

theorem sendChunk_whole (h : u.failure = none) :
    sendChunk weather payload u =
      drain false weather.part { u with pending := u.pending ++ payload } := by
  obtain ⟨uploadId, parts, pending, failure, sent⟩ := u
  cases h
  rfl

theorem sendChunk_failed {e : Fault ε} (h : u.failure = some e) :
    sendChunk weather payload u = (.error e, u) := by
  rw [sendChunk, h]

theorem s3RawIO_lawful : (@ s3RawIO ε).Lawful where
  send_streams weather payload upload h := by
    show s3RawIO.streaming (sendChunk weather payload upload).2 = true
    rcases hf : upload.failure with _ | e
    · rw [sendChunk_whole hf]
      exact drain_streaming false weather.part h
    · rw [sendChunk_failed hf]
      exact h
  begins weather buffer upload _ := by
    show s3RawIO.streaming (beginUpload weather buffer upload).2.2 = true ∨
      (∃ e, (beginUpload weather buffer upload).1 = .error e) ∧
        (beginUpload weather buffer upload).2.1 = buffer
    rw [beginUpload]
    rcases weather.opens with e | name
    · exact .inr ⟨⟨_, rfl⟩, rfl⟩
    · by_cases hname : name = []
      · simp only [if_pos hname]
        exact .inr ⟨⟨_, rfl⟩, trivial⟩
      · simp only [if_neg hname]
        refine .inl (drain_streaming false weather.part ?_)
        exact (streaming_iff _).mpr (.inl hname)

/-! ## One write -/

/-- The upload's fields as the constructor leaves them. -/
def fresh : Multipart ε := (@ s3RawIO ε).initial

/-- Everything attempted is still to hand: in the buffer, or in an open upload. -/
def Intact (taken : Bytes) (s : RawIO (Multipart ε)) : Prop :=
  s.upload = fresh ∧ s.buffer = taken ∨ Open taken s.upload

/-- The upload once the server has named it. -/
def named (name : Text) (buffer : Bytes) : Multipart ε :=
  { uploadId := name, parts := [], pending := buffer, failure := none, sent := [] }

theorem open_named {name : Text} (h : name ≠ []) (buffer : Bytes) :
    Open buffer (named (ε := ε) name buffer) where
  named := h
  whole := rfl
  tagged := rfl
  numbered := rfl
  bytes := rfl

/-- The opening request is answered with a name. -/
def Names (opens : Except ε Text) : Prop := ∃ name, opens = .ok name ∧ name ≠ []

theorem write_s3_held (hp : payload ≠ []) (hs : s.upload = fresh)
    (hfits : s.buffer.length + payload.length ≤ max s.chunkSize minPartSize) :
    write s3RawIO s payload weather =
      (.ok payload.length, { s with buffer := s.buffer ++ payload }) :=
  write_held hp (by rw [hs]; rfl) (by rwa [List.length_append])

/-- A write whose opening request is not answered with a name raises, and has taken its
payload in. -/
theorem write_s3_unopened (hp : payload ≠ []) (hs : s.upload = fresh)
    (hfull : max s.chunkSize minPartSize < s.buffer.length + payload.length)
    (hopens : ¬Names weather.opens) :
    ∃ e, write s3RawIO s payload weather =
      (.error e, { s with buffer := s.buffer ++ payload }) := by
  have hbegin : ∃ e, (@ s3RawIO ε).beginUpload weather (s.buffer ++ payload) s.upload =
      (.error e, s.buffer ++ payload, s.upload) := by
    show ∃ e, beginUpload weather _ _ = _
    rw [beginUpload]
    rcases hname : weather.opens with e | name
    · exact ⟨_, rfl⟩
    · have hempty : name = [] := by
        by_contra hne
        exact hopens ⟨name, hname, hne⟩
      simp only [if_pos hempty, hs]
      exact ⟨_, rfl⟩
  obtain ⟨e, hbegin⟩ := hbegin
  refine ⟨e, ?_⟩
  rw [write_begins_of hp (by rw [hs]; rfl) (by rwa [List.length_append]) hbegin]
  rfl

/-- A write that opens the upload drains what was held with it. -/
theorem write_s3_opened {name : Text} (hp : payload ≠ []) (hs : s.upload = fresh)
    (hfull : max s.chunkSize minPartSize < s.buffer.length + payload.length)
    (hopens : weather.opens = .ok name) (hname : name ≠ []) :
    write s3RawIO s payload weather =
      ((drain false weather.part (named name (s.buffer ++ payload))).1.map
          fun _ => payload.length,
        { s with buffer := [],
                 upload := (drain false weather.part (named name (s.buffer ++ payload))).2,
                 pos := if (drain false weather.part (named name (s.buffer ++ payload))).1.isOk
                   then s.pos + payload.length else s.pos }) := by
  have hbegin : (@ s3RawIO ε).beginUpload weather (s.buffer ++ payload) s.upload =
      ((drain false weather.part (named name (s.buffer ++ payload))).1, [],
        (drain false weather.part (named name (s.buffer ++ payload))).2) := by
    show beginUpload weather _ _ = _
    rw [beginUpload, hopens, hs]
    simp only [if_neg hname]
    rfl
  exact write_begins_of hp (by rw [hs]; rfl) (by rwa [List.length_append]) hbegin

/-- A write to an open upload drains what was pending with it. -/
theorem write_s3_chunk (hp : payload ≠ []) (hs : Open taken s.upload) :
    write s3RawIO s payload weather =
      ((drain false weather.part
          { s.upload with pending := s.upload.pending ++ payload }).1.map fun _ => payload.length,
        { s with upload := (drain false weather.part
                   { s.upload with pending := s.upload.pending ++ payload }).2,
                 pos := if (drain false weather.part
                     { s.upload with pending := s.upload.pending ++ payload }).1.isOk
                   then s.pos + payload.length else s.pos }) := by
  have hsend : (@ s3RawIO ε).sendChunk weather payload s.upload =
      ((drain false weather.part { s.upload with pending := s.upload.pending ++ payload }).1,
        (drain false weather.part { s.upload with pending := s.upload.pending ++ payload }).2) := by
    exact sendChunk_whole hs.whole
  exact write_streaming_of hp hs.streaming hsend

/-- A failed upload refuses every payload with what failed it. -/
theorem write_s3_lost {e : Fault ε} (hp : payload ≠ []) (hs : s.upload.failure = some e) :
    write s3RawIO s payload weather = (.error e, s) := by
  have hsend : (@ s3RawIO ε).sendChunk weather payload s.upload = (.error e, s.upload) :=
    sendChunk_failed hs
  have hlost : Lost s.upload := by
    rw [Lost, hs]
    exact Option.some_ne_none e
  rw [write_streaming_of hp hlost.streaming hsend]
  rfl

/-- What a write that gets as far as a drain of `u` comes to: it returns with the upload
still open, or its part fails and it raises with the upload lost. -/
def Drained (taken payload : Bytes) (part : Except ε Text)
    (result : Except (Fault ε) Nat × RawIO (Multipart ε)) : Prop :=
  (result.1 = .ok payload.length ∧ Open taken result.2.upload) ∨
    (∃ e, part = .error e) ∧ (∃ e, result.1 = .error e) ∧ Lost result.2.upload

theorem open_write (hp : payload ≠ []) (h : Open taken s.upload) :
    Drained (taken ++ payload) payload weather.part (write s3RawIO s payload weather) := by
  rw [write_s3_chunk hp h]
  rcases (h.take payload).drain false weather.part with ⟨u', hd, hopen⟩ | ⟨e, u', hpart, hd, hlost⟩
  · rw [hd]
    exact .inl ⟨rfl, hopen⟩
  · rw [hd]
    exact .inr ⟨⟨e, hpart⟩, ⟨_, rfl⟩, hlost⟩

theorem opened_write (hp : payload ≠ []) (hs : s.upload = fresh)
    (hfull : max s.chunkSize minPartSize < s.buffer.length + payload.length)
    (hopens : Names weather.opens) :
    Drained (s.buffer ++ payload) payload weather.part (write s3RawIO s payload weather) := by
  obtain ⟨name, hname, hne⟩ := hopens
  rw [write_s3_opened hp hs hfull hname hne]
  rcases (open_named hne (s.buffer ++ payload)).drain false weather.part with
    ⟨u', hd, hopen⟩ | ⟨e, u', hpart, hd, hlost⟩
  · rw [hd]
    exact .inl ⟨rfl, hopen⟩
  · rw [hd]
    exact .inr ⟨⟨e, hpart⟩, ⟨_, rfl⟩, hlost⟩

/-! ## Runs -/

/-- A lost upload stays lost. -/
theorem lost_write (h : Lost s.upload) : Lost (write s3RawIO s payload weather).2.upload := by
  by_cases hp : payload = []
  · subst hp
    rwa [write_nil]
  · obtain ⟨e, he⟩ := Option.ne_none_iff_exists'.mp h
    rwa [write_s3_lost hp he]

theorem lost_writes (calls : List (Bytes × Weather ε)) (s : RawIO (Multipart ε))
    (h : Lost s.upload) : Lost (writes s3RawIO s calls).2.upload :=
  writes_induct (P := fun s : RawIO (Multipart ε) => Lost s.upload)
    (fun _ _ _ h => lost_write h) calls s h

/-- An open upload loses a part, or every write returns. -/
theorem writes_open : ∀ (calls : List (Bytes × Weather ε)) (s : RawIO (Multipart ε))
    (taken : Bytes), Open taken s.upload →
    Lost (writes s3RawIO s calls).2.upload ∨
      ((writes s3RawIO s calls).1 = calls.map Prod.fst ∧
        Open (taken ++ attempted calls) (writes s3RawIO s calls).2.upload) := by
  intro calls
  induction calls with
  | nil =>
    intro s taken h
    rw [attempted_nil, List.append_nil]
    exact .inr ⟨rfl, h⟩
  | cons call calls ih =>
    intro s taken h
    obtain ⟨payload, weather⟩ := call
    rw [attempted_cons, ← List.append_assoc]
    by_cases hp : payload = []
    · subst hp
      rw [writes_cons_ok (n := 0) (by rw [write_nil]), write_nil, List.append_nil]
      exact (ih s taken h).imp_right fun ⟨hret, hopen⟩ => ⟨congrArg _ hret, hopen⟩
    · rcases open_write (s := s) hp h with ⟨hok, hopen⟩ | ⟨_, ⟨e, he⟩, hlost⟩
      · rw [writes_cons_ok hok]
        exact (ih _ _ hopen).imp_right fun ⟨hret, hopen⟩ => ⟨congrArg _ hret, hopen⟩
      · rw [writes_cons_error he]
        exact .inl (lost_writes calls _ hlost)

/-- The upload is named at the first attempt.  `room` is how much the file may still hold:
the first payload beyond it makes the opening request. -/
def NamedAtOnce (room : Nat) : List (Bytes × Except ε Text) → Prop
  | [] => True
  | (payload, opens) :: calls =>
    if payload.length ≤ room then NamedAtOnce (room - payload.length) calls else Names opens

/-- The payloads of some calls, each with what becomes of its opening request. -/
def openings (calls : List (Bytes × Weather ε)) : List (Bytes × Except ε Text) :=
  calls.map fun call => (call.1, call.2.opens)

/-- Named at once, an upload loses a part, or every write returns. -/
theorem writes_named : ∀ (calls : List (Bytes × Weather ε)) (s : RawIO (Multipart ε)),
    s.upload = fresh → s.buffer.length ≤ max s.chunkSize minPartSize →
    NamedAtOnce (max s.chunkSize minPartSize - s.buffer.length) (openings calls) →
    Lost (writes s3RawIO s calls).2.upload ∨
      ((writes s3RawIO s calls).1 = calls.map Prod.fst ∧
        Intact (s.buffer ++ attempted calls) (writes s3RawIO s calls).2) := by
  intro calls
  induction calls with
  | nil =>
    intro s hs _ _
    rw [attempted_nil, List.append_nil]
    exact .inr ⟨rfl, .inl ⟨hs, rfl⟩⟩
  | cons call calls ih =>
    intro s hs hroom hnamed
    obtain ⟨payload, weather⟩ := call
    have hnamed : NamedAtOnce (max s.chunkSize minPartSize - s.buffer.length)
        ((payload, weather.opens) :: openings calls) := hnamed
    rw [attempted_cons, ← List.append_assoc]
    by_cases hfits : payload.length ≤ max s.chunkSize minPartSize - s.buffer.length
    · rw [NamedAtOnce, if_pos hfits] at hnamed
      by_cases hp : payload = []
      · subst hp
        rw [writes_cons_ok (n := 0) (by rw [write_nil]), write_nil, List.append_nil]
        exact (ih s hs hroom hnamed).imp_right fun ⟨hret, hint⟩ => ⟨congrArg _ hret, hint⟩
      · have hw : write s3RawIO s payload weather = _ := write_s3_held hp hs (by omega)
        rw [writes_cons_ok (n := payload.length) (by rw [hw]), hw]
        have hrest := ih { s with buffer := s.buffer ++ payload } hs
          (by show (s.buffer ++ payload).length ≤ max s.chunkSize minPartSize
              rw [List.length_append]
              omega)
          (by rwa [List.length_append, ← Nat.sub_sub])
        exact hrest.imp_right fun ⟨hret, hint⟩ => ⟨congrArg _ hret, hint⟩
    · rw [NamedAtOnce, if_neg hfits] at hnamed
      have hp : payload ≠ [] := by
        rintro rfl
        exact hfits (Nat.zero_le _)
      rcases opened_write hp hs (by omega) hnamed with ⟨hok, hopen⟩ | ⟨_, ⟨e, he⟩, hlost⟩
      · rw [writes_cons_ok hok]
        exact (writes_open calls _ _ hopen).imp_right
          fun ⟨hret, hopen⟩ => ⟨congrArg _ hret, .inr hopen⟩
      · rw [writes_cons_error he]
        exact .inl (lost_writes calls _ hlost)

/-- Otherwise a write raises whose payload has been taken in. -/
theorem writes_unnamed : ∀ (calls : List (Bytes × Weather ε)) (s : RawIO (Multipart ε)),
    s.upload = fresh → s.buffer.length ≤ max s.chunkSize minPartSize →
    ¬NamedAtOnce (max s.chunkSize minPartSize - s.buffer.length) (openings calls) →
    (writes s3RawIO s calls).1.flatten.length < (attempted calls).length := by
  intro calls
  induction calls with
  | nil => exact fun _ _ _ hunnamed => absurd trivial hunnamed
  | cons call calls ih =>
    intro s hs hroom hunnamed
    obtain ⟨payload, weather⟩ := call
    have hunnamed : ¬NamedAtOnce (max s.chunkSize minPartSize - s.buffer.length)
        ((payload, weather.opens) :: openings calls) := hunnamed
    rw [attempted_cons, List.length_append]
    by_cases hfits : payload.length ≤ max s.chunkSize minPartSize - s.buffer.length
    · rw [NamedAtOnce, if_pos hfits] at hunnamed
      by_cases hp : payload = []
      · subst hp
        rw [writes_cons_ok (n := 0) (by rw [write_nil]), write_nil]
        simpa using ih s hs hroom hunnamed
      · have hw : write s3RawIO s payload weather = _ := write_s3_held hp hs (by omega)
        rw [writes_cons_ok (n := payload.length) (by rw [hw]), hw]
        have hrest := ih { s with buffer := s.buffer ++ payload } hs
          (by show (s.buffer ++ payload).length ≤ max s.chunkSize minPartSize
              rw [List.length_append]
              omega)
          (by rwa [List.length_append, ← Nat.sub_sub])
        simpa using hrest
    · rw [NamedAtOnce, if_neg hfits] at hunnamed
      have hp : payload ≠ [] := by
        rintro rfl
        exact hfits (Nat.zero_le _)
      have hpos : 0 < payload.length := List.length_pos_of_ne_nil hp
      obtain ⟨e, hw⟩ := write_s3_unopened hp hs (by omega) hunnamed
      rw [writes_cons_error (by rw [hw])]
      have hle := returned_length_le (H := s3RawIO) calls (write s3RawIO s payload weather).2
      exact Nat.lt_of_le_of_lt hle (Nat.lt_add_of_pos_left hpos)

/-- While no part fails, whatever becomes of the opening requests, everything attempted is
still to hand. -/
theorem intact_write (h : Intact taken s) (hpart : ∀ e, weather.part ≠ .error e) :
    Intact (taken ++ payload) (write s3RawIO s payload weather).2 := by
  by_cases hp : payload = []
  · subst hp
    rwa [write_nil, List.append_nil]
  rcases h with ⟨hs, rfl⟩ | hopen
  · rcases Nat.lt_or_ge (max s.chunkSize minPartSize) (s.buffer.length + payload.length) with
      hfull | hfits
    · by_cases hopens : Names weather.opens
      · rcases opened_write hp hs hfull hopens with ⟨_, hopen⟩ | ⟨⟨e, he⟩, _⟩
        · exact .inr hopen
        · exact absurd he (hpart e)
      · obtain ⟨e, hw⟩ := write_s3_unopened hp hs hfull hopens
        rw [hw]
        exact .inl ⟨hs, rfl⟩
    · rw [write_s3_held hp hs hfits]
      exact .inl ⟨hs, rfl⟩
  · rcases open_write (s := s) hp hopen with ⟨_, hopen⟩ | ⟨⟨e, he⟩, _⟩
    · exact .inr hopen
    · exact absurd he (hpart e)

theorem intact_writes : ∀ (calls : List (Bytes × Weather ε)) (s : RawIO (Multipart ε))
    (taken : Bytes), Intact taken s → (∀ call ∈ calls, ∀ e, call.2.part ≠ .error e) →
    Intact (taken ++ attempted calls) (writes s3RawIO s calls).2 := by
  intro calls
  induction calls with
  | nil =>
    intro s taken h _
    rwa [attempted_nil, List.append_nil]
  | cons call calls ih =>
    intro s taken h hparts
    obtain ⟨payload, weather⟩ := call
    have hnext : Intact (taken ++ payload) (write s3RawIO s payload weather).2 := intact_write h
      (hparts (payload, weather) List.mem_cons_self)
    have hrest := ih _ _ hnext fun call hc => hparts call (List.mem_cons_of_mem _ hc)
    rw [attempted_cons, ← List.append_assoc, writes_snd]
    exact hrest

/-! ## The close -/

theorem finishUpload_failed {e : Fault ε} {finish : Finish ε} (h : u.failure = some e) :
    finishUpload finish u = (.error e, none, u) := by
  rw [finishUpload, h]

/-- A failed upload completes nothing: the close raises what failed it. -/
theorem close_lost {e : Fault ε} (hdone : s.done = false) (hstored : s.stored = none)
    (h : s.upload.failure = some e) (closing : Closing (Finish ε) ε) :
    (close s3RawIO s closing).1 = .error e ∧ (close s3RawIO s closing).2.stored = none := by
  have hlost : Lost s.upload := by
    rw [Lost, h]
    exact Option.some_ne_none e
  have hfinish : (@ s3RawIO ε).finishUpload closing.finish s.upload = (.error e, none, s.upload) :=
    finishUpload_failed h
  rw [close_streaming hdone hlost.streaming hfinish]
  exact ⟨rfl, hstored⟩

/-- An open upload with nothing pending is assembled as what was given to it. -/
theorem Open.assembled (h : Open taken u) (hpending : u.pending = []) :
    S3.assembled u.sent u.parts.length = taken := by
  rw [h.tagged, assembled_numbered _ h.numbered, ← h.bytes, hpending, List.append_nil]

/-- How an open upload ends: in the object that was given to it, or with an error. -/
theorem Open.finish (h : Open taken u) (finish : Finish ε) :
    (finishUpload finish u).1 = .ok () ∧ (finishUpload finish u).2.1 = some taken ∨
      ((∃ e, finish.part = .error e) ∨ finish.completes ≠ .ok false) ∧
        ∃ e, (finishUpload finish u).1 = .error e := by
  rcases hdrain : S3.drain true finish.part u with ⟨e | ⟨⟩, u'⟩
  · refine .inr ⟨?_, e, by simp only [finishUpload, h.whole, hdrain]⟩
    rcases h.drain true finish.part with ⟨_, hd, _⟩ | ⟨e', _, hpart, _⟩
    · rw [hdrain] at hd
      exact nomatch hd
    · exact .inl ⟨e', hpart⟩
  · have hopen : Open taken u' := by
      rcases h.drain true finish.part with ⟨_, hd, hopen⟩ | ⟨_, _, _, hd, _⟩
      · rw [hdrain] at hd
        cases hd
        exact hopen
      · rw [hdrain] at hd
        exact nomatch hd
    rcases hcompletes : finish.completes with e | _ | _
    · exact .inr ⟨.inr nofun, .raised e, by
        simp only [finishUpload, h.whole, hdrain, hcompletes]⟩
    · refine .inl ⟨by simp only [finishUpload, h.whole, hdrain, hcompletes], ?_⟩
      simp only [finishUpload, h.whole, hdrain, hcompletes]
      rw [hopen.assembled (drain_final hdrain)]
    · exact .inr ⟨.inr nofun, .incomplete, by
        simp only [finishUpload, h.whole, hdrain, hcompletes]⟩

/-- A close that returns stores everything that is still to hand. -/
theorem close_intact (hdone : s.done = false) (h : Intact taken s)
    (closing : Closing (Finish ε) ε) (hok : (close s3RawIO s closing).1 = .ok ()) :
    (close s3RawIO s closing).2.stored = some taken := by
  rcases h with ⟨hs, rfl⟩ | hopen
  · have hbuffered := close_buffered (H := s3RawIO) hdone (by rw [hs]; rfl) closing
    rcases hput : closing.put with _ | e
    · rw [hbuffered.1 hput]
    · rw [hbuffered.2 e hput] at hok
      exact nomatch hok
  · have hclose : close s3RawIO s closing = _ := close_streaming hdone hopen.streaming rfl
    rw [hclose] at hok ⊢
    rcases hopen.finish closing.finish with ⟨_, hstored⟩ | ⟨_, e, he⟩
    · show (finishUpload closing.finish s.upload).2.1.or s.stored = _
      rw [hstored]
      rfl
    · have hok : (finishUpload closing.finish s.upload).1 = .ok () := hok
      rw [he] at hok
      exact nomatch hok

/-- The close all of whose requests are answered well. -/
def goodClose : Closing (Finish ε) ε :=
  { put := none, finish := { part := .ok [], completes := .ok false } }

/-- It returns if no part has been lost. -/
theorem close_goodClose (hdone : s.done = false) (h : Intact taken s) :
    (close s3RawIO s (@goodClose ε)).1 = .ok () := by
  rcases h with ⟨hs, rfl⟩ | hopen
  · rw [(close_buffered (H := s3RawIO) hdone (by rw [hs]; rfl) goodClose).1 rfl]
  · rw [close_streaming (H := s3RawIO) hdone hopen.streaming rfl]
    rcases hopen.finish (@goodClose ε).finish with ⟨hok, _⟩ | ⟨⟨e, he⟩ | hne, _⟩
    · exact hok
    · exact nomatch he
    · exact absurd rfl hne

theorem after_done (chunkSize : Nat) (calls : List (Bytes × Weather ε)) :
    (after s3RawIO chunkSize calls).done = false ∧
      (after s3RawIO chunkSize calls).stored = none :=
  (writes_frame calls ( RawIO.new s3RawIO chunkSize)).2

/-- A lost part is never completed over, in any weather. -/
theorem lost_stores_nothing (chunkSize : Nat) (before later : List (Bytes × Weather ε))
    (h : Lost (after s3RawIO chunkSize before).upload) (closing : Closing (Finish ε) ε) :
    ∃ e, (close s3RawIO (after s3RawIO chunkSize (before ++ later)) closing).1 = .error e ∧
      (close s3RawIO (after s3RawIO chunkSize (before ++ later)) closing).2.stored = none := by
  have hend : Lost (after s3RawIO chunkSize (before ++ later)).upload := by
    rw [after, writes_append]
    exact lost_writes later _ h
  obtain ⟨e, he⟩ := Option.ne_none_iff_exists'.mp hend
  obtain ⟨hdone, hstored⟩ := after_done chunkSize (before ++ later)
  exact ⟨e, close_lost hdone hstored he closing⟩

/-- A multipart upload commits all or nothing, whatever becomes of its parts and of the
close, exactly if it is named at the first attempt. -/
theorem multipart_allOrNothing_iff (chunkSize : Nat) (plan : List (Bytes × Except ε Text)) :
    (∀ calls : List (Bytes × Weather ε), openings calls = plan →
        AllOrNothing s3RawIO Lost chunkSize calls) ↔
      NamedAtOnce (max chunkSize minPartSize) plan := by
  constructor
  · intro h
    by_contra hunnamed
    -- every part and the close go through: what is stored is everything attempted
    let calls : List (Bytes × Weather ε) :=
      plan.map fun (payload, opens) => (payload, { opens := opens, part := .ok [] })
    have hplan : openings calls = plan := by
      rw [openings, List.map_map]
      exact List.map_id plan
    have hparts : ∀ call ∈ calls, ∀ e, call.2.part ≠ .error e := by
      intro call hc e
      obtain ⟨entry, _, rfl⟩ := List.mem_map.mp hc
      exact nofun
    obtain ⟨hdone, _⟩ := after_done chunkSize calls
    have hint : Intact (attempted calls) (after s3RawIO chunkSize calls) :=
      intact_writes calls ( RawIO.new s3RawIO chunkSize) [] (.inl ⟨rfl, rfl⟩) hparts
    have hok := close_goodClose hdone hint
    have hexact := (h calls hplan).exact goodClose hok
    rw [close_intact hdone hint goodClose hok, Option.some.injEq] at hexact
    have hshort := writes_unnamed calls ( RawIO.new s3RawIO chunkSize) rfl (Nat.zero_le _)
      (by rwa [hplan])
    rw [hexact] at hshort
    exact Nat.lt_irrefl _ hshort
  · rintro hnamed calls rfl
    obtain ⟨hdone, hstored⟩ := after_done chunkSize calls
    refine ⟨fun closing hok => ?_, fun before later hsplit hlost => ?_⟩
    · rcases writes_named calls ( RawIO.new s3RawIO chunkSize) rfl (Nat.zero_le _) hnamed with
        hlost | ⟨hret, hint⟩
      · obtain ⟨e, he, _⟩ := lost_stores_nothing chunkSize calls [] hlost closing
        rw [List.append_nil, hok] at he
        exact nomatch he
      · rw [close_intact hdone hint closing hok, returned, hret]
        rfl
    · rw [hsplit] at hstored ⊢
      refine ⟨hstored, fun closing => ?_⟩
      obtain ⟨_, _, hnone⟩ := lost_stores_nothing chunkSize before later hlost closing
      exact hnone

/-! ## Both files -/

/-- Uploads commit all or nothing exactly if no write takes its payload in and raises, and
no chunk of a streamed `PUT` is lost: over HTTP, if the upload opens at the first attempt
and no chunk of it fails; over S3, where a lost part fails the upload for good, if the
upload is named at the first attempt. -/
theorem allOrNothing_iff :
    (∀ (chunkSize : Nat) (calls : List (Bytes × Http.Weather ε)),
      AllOrNothing httpRawIO Http.Lost chunkSize calls ↔ Fair chunkSize calls) ∧
    (∀ (chunkSize : Nat) (plan : List (Bytes × Except ε Text)),
      (∀ calls : List (Bytes × Weather ε), openings calls = plan →
        AllOrNothing s3RawIO Lost chunkSize calls) ↔
      NamedAtOnce (max chunkSize minPartSize) plan) :=
  ⟨upload_allOrNothing_iff, multipart_allOrNothing_iff⟩

/-- Two bytes whose opening request fails are written again and stored twice; and a second
chunk that is lost is missing from the object that the close completes. -/
theorem stored_twice_and_holed :
    ¬AllOrNothing httpRawIO Http.Lost 1
        [([1, 2], { opens := some (), sends := none }), ([1, 2], { opens := none, sends := none })] ∧
      ¬AllOrNothing httpRawIO Http.Lost 1
        [([1, 2], { opens := none, sends := none }), ([3], { opens := none, sends := some () }),
          ([4], { opens := none, sends := none })] := by
  refine ⟨fun h => ?_, fun h => ?_⟩
  · have hexact := h.exact Http.goodClose rfl
    exact absurd hexact (by decide)
  · obtain ⟨_, hnone⟩ := h.none _ [] (List.append_nil _).symm ⟨_, rfl, by decide⟩
    exact absurd (hnone Http.goodClose) (by decide)

/-- `tell` counts the bytes accepted, over HTTP and over S3, exactly if no payload is ever
held: the first that is not empty is more than `_stream_after`. -/
theorem tell_eq_accepted_iff :
    (∀ (chunkSize : Nat) (calls : List (Bytes × Http.Weather ε)),
      (after httpRawIO chunkSize calls).tell = accepted (returned httpRawIO chunkSize calls) ↔
        StartsFull (@ httpRawIO ε) chunkSize (calls.map Prod.fst)) ∧
    (∀ (chunkSize : Nat) (calls : List (Bytes × Weather ε)),
      (after s3RawIO chunkSize calls).tell = accepted (returned s3RawIO chunkSize calls) ↔
        StartsFull (@ s3RawIO ε) chunkSize (calls.map Prod.fst)) :=
  ⟨writes_tell_iff httpRawIO_lawful rfl, writes_tell_iff s3RawIO_lawful rfl⟩

/-- Weather in which every request goes through. -/
def calmHttp : Http.Weather Unit := { opens := none, sends := none }

def calmS3 : Weather Unit := { opens := .ok ['u'], part := .ok [] }

/-- One byte held is not counted, and neither are bytes held before the upload starts. -/
theorem held_not_told :
    (after httpRawIO 1 [([1], calmHttp)]).tell ≠
        accepted (returned httpRawIO 1 [([1], calmHttp)]) ∧
      (after httpRawIO 1 [([1], calmHttp), ([2], calmHttp)]).tell ≠
        accepted (returned httpRawIO 1 [([1], calmHttp), ([2], calmHttp)]) ∧
      (after s3RawIO 1 [([1], calmS3)]).tell ≠
        accepted (returned s3RawIO 1 [([1], calmS3)]) := by
  decide

end XrdClient.S3
