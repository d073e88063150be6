/-
  Http/Upload.lean --- the streamed `PUT` of `HTTPRawIO`.

  The session's `Upload` is another package's: a `write` of it sends the whole chunk or
  raises, and `finish` sends the terminating chunk, after which the server has the object
  if its verdict is good.  `lost` records the chunks that raised; the file keeps no such
  record, and that is one of the two ways a run goes wrong.  The other is the buffer,
  which has taken a payload in before the opening request that makes its write raise.
  `upload_allOrNothing_iff` says that there is no third.
-/
import XrdClient.Http.RawIO

set_option autoImplicit false

namespace XrdClient.Http

open XrdClient.Lib

/-- An upload under way: the body sent so far, and the chunks whose sending raised. -/
structure Upload where
  sent : Bytes
  lost : List Bytes
  deriving DecidableEq

/-- What becomes of the requests of one write: the opening request, and the chunk. -/
structure Weather (ε : Type) where
  opens : Option ε
  sends : Option ε
  deriving DecidableEq

variable {ε : Type}

/-- `_send_chunk` -/
def sendChunk (weather : Weather ε) (payload : Bytes) :
    Option Upload → Except (Fault ε) Unit × Option Upload
  | none => (.error .assertion, none)
  | some upload =>
    match weather.sends with
    | some e => (.error (.raised e), some { upload with lost := upload.lost ++ [payload] })
    | none => (.ok (), some { upload with sent := upload.sent ++ payload })

/-- `_begin_upload` -/
def beginUpload (weather : Weather ε) (buffer : Bytes) (upload : Option Upload) :
    Except (Fault ε) Unit × Bytes × Option Upload :=
  match weather.opens with
  | some e => (.error (.raised e), buffer, upload)
  | none =>
    if buffer = [] then (.ok (), [], some { sent := [], lost := [] })
    else
      match sendChunk weather buffer (some { sent := [], lost := [] }) with
      | (outcome, upload) => (outcome, [], upload)

/-- `_finish_upload`: the verdict on the whole body. -/
def finishUpload (verdict : Option ε) :
    Option Upload → Except (Fault ε) Unit × Option Bytes × Option Upload
  | none => (.error .assertion, none, none)
  | some upload =>
    match verdict with
    | some e => (.error (.raised e), none, none)
    | none => (.ok (), some upload.sent, none)

/-- `HTTPRawIO` -/
def httpRawIO : Hooks (Option Upload) (Weather ε) (Option ε) ε where
  initial := none
  streaming upload := upload.isSome
  streamAfter chunkSize := chunkSize
  beginUpload := beginUpload
  sendChunk := sendChunk
  finishUpload := finishUpload

/-- A chunk of the upload has been lost. -/
def Lost (upload : Option Upload) : Prop := ∃ u, upload = some u ∧ u.lost ≠ []

/-- The upload begins at the first attempt and no chunk of it fails.  `room` is how much
the file may still hold: the first payload beyond it makes the opening request. -/
def Fair (room : Nat) : List (Bytes × Weather ε) → Prop
  | [] => True
  | (payload, weather) :: calls =>
    if payload.length ≤ room then Fair (room - payload.length) calls
    else weather.opens = none ∧ weather.sends = none ∧
      ∀ call ∈ calls, call.1 ≠ [] → call.2.sends = none

variable {s : RawIO (Option Upload)} {payload : Bytes} {weather : Weather ε}

theorem httpRawIO_lawful : (@ httpRawIO ε).Lawful where
  send_streams weather payload upload h := by
    obtain ⟨u, rfl⟩ := Option.isSome_iff_exists.mp h
    show (sendChunk weather payload (some u)).2.isSome = true
    rw [sendChunk]
    rcases weather.sends with _ | e <;> rfl
  begins weather buffer upload _ := by
    show (beginUpload weather buffer upload).2.2.isSome = true ∨
      (∃ e, (beginUpload weather buffer upload).1 = .error e) ∧
        (beginUpload weather buffer upload).2.1 = buffer
    rw [beginUpload]
    rcases weather.opens with _ | e
    · left
      by_cases hb : buffer = []
      · simp [hb]
      · rw [if_neg hb, sendChunk]
        rcases weather.sends with _ | e <;> rfl
    · exact .inr ⟨⟨_, rfl⟩, rfl⟩

/-! ## One write

One lemma for each thing a write of a payload that is not empty can come to: held, refused
at the opening request, sent or lost with all that was held, sent or lost by itself. -/

theorem write_http_held (hp : payload ≠ []) (hs : s.upload = none)
    (hfits : s.buffer.length + payload.length ≤ s.chunkSize) :
    write httpRawIO s payload weather =
      (.ok payload.length, { s with buffer := s.buffer ++ payload }) :=
  write_held hp (by rw [hs]; rfl) (by rwa [List.length_append])

theorem write_http_unopened {e : ε} (hp : payload ≠ []) (hs : s.upload = none)
    (hfull : s.chunkSize < s.buffer.length + payload.length) (hopens : weather.opens = some e) :
    write httpRawIO s payload weather =
      (.error (.raised e), { s with buffer := s.buffer ++ payload }) := by
  have hbegin : httpRawIO.beginUpload weather (s.buffer ++ payload) s.upload =
      (.error (.raised e), s.buffer ++ payload, s.upload) := by
    show beginUpload weather _ _ = _
    rw [beginUpload, hopens]
  rw [write_begins_of hp (by rw [hs]; rfl) (by rwa [List.length_append]) hbegin]
  rfl

theorem write_http_lost {e : ε} (hp : payload ≠ []) (hs : s.upload = none)
    (hfull : s.chunkSize < s.buffer.length + payload.length) (hopens : weather.opens = none)
    (hsends : weather.sends = some e) :
    write httpRawIO s payload weather =
      (.error (.raised e),
        { s with buffer := [], upload := some { sent := [], lost := [s.buffer ++ payload] } }) := by
  have hbegin : httpRawIO.beginUpload weather (s.buffer ++ payload) s.upload =
      (.error (.raised e), [], some { sent := [], lost := [s.buffer ++ payload] }) := by
    show beginUpload weather _ _ = _
    rw [beginUpload, hopens]
    simp only [if_neg (List.append_ne_nil_of_right_ne_nil s.buffer hp), sendChunk, hsends]
    rfl
  rw [write_begins_of hp (by rw [hs]; rfl) (by rwa [List.length_append]) hbegin]
  rfl

theorem write_http_opened (hp : payload ≠ []) (hs : s.upload = none)
    (hfull : s.chunkSize < s.buffer.length + payload.length) (hopens : weather.opens = none)
    (hsends : weather.sends = none) :
    write httpRawIO s payload weather =
      (.ok payload.length,
        { s with buffer := [], upload := some { sent := s.buffer ++ payload, lost := [] },
                 pos := s.pos + payload.length }) := by
  have hbegin : httpRawIO.beginUpload weather (s.buffer ++ payload) s.upload =
      (.ok (), [], some { sent := s.buffer ++ payload, lost := [] }) := by
    show beginUpload weather _ _ = _
    rw [beginUpload, hopens]
    simp only [if_neg (List.append_ne_nil_of_right_ne_nil s.buffer hp), sendChunk, hsends]
    rfl
  rw [write_begins_of hp (by rw [hs]; rfl) (by rwa [List.length_append]) hbegin]
  rfl

theorem write_http_sent {u : Upload} (hp : payload ≠ []) (hs : s.upload = some u)
    (hsends : weather.sends = none) :
    write httpRawIO s payload weather =
      (.ok payload.length,
        { s with upload := some { u with sent := u.sent ++ payload },
                 pos := s.pos + payload.length }) := by
  have hsend : httpRawIO.sendChunk weather payload s.upload =
      (.ok (), some { u with sent := u.sent ++ payload }) := by
    show sendChunk weather payload s.upload = _
    rw [hs, sendChunk, hsends]
  rw [write_streaming_of hp (by rw [hs]; rfl) hsend]
  rfl

theorem write_http_unsent {u : Upload} {e : ε} (hp : payload ≠ []) (hs : s.upload = some u)
    (hsends : weather.sends = some e) :
    write httpRawIO s payload weather =
      (.error (.raised e),
        { s with upload := some { u with lost := u.lost ++ [payload] } }) := by
  have hsend : httpRawIO.sendChunk weather payload s.upload =
      (.error (.raised e), some { u with lost := u.lost ++ [payload] }) := by
    show sendChunk weather payload s.upload = _
    rw [hs, sendChunk, hsends]
  rw [write_streaming_of hp (by rw [hs]; rfl) hsend]
  rfl

/-! ## Runs -/

/-- Everything attempted is still to hand, in the buffer or in the body sent. -/
def Intact (taken : Bytes) (s : RawIO (Option Upload)) : Prop :=
  s.upload = none ∧ s.buffer = taken ∨ s.upload = some { sent := taken, lost := [] }

/-- A chunk once lost stays lost. -/
theorem lost_write (h : Lost s.upload) :
    Lost (write httpRawIO s payload weather).2.upload := by
  by_cases hp : payload = []
  · subst hp
    rwa [write_nil]
  obtain ⟨u, hu, hlost⟩ := h
  rcases hsends : weather.sends with _ | e
  · rw [write_http_sent hp hu hsends]
    exact ⟨_, rfl, hlost⟩
  · rw [write_http_unsent hp hu hsends]
    exact ⟨_, rfl, by simp⟩

theorem lost_writes (calls : List (Bytes × Weather ε)) (s : RawIO (Option Upload))
    (h : Lost s.upload) : Lost (writes httpRawIO s calls).2.upload :=
  writes_induct (P := fun s : RawIO (Option Upload) => Lost s.upload)
    (fun _ _ _ h => lost_write h) calls s h

/-- A write loses a chunk, or everything attempted is still to hand. -/
theorem intact_write {taken : Bytes} (h : Intact taken s) :
    Intact (taken ++ payload) (write httpRawIO s payload weather).2 ∨
      Lost (write httpRawIO s payload weather).2.upload := by
  by_cases hp : payload = []
  · subst hp
    rw [write_nil, List.append_nil]
    exact .inl h
  rcases h with ⟨hs, rfl⟩ | hs
  · rcases Nat.lt_or_ge s.chunkSize (s.buffer.length + payload.length) with hfull | hfits
    · rcases hopens : weather.opens with _ | e
      · rcases hsends : weather.sends with _ | e
        · rw [write_http_opened hp hs hfull hopens hsends]
          exact .inl (.inr rfl)
        · rw [write_http_lost hp hs hfull hopens hsends]
          exact .inr ⟨_, rfl, by simp⟩
      · rw [write_http_unopened hp hs hfull hopens]
        exact .inl (.inl ⟨hs, rfl⟩)
    · rw [write_http_held hp hs hfits]
      exact .inl (.inl ⟨hs, rfl⟩)
  · rcases hsends : weather.sends with _ | e
    · rw [write_http_sent hp hs hsends]
      exact .inl (.inr rfl)
    · rw [write_http_unsent hp hs hsends]
      exact .inr ⟨_, rfl, by simp⟩

theorem intact_writes : ∀ (calls : List (Bytes × Weather ε)) (s : RawIO (Option Upload))
    (taken : Bytes), Intact taken s →
    Intact (taken ++ attempted calls) (writes httpRawIO s calls).2 ∨
      Lost (writes httpRawIO s calls).2.upload := by
  intro calls
  induction calls with
  | nil =>
    intro s taken h
    rw [attempted_nil, List.append_nil]
    exact .inl h
  | cons call calls ih =>
    intro s taken h
    obtain ⟨payload, weather⟩ := call
    rw [writes_snd, attempted_cons, ← List.append_assoc]
    rcases @intact_write _ s payload weather _ h with hint | hlost
    · exact ih _ _ hint
    · exact .inr (lost_writes calls _ hlost)

/-- Chunks that all go out are the body, and every write returns. -/
theorem writes_all_sent : ∀ (calls : List (Bytes × Weather ε)) (s : RawIO (Option Upload))
    (u : Upload), s.upload = some u → (∀ call ∈ calls, call.1 ≠ [] → call.2.sends = none) →
    (writes httpRawIO s calls).1 = calls.map Prod.fst ∧
      (writes httpRawIO s calls).2.upload =
        some { u with sent := u.sent ++ attempted calls } := by
  intro calls
  induction calls with
  | nil =>
    intro s u hs _
    refine ⟨rfl, ?_⟩
    rw [attempted_nil, List.append_nil]
    exact hs
  | cons call calls ih =>
    intro s u hs hsends
    obtain ⟨payload, weather⟩ := call
    have hrest : ∀ call ∈ calls, call.1 ≠ [] → call.2.sends = none :=
      fun call hc => hsends call (List.mem_cons_of_mem _ hc)
    by_cases hp : payload = []
    · subst hp
      obtain ⟨hret, hup⟩ := ih s u hs hrest
      rw [writes_cons_ok (n := 0) (by rw [write_nil]), write_nil]
      exact ⟨congrArg _ hret, hup⟩
    · have hsent : weather.sends = none := hsends (payload, weather) List.mem_cons_self hp
      have hw := write_http_sent (s := s) hp hs hsent
      rw [writes_cons_ok (n := payload.length) (by rw [hw]), hw]
      obtain ⟨hret, hup⟩ := ih
        { s with upload := some { u with sent := u.sent ++ payload },
                 pos := s.pos + payload.length } _ rfl hrest
      refine ⟨congrArg _ hret, ?_⟩
      rw [hup, attempted_cons, List.append_assoc]

/-- In fair weather every write returns, and the body is what was written. -/
theorem writes_fair : ∀ (calls : List (Bytes × Weather ε)) (s : RawIO (Option Upload)),
    s.upload = none → s.buffer.length ≤ s.chunkSize →
    Fair (s.chunkSize - s.buffer.length) calls →
    (writes httpRawIO s calls).1 = calls.map Prod.fst ∧
      Intact (s.buffer ++ attempted calls) (writes httpRawIO s calls).2 := by
  intro calls
  induction calls with
  | nil =>
    intro s hs _ _
    rw [attempted_nil, List.append_nil]
    exact ⟨rfl, .inl ⟨hs, rfl⟩⟩
  | cons call calls ih =>
    intro s hs hroom hfair
    obtain ⟨payload, weather⟩ := call
    rw [attempted_cons, ← List.append_assoc]
    by_cases hfits : payload.length ≤ s.chunkSize - s.buffer.length
    · rw [Fair, if_pos hfits] at hfair
      by_cases hp : payload = []
      · subst hp
        rw [writes_cons_ok (n := 0) (by rw [write_nil]), write_nil, List.append_nil]
        obtain ⟨hret, hint⟩ := ih s hs hroom hfair
        exact ⟨congrArg _ hret, hint⟩
      · have hw : write httpRawIO s payload weather = _ := write_http_held hp hs (by omega)
        rw [writes_cons_ok (n := payload.length) (by rw [hw]), hw]
        obtain ⟨hret, hint⟩ := ih { s with buffer := s.buffer ++ payload } hs
          (by show (s.buffer ++ payload).length ≤ s.chunkSize; rw [List.length_append]; omega)
          (by rwa [List.length_append, ← Nat.sub_sub])
        exact ⟨congrArg _ hret, hint⟩
    · rw [Fair, if_neg hfits] at hfair
      obtain ⟨hopens, hsends, hrest⟩ := hfair
      have hp : payload ≠ [] := by
        rintro rfl
        exact hfits (Nat.zero_le _)
      have hw := write_http_opened hp hs (by omega) hopens hsends
      rw [writes_cons_ok (n := payload.length) (by rw [hw]), hw]
      obtain ⟨hret, hup⟩ := writes_all_sent calls
        { s with buffer := [], upload := some { sent := s.buffer ++ payload, lost := [] },
                 pos := s.pos + payload.length } _ rfl hrest
      exact ⟨congrArg _ hret, .inr hup⟩

/-- A chunk that fails is lost. -/
theorem writes_unsent : ∀ (calls : List (Bytes × Weather ε)) (s : RawIO (Option Upload))
    (u : Upload), s.upload = some u → (∃ call ∈ calls, call.1 ≠ [] ∧ call.2.sends ≠ none) →
    Lost (writes httpRawIO s calls).2.upload := by
  intro calls
  induction calls with
  | nil =>
    rintro s u _ ⟨call, hc, _⟩
    exact absurd hc List.not_mem_nil
  | cons call calls ih =>
    rintro s u hs ⟨failing, hc, hp, hfails⟩
    rcases List.mem_cons.mp hc with rfl | hmem
    · obtain ⟨e, he⟩ := Option.ne_none_iff_exists'.mp hfails
      have hw := write_http_unsent hp hs he
      rw [writes_cons_error (e := .raised e) (by rw [hw]), hw]
      exact lost_writes _ _ ⟨_, rfl, by simp⟩
    · obtain ⟨payload, weather⟩ := call
      by_cases hp' : payload = []
      · subst hp'
        rw [writes_cons_ok (n := 0) (by rw [write_nil]), write_nil]
        exact ih s u hs ⟨failing, hmem, hp, hfails⟩
      rcases hsends : weather.sends with _ | e
      · have hw := write_http_sent hp' hs hsends
        rw [writes_cons_ok (n := payload.length) (by rw [hw]), hw]
        exact ih _ _ rfl ⟨failing, hmem, hp, hfails⟩
      · have hw := write_http_unsent hp' hs hsends
        rw [writes_cons_error (e := .raised e) (by rw [hw]), hw]
        exact lost_writes _ _ ⟨_, rfl, by simp⟩

/-- Otherwise a chunk is lost, or a payload has been taken in by a write that raised. -/
theorem writes_unfair : ∀ (calls : List (Bytes × Weather ε)) (s : RawIO (Option Upload)),
    s.upload = none → s.buffer.length ≤ s.chunkSize →
    ¬Fair (s.chunkSize - s.buffer.length) calls →
    Lost (writes httpRawIO s calls).2.upload ∨
      (writes httpRawIO s calls).1.flatten.length < (attempted calls).length := by
  intro calls
  induction calls with
  | nil => exact fun _ _ _ hunfair => absurd trivial hunfair
  | cons call calls ih =>
    intro s hs hroom hunfair
    obtain ⟨payload, weather⟩ := call
    rw [attempted_cons, List.length_append]
    by_cases hfits : payload.length ≤ s.chunkSize - s.buffer.length
    · rw [Fair, if_pos hfits] at hunfair
      by_cases hp : payload = []
      · subst hp
        rw [writes_cons_ok (n := 0) (by rw [write_nil]), write_nil]
        simpa using ih s hs hroom hunfair
      · have hw : write httpRawIO s payload weather = _ := write_http_held hp hs (by omega)
        rw [writes_cons_ok (n := payload.length) (by rw [hw]), hw]
        have hrest := ih { s with buffer := s.buffer ++ payload } hs
          (by show (s.buffer ++ payload).length ≤ s.chunkSize; rw [List.length_append]; omega)
          (by rwa [List.length_append, ← Nat.sub_sub])
        simpa using hrest
    · rw [Fair, if_neg hfits] at hunfair
      have hp : payload ≠ [] := by
        rintro rfl
        exact hfits (Nat.zero_le _)
      have hpos : 0 < payload.length := List.length_pos_of_ne_nil hp
      rcases hopens : weather.opens with _ | e
      · rcases hsends : weather.sends with _ | e
        · have hw := write_http_opened hp hs (by omega) hopens hsends
          rw [writes_cons_ok (n := payload.length) (by rw [hw]), hw]
          refine .inl (writes_unsent _ _ _ rfl ?_)
          have hfails : ¬∀ call ∈ calls, call.1 ≠ [] → call.2.sends = none :=
            fun hall => hunfair ⟨hopens, hsends, hall⟩
          simpa using hfails
        · have hw := write_http_lost hp hs (by omega) hopens hsends
          rw [writes_cons_error (e := .raised e) (by rw [hw]), hw]
          exact .inl (lost_writes _ _ ⟨_, rfl, by simp⟩)
      · have hw := write_http_unopened hp hs (by omega) hopens
        rw [writes_cons_error (e := .raised e) (by rw [hw])]
        have hle := returned_length_le (H := httpRawIO) calls (write httpRawIO s payload weather).2
        exact .inr (Nat.lt_of_le_of_lt hle (Nat.lt_add_of_pos_left hpos))

/-! ## The close -/

theorem after_done (chunkSize : Nat) (calls : List (Bytes × Weather ε)) :
    (after httpRawIO chunkSize calls).done = false ∧
      (after httpRawIO chunkSize calls).stored = none :=
  (writes_frame calls ( RawIO.new httpRawIO chunkSize)).2

/-- A close that returns stores the body, held or sent. -/
theorem close_intact {taken : Bytes} (hdone : s.done = false) (h : Intact taken s)
    (closing : Closing (Option ε) ε) (hok : (close httpRawIO s closing).1 = .ok ()) :
    (close httpRawIO s closing).2.stored = some taken := by
  rcases h with ⟨hs, rfl⟩ | hs
  · have hbuffered := close_buffered (H := httpRawIO) hdone (by rw [hs]; rfl) closing
    rcases hput : closing.put with _ | e
    · rw [hbuffered.1 hput]
    · rw [hbuffered.2 e hput] at hok
      exact nomatch hok
  · rcases hverdict : closing.finish with _ | e
    · have hfinish : (@ httpRawIO ε).finishUpload closing.finish s.upload =
          (.ok (), some taken, none) := by
        rw [hs, hverdict]
        rfl
      rw [close_streaming hdone (by rw [hs]; rfl) hfinish]
      rfl
    · have hfinish : (@ httpRawIO ε).finishUpload closing.finish s.upload =
          (.error (.raised e), none, none) := by
        rw [hs, hverdict]
        rfl
      rw [close_streaming hdone (by rw [hs]; rfl) hfinish] at hok
      exact nomatch hok

/-- The close all of whose requests are answered well. -/
def goodClose : Closing (Option ε) ε := { put := none, finish := none }

/-- It returns, with an object stored, whatever has been lost before. -/
theorem close_goodClose (hdone : s.done = false) :
    (close httpRawIO s (@goodClose ε)).1 = .ok () ∧
      (close httpRawIO s (@goodClose ε)).2.stored ≠ none := by
  rcases hs : s.upload with _ | u
  · rw [(close_buffered (H := httpRawIO) hdone (by rw [hs]; rfl) goodClose).1 rfl]
    exact ⟨rfl, Option.some_ne_none _⟩
  · have hfinish : (@ httpRawIO ε).finishUpload (@goodClose ε).finish s.upload =
        (.ok (), some u.sent, none) := by
      rw [hs]
      rfl
    rw [close_streaming hdone (by rw [hs]; rfl) hfinish]
    exact ⟨rfl, Option.some_ne_none _⟩

/-- An upload commits all or nothing exactly in fair weather. -/
theorem upload_allOrNothing_iff (chunkSize : Nat) (calls : List (Bytes × Weather ε)) :
    AllOrNothing httpRawIO Lost chunkSize calls ↔ Fair chunkSize calls := by
  obtain ⟨hdone, _⟩ := after_done chunkSize calls
  constructor
  · intro h
    by_contra hunfair
    rcases writes_unfair calls ( RawIO.new httpRawIO chunkSize) rfl (Nat.zero_le _) hunfair with
      hlost | hshort
    · -- the terminating chunk completes what the lost chunk left a hole in
      obtain ⟨_, hnone⟩ := h.none calls [] (List.append_nil calls).symm hlost
      exact (close_goodClose hdone).2 (hnone goodClose)
    · -- the object holds a payload whose write raised
      obtain ⟨hok, hstored⟩ := @close_goodClose ε _ hdone
      rcases intact_writes calls ( RawIO.new httpRawIO chunkSize) [] (.inl ⟨rfl, rfl⟩) with
        hint | hlost
      · have hbody := close_intact hdone hint goodClose hok
        have hexact := h.exact goodClose hok
        rw [hbody, Option.some.injEq, List.nil_append] at hexact
        rw [hexact] at hshort
        exact Nat.lt_irrefl _ hshort
      · obtain ⟨_, hnone⟩ := h.none calls [] (List.append_nil calls).symm hlost
        exact hstored (hnone goodClose)
  · intro hfair
    obtain ⟨hret, hint⟩ :=
      writes_fair calls ( RawIO.new httpRawIO chunkSize) rfl (Nat.zero_le _) hfair
    refine ⟨fun closing hok => ?_, fun before later hsplit hlost => ?_⟩
    · rw [close_intact hdone hint closing hok, returned, hret]
      rfl
    · -- nothing was lost: what is lost stays lost, and the file is intact at the end
      have hend : Lost (after httpRawIO chunkSize calls).upload := by
        rw [hsplit, after, writes_append]
        exact lost_writes later _ hlost
      obtain ⟨u, hu, hne⟩ := hend
      rcases hint with ⟨hnone, _⟩ | hsome
      · rw [show (after httpRawIO chunkSize calls).upload = none from hnone] at hu
        cases hu
      · rw [show (after httpRawIO chunkSize calls).upload = _ from hsome,
          Option.some.injEq] at hu
        rw [← hu] at hne
        exact absurd rfl hne

end XrdClient.Http
