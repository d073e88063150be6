/-
  S3/Parts.lean --- the plan of a multipart upload.

  The length of a stream is unknown until it ends, so the plan is made as it goes: the
  threshold for the next part doubles with every nine hundred parts sent.  `Grown` is the
  plan that results, whatever the sizes of the writes; `capacity` is the least that so many
  parts hold, and ten thousand of them hold more than five tebibytes.

  Nothing cuts a pending part: what one write adds to it goes up with it.  `parts_legal_iff`
  says that this is the only way the plan breaks a limit.
-/
import Mathlib
import XrdClient.S3.Multipart

set_option autoImplicit false

namespace XrdClient.S3

open XrdClient.Lib XrdClient.Http

/-! ## The threshold -/

theorem partSize_eq (sent : Nat) :
    partSize sent = min (minPartSize * 2 ^ (sent / partsPerDoubling)) maxPartSize := by
  rw [partSize, Nat.shiftLeft_eq]

theorem partSize_mono {a b : Nat} (h : a ≤ b) : partSize a ≤ partSize b := by
  rw [partSize_eq, partSize_eq]
  have hexp : 2 ^ (a / partsPerDoubling) ≤ 2 ^ (b / partsPerDoubling) :=
    Nat.pow_le_pow_right (by omega) (Nat.div_le_div_right h)
  have hmul := Nat.mul_le_mul_left minPartSize hexp
  omega

theorem partSize_le (sent : Nat) : partSize sent ≤ maxPartSize := Nat.min_le_right _ _

theorem minPartSize_le_partSize (sent : Nat) : minPartSize ≤ partSize sent :=
  partSize_mono (Nat.zero_le sent)

/-- The least that `n` parts hold, the last one not counted short. -/
def capacity : Nat → Nat
  | 0 => 0
  | n + 1 => capacity n + partSize n

/-- Parts sent from the `a`-th on hold at least what the threshold was there. -/
theorem le_capacity_add (a m : Nat) : capacity a + m * partSize a ≤ capacity (a + m) := by
  induction m with
  | zero => simp
  | succ m ih =>
    calc capacity a + (m + 1) * partSize a
        = capacity a + m * partSize a + partSize a := by rw [Nat.succ_mul, Nat.add_assoc]
      _ ≤ capacity (a + m) + partSize (a + m) :=
          Nat.add_le_add ih (partSize_mono (Nat.le_add_right a m))

theorem capacity_mono {a b : Nat} (h : a ≤ b) : capacity a ≤ capacity b := by
  obtain ⟨m, rfl⟩ := Nat.exists_eq_add_of_le h
  exact Nat.le_trans (Nat.le_add_right _ _) (le_capacity_add a m)

/-- Five tebibytes: the most one object may hold. -/
def maxObjectSize : Nat := 5 <<< 40

/-- Ten thousand parts hold more than an object may. -/
theorem maxObjectSize_lt_capacity : maxObjectSize < capacity maxParts := by
  have hfirst := le_capacity_add 8100 900
  have hsecond := le_capacity_add (8100 + 900) 1000
  have hsizes : partSize 8100 = 5 <<< 29 ∧ partSize (8100 + 900) = 5 <<< 30 := by decide
  have hbound : maxObjectSize < 900 * (5 <<< 29) + 1000 * (5 <<< 30) := by decide
  have hend : 8100 + 900 + 1000 = maxParts := rfl
  rw [hsizes.1] at hfirst
  rw [hsizes.2, hend] at hsecond
  generalize capacity (8100 + 900) = middle at hfirst hsecond
  generalize capacity 8100 = first at hfirst
  omega

/-! ## The plan -/

/-- A plan of parts: numbered from one, each at least as large as the threshold was. -/
inductive Grown : List (Nat × Bytes) → Prop where
  | nil : Grown []
  | send {sent : List (Nat × Bytes)} (h : Grown sent) (body : Bytes)
      (hsize : partSize sent.length ≤ body.length) : Grown (sent ++ [(sent.length + 1, body)])

/-- How much some parts hold. -/
def held (sent : List (Nat × Bytes)) : Nat := (sent.map Prod.snd).flatten.length

variable {sent : List (Nat × Bytes)}

theorem held_send (sent : List (Nat × Bytes)) (number : Nat) (body : Bytes) :
    held (sent ++ [(number, body)]) = held sent + body.length := by
  simp [held]

theorem numbered_send (h : sent.map Prod.fst = List.range' 1 sent.length) (body : Bytes) :
    (sent ++ [(sent.length + 1, body)]).map Prod.fst =
      List.range' 1 (sent ++ [(sent.length + 1, body)]).length := by
  rw [List.length_append, List.length_singleton, List.range'_concat, List.map_append, h]
  simp [Nat.add_comm]

theorem Grown.numbered (h : Grown sent) : sent.map Prod.fst = List.range' 1 sent.length := by
  induction h with
  | nil => rfl
  | send h body hsize ih => exact numbered_send ih body

theorem Grown.capacity_le (h : Grown sent) : capacity sent.length ≤ held sent := by
  induction h with
  | nil => exact Nat.le_refl _
  | send h body hsize ih =>
    rw [held_send, List.length_append, List.length_singleton]
    exact Nat.add_le_add ih hsize

theorem Grown.minPartSize_le (h : Grown sent) : ∀ part ∈ sent, minPartSize ≤ part.2.length := by
  induction h with
  | nil => exact fun _ hp => absurd hp List.not_mem_nil
  | send h body hsize ih =>
    intro part hp
    rcases List.mem_append.mp hp with hp | hp
    · exact ih part hp
    · rw [List.mem_singleton.mp hp]
      exact Nat.le_trans (minPartSize_le_partSize _) hsize

/-- An object that is not too large has fewer than ten thousand parts of the plan. -/
theorem Grown.length_lt (h : Grown sent) (hheld : held sent ≤ maxObjectSize) :
    sent.length < maxParts := by
  by_contra hmany
  have hcap := capacity_mono (Nat.le_of_not_lt hmany)
  have hbound := maxObjectSize_lt_capacity
  have hsum := h.capacity_le
  omega

/-- What the server demands of the parts of an upload. -/
structure Legal (sent : List (Nat × Bytes)) : Prop where
  numbered : sent.map Prod.fst = List.range' 1 sent.length
  few : sent.length ≤ maxParts
  atLeast : ∀ part ∈ sent.dropLast, minPartSize ≤ part.2.length
  atMost : ∀ part ∈ sent, part.2.length ≤ maxPartSize

/-- A plan is legal if no part of it is too large. -/
theorem Grown.legal (h : Grown sent) (hheld : held sent ≤ maxObjectSize)
    (hmost : ∀ part ∈ sent, part.2.length ≤ maxPartSize) : Legal sent where
  numbered := h.numbered
  few := Nat.le_of_lt (h.length_lt hheld)
  atLeast part hp := h.minPartSize_le part (List.dropLast_subset _ hp)
  atMost := hmost

/-- So is a plan followed by one last part, of any size. -/
theorem Grown.legal_last (h : Grown sent) (hheld : held sent ≤ maxObjectSize)
    (hmost : ∀ part ∈ sent, part.2.length ≤ maxPartSize) {body : Bytes}
    (hlast : body.length ≤ maxPartSize) : Legal (sent ++ [(sent.length + 1, body)]) where
  numbered := numbered_send h.numbered body
  few := by
    rw [List.length_append, List.length_singleton]
    exact h.length_lt hheld
  atLeast part hp := by
    rw [List.dropLast_concat] at hp
    exact h.minPartSize_le part hp
  atMost part hp := by
    rcases List.mem_append.mp hp with hp | hp
    · exact hmost part hp
    · rwa [List.mem_singleton.mp hp]

/-! ## What a run sends -/

variable {ε : Type} {u : Multipart ε} {s : RawIO (Multipart ε)} {payload taken : Bytes}
  {weather : Weather ε} {total : Nat}

/-- What the file has in hand: in the buffer before the upload is opened, in the pending
part after. -/
def inHand (s : RawIO (Multipart ε)) : Nat := s.buffer.length + s.upload.pending.length

/-- A write makes a part request: it opens the upload, or fills the pending part. -/
def Sends (s : RawIO (Multipart ε)) (call : Bytes × Weather ε) : Prop :=
  call.1 ≠ [] ∧ ¬Lost s.upload ∧
    if s.upload.uploadId = [] then
      max s.chunkSize minPartSize < inHand s + call.1.length ∧ Names call.2.opens
    else partSize s.upload.parts.length ≤ inHand s + call.1.length

/-- No write that makes a part request has more in hand with it than a part may hold. -/
def Fits (s : RawIO (Multipart ε)) : List (Bytes × Weather ε) → Prop
  | [] => True
  | call :: calls =>
    (Sends s call → inHand s + call.1.length ≤ maxPartSize) ∧
      Fits (write s3RawIO s call.1 call.2).2 calls

/-- The parts of a run follow the plan and hold what was attempted, less what is in hand,
or less what a lost part took with it. -/
inductive Tallied (total : Nat) (s : RawIO (Multipart ε)) : Prop where
  | held (hs : s.upload = fresh) (hlen : s.buffer.length = total)
  | streaming {taken : Bytes} (hopen : Open taken s.upload) (hbuffer : s.buffer = [])
      (hlen : taken.length = total) (hgrown : Grown s.upload.sent)
      (hshort : s.upload.pending.length < partSize s.upload.parts.length)
  | lost (hlost : Lost s.upload) (hgrown : Grown s.upload.sent)
      (hlen : S3.held s.upload.sent ≤ total)

/-- One more part, of what was in hand. -/
def OneMore (s : RawIO (Multipart ε)) (payload : Bytes) (s' : RawIO (Multipart ε)) : Prop :=
  ∃ body, body.length = inHand s + payload.length ∧
    s'.upload.sent = s.upload.sent ++ [(s.upload.sent.length + 1, body)]

/-- What a drain does to the plan. -/
theorem drain_plan (hopen : Open taken u) (hgrown : Grown u.sent) (part : Except ε Text) :
    (u.pending.length < partSize u.parts.length ∧ (drain false part u).2 = u) ∨
    (partSize u.parts.length ≤ u.pending.length ∧
      (drain false part u).2.sent = u.sent ++ [(u.sent.length + 1, u.pending)] ∧
      Grown (drain false part u).2.sent ∧ S3.held (drain false part u).2.sent = taken.length ∧
      (Open taken (drain false part u).2 ∧ (drain false part u).2.pending = [] ∨
        Lost (drain false part u).2)) := by
  have hheld : S3.held (u.sent ++ [(u.sent.length + 1, u.pending)]) = taken.length := by
    rw [held_send, ← hopen.bytes, List.length_append]
    rfl
  have hdue : Due false u → partSize u.parts.length ≤ u.pending.length :=
    fun h => h.resolve_right (fun h => nomatch h.1)
  rcases drain_cases false part u with ⟨hnot, hd⟩ | ⟨h, tag, _, hd⟩ | ⟨h, e, _, hd⟩
  · rw [hd]
    exact .inl ⟨Nat.lt_of_not_le fun hle => hnot (.inl hle), rfl⟩
  · have hsize := hdue h
    rw [hopen.tagged] at hsize
    refine .inr ⟨hdue h, ?_⟩
    have hsent : (drain false part u).2.sent = u.sent ++ [(u.sent.length + 1, u.pending)] := by
      rw [hd, ← hopen.tagged]
      rfl
    rw [hsent, hd]
    exact ⟨rfl, hgrown.send _ hsize, hheld, .inl ⟨hopen.send tag, rfl⟩⟩
  · have hsize := hdue h
    rw [hopen.tagged] at hsize
    refine .inr ⟨hdue h, ?_⟩
    have hsent : (drain false part u).2.sent = u.sent ++ [(u.sent.length + 1, u.pending)] := by
      rw [hd, ← hopen.tagged]
      rfl
    rw [hsent, hd]
    exact ⟨rfl, hgrown.send _ hsize, hheld, .inr (fail_lost _ _)⟩

theorem partSize_pos (sent : Nat) : 0 < partSize sent :=
  Nat.lt_of_lt_of_le (by decide) (minPartSize_le_partSize sent)

/-- A write that drains `u` keeps the tally, and sends one more part if there is one due. -/
theorem drain_tallied (weather : Weather ε) (s' : RawIO (Multipart ε)) (hopen : Open taken u) (hgrown : Grown u.sent)
    (hlen : taken.length = total) (hs' : s'.upload = (drain false weather.part u).2)
    (hbuffer : s'.buffer = []) :
    Tallied total s' ∧
      (u.pending.length < partSize u.parts.length ∧ s'.upload.sent = u.sent ∨
        partSize u.parts.length ≤ u.pending.length ∧
          s'.upload.sent = u.sent ++ [(u.sent.length + 1, u.pending)]) := by
  rcases drain_plan hopen hgrown weather.part with
    ⟨hshort, hd⟩ | ⟨hdue, hsent, hgrown', hheld, hnext⟩
  · rw [hd] at hs'
    rw [hs']
    refine ⟨.streaming (hs' ▸ hopen) hbuffer hlen ?_ ?_, .inl ⟨hshort, rfl⟩⟩ <;> rwa [hs']
  · rw [← hs'] at hsent hgrown' hheld hnext
    refine ⟨?_, .inr ⟨hdue, hsent⟩⟩
    rcases hnext with ⟨hopen', hpending⟩ | hlost
    · refine .streaming hopen' hbuffer hlen hgrown' ?_
      rw [hpending]
      exact partSize_pos _
    · exact .lost hlost hgrown' (by omega)

/-- What one write does to the plan: it keeps the tally, and makes one part request, of all
that is in hand, exactly if it `Sends`. -/
theorem write_tallied (h : Tallied total s) :
    Tallied (total + payload.length) (write s3RawIO s payload weather).2 ∧
      (¬Sends s (payload, weather) ∧
          (write s3RawIO s payload weather).2.upload.sent = s.upload.sent ∨
        Sends s (payload, weather) ∧
          OneMore s payload (write s3RawIO s payload weather).2) := by
  by_cases hp : payload = []
  · subst hp
    rw [write_nil]
    exact ⟨h, .inl ⟨fun hsends => hsends.1 rfl, rfl⟩⟩
  cases h with
  | held hs hlen =>
    have hhand : inHand s = s.buffer.length := by
      rw [inHand, hs]
      rfl
    have hsends : Sends s (payload, weather) ↔
        max s.chunkSize minPartSize < s.buffer.length + payload.length ∧ Names weather.opens := by
      have hnotLost : ¬Lost s.upload := by
        rw [hs]
        exact fun hlost => hlost rfl
      have hid : s.upload.uploadId = [] := by
        rw [hs]
        rfl
      rw [Sends, if_pos hid, hhand]
      exact ⟨fun h => h.2.2, fun h => ⟨hp, hnotLost, h⟩⟩
    rw [hsends]
    rcases Nat.lt_or_ge (max s.chunkSize minPartSize) (s.buffer.length + payload.length) with
      hfull | hfits
    · by_cases hopens : Names weather.opens
      · obtain ⟨name, hname, hne⟩ := hopens
        have hw := write_s3_opened hp hs hfull hname hne
        have hlen' : (s.buffer ++ payload).length = total + payload.length := by
          rw [List.length_append, hlen]
        obtain ⟨htally, hplan⟩ := drain_tallied weather (write s3RawIO s payload weather).2
          (open_named hne (s.buffer ++ payload)) Grown.nil hlen' (by rw [hw]) (by rw [hw])
        refine ⟨htally, .inr ⟨⟨hfull, name, hname, hne⟩, ?_⟩⟩
        rcases hplan with ⟨hshort, _⟩ | ⟨_, hsent⟩
        · -- what does not fit in the buffer is at least a part
          have hmin : partSize 0 = minPartSize := rfl
          have hshort : (s.buffer ++ payload).length < partSize 0 := hshort
          rw [List.length_append] at hshort
          omega
        · refine ⟨s.buffer ++ payload, by rw [List.length_append, hhand], ?_⟩
          rw [hsent, hs]
          rfl
      · obtain ⟨e, hw⟩ := write_s3_unopened hp hs hfull hopens
        rw [hw]
        exact ⟨.held hs (by rw [List.length_append, hlen]), .inl ⟨fun h => hopens h.2, rfl⟩⟩
    · rw [write_s3_held hp hs hfits]
      exact ⟨.held hs (by rw [List.length_append, hlen]), .inl ⟨fun h => by omega, rfl⟩⟩
  | @streaming taken hopen hbuffer hlen hgrown hshort =>
    have hhand : inHand s = s.upload.pending.length := by
      rw [inHand, hbuffer]
      exact Nat.zero_add _
    have hsends : Sends s (payload, weather) ↔
        partSize s.upload.parts.length ≤ s.upload.pending.length + payload.length := by
      rw [Sends, if_neg hopen.named, hhand]
      exact ⟨fun h => h.2.2, fun h => ⟨hp, fun hlost => hlost hopen.whole, h⟩⟩
    rw [hsends]
    have hw : write s3RawIO s payload weather = _ := write_s3_chunk hp hopen
    have hlen' : (taken ++ payload).length = total + payload.length := by
      rw [List.length_append, hlen]
    obtain ⟨htally, hplan⟩ := drain_tallied weather (write s3RawIO s payload weather).2
      (hopen.take payload) hgrown hlen' (by rw [hw]) (by rw [hw]; exact hbuffer)
    refine ⟨htally, ?_⟩
    rcases hplan with ⟨hlow, hsent⟩ | ⟨hdue, hsent⟩
    · have hlow : (s.upload.pending ++ payload).length < partSize s.upload.parts.length := hlow
      rw [List.length_append] at hlow
      exact .inl ⟨by omega, hsent⟩
    · have hdue : partSize s.upload.parts.length ≤ (s.upload.pending ++ payload).length := hdue
      rw [List.length_append] at hdue
      exact .inr ⟨hdue, _, by rw [List.length_append, hhand], hsent⟩
  | lost hlost hgrown hlen =>
    obtain ⟨e, he⟩ := Option.ne_none_iff_exists'.mp hlost
    rw [write_s3_lost hp he]
    exact ⟨.lost hlost hgrown (Nat.le_trans hlen (Nat.le_add_right _ _)),
      .inl ⟨fun hsends => hsends.2.1 hlost, rfl⟩⟩

/-- Over a run: the tally is kept, and no part is too large exactly if every write fits. -/
theorem writes_tallied : ∀ (calls : List (Bytes × Weather ε)) (s : RawIO (Multipart ε))
    (total : Nat), Tallied total s →
    Tallied (total + (attempted calls).length) (writes s3RawIO s calls).2 ∧
      ((∀ part ∈ (writes s3RawIO s calls).2.upload.sent, part.2.length ≤ maxPartSize) ↔
        (∀ part ∈ s.upload.sent, part.2.length ≤ maxPartSize) ∧ Fits s calls) := by
  intro calls
  induction calls with
  | nil => exact fun s total h => ⟨h, fun hmost => ⟨hmost, trivial⟩, fun h => h.1⟩
  | cons call calls ih =>
    intro s total h
    obtain ⟨payload, weather⟩ := call
    obtain ⟨htally, hsent⟩ := @write_tallied _ s payload weather _ h
    obtain ⟨hend, hmost⟩ := ih _ _ htally
    rw [writes_snd, attempted_cons, List.length_append, ← Nat.add_assoc]
    refine ⟨hend, hmost.trans ?_⟩
    rw [Fits, ← and_assoc]
    refine and_congr_left' ?_
    rcases hsent with ⟨hnot, hsame⟩ | ⟨hsends, body, hbody, hmore⟩
    · rw [hsame]
      exact ⟨fun h => ⟨h, fun hs => absurd hs hnot⟩, fun h => h.1⟩
    · rw [hmore]
      constructor
      · intro h
        refine ⟨fun part hp => h part (List.mem_append_left _ hp), fun _ => ?_⟩
        have hlast := h _ (List.mem_append_right _ (List.mem_singleton.mpr rfl))
        rwa [hbody] at hlast
      · rintro ⟨hold, hnew⟩ part hp
        rcases List.mem_append.mp hp with hp | hp
        · exact hold part hp
        · rw [List.mem_singleton.mp hp, hbody]
          exact hnew hsends

/-! ## The close -/

/-- The part requests of the whole upload, the close's last one included. -/
def partsSent (chunkSize : Nat) (calls : List (Bytes × Weather ε))
    (closing : Closing (Finish ε) ε) : List (Nat × Bytes) :=
  (close s3RawIO (after s3RawIO chunkSize calls) closing).2.upload.sent

/-- A close sends what is pending as the last part, and nothing if nothing is. -/
theorem finish_sent (hopen : Open taken u) (finish : Finish ε) :
    (finishUpload finish u).2.2.sent = (drain true finish.part u).2.sent := by
  simp only [finishUpload, hopen.whole]
  rcases drain true finish.part u with ⟨e | ⟨⟩, u'⟩
  · rfl
  · rcases finish.completes with e | _ | _ <;> rfl

theorem drain_final_sent (hopen : Open taken u) (part : Except ε Text) :
    (drain true part u).2.sent = u.sent ∧ u.pending = [] ∨
      (drain true part u).2.sent = u.sent ++ [(u.sent.length + 1, u.pending)] := by
  rcases drain_cases true part u with ⟨hnot, hd⟩ | ⟨_, tag, _, hd⟩ | ⟨_, e, _, hd⟩
  · rw [hd]
    refine .inl ⟨rfl, ?_⟩
    by_contra hne
    exact hnot (.inr ⟨rfl, hne⟩)
  · rw [hd, ← hopen.tagged]
    exact .inr rfl
  · rw [hd, ← hopen.tagged]
    exact .inr rfl

/-- The parts of a whole upload: those of its writes, legal if none of them is too large,
and in the end all that was attempted. -/
theorem close_legal (hdone : s.done = false) (h : Tallied total s) (htotal : total ≤ maxObjectSize)
    (closing : Closing (Finish ε) ε) :
    (Legal (close s3RawIO s closing).2.upload.sent ↔
        ∀ part ∈ s.upload.sent, part.2.length ≤ maxPartSize) ∧
      ((close s3RawIO s closing).1 = .ok () → (close s3RawIO s closing).2.upload.sent ≠ [] →
        S3.held (close s3RawIO s closing).2.upload.sent = total) := by
  cases h with
  | held hs hlen =>
    have hsent : (close s3RawIO s closing).2.upload.sent = [] := by
      have hbuffered := close_buffered (H := s3RawIO) hdone (by rw [hs]; rfl) closing
      rcases hput : closing.put with _ | e
      · rw [hbuffered.1 hput]
        exact congrArg Multipart.sent hs
      · rw [hbuffered.2 e hput]
        exact congrArg Multipart.sent hs
    have hnone : s.upload.sent = [] := congrArg Multipart.sent hs
    rw [hsent, hnone]
    exact ⟨iff_of_true (Grown.nil.legal (Nat.zero_le _) fun _ hp => absurd hp List.not_mem_nil)
      fun _ hp => absurd hp List.not_mem_nil, fun _ hne => absurd rfl hne⟩
  | streaming hopen hbuffer hlen hgrown hshort =>
    have hheld : S3.held s.upload.sent + s.upload.pending.length = total := by
      rw [← hlen, ← hopen.bytes, List.length_append]
      rfl
    have hclose : (close s3RawIO s closing).2.upload.sent =
        (drain true closing.finish.part s.upload).2.sent := by
      rw [close_streaming (H := s3RawIO) hdone hopen.streaming rfl]
      exact finish_sent hopen closing.finish
    have hpending : s.upload.pending.length ≤ maxPartSize :=
      Nat.le_trans (Nat.le_of_lt hshort) (partSize_le _)
    rw [hclose]
    rcases drain_final_sent hopen closing.finish.part with ⟨hsent, hnil⟩ | hsent
    · rw [hsent]
      refine ⟨⟨fun hlegal => hlegal.atMost, hgrown.legal (by omega)⟩, fun _ _ => ?_⟩
      rw [← hheld, hnil]
      rfl
    · rw [hsent]
      refine ⟨⟨fun hlegal part hp => hlegal.atMost part (List.mem_append_left _ hp),
        fun hmost => hgrown.legal_last (by omega) hmost hpending⟩, fun _ _ => ?_⟩
      rw [held_send, hheld]
  | lost hlost hgrown hlen =>
    obtain ⟨e, he⟩ := Option.ne_none_iff_exists'.mp hlost
    have hfinish : (@ s3RawIO ε).finishUpload closing.finish s.upload =
        (.error e, none, s.upload) := finishUpload_failed he
    rw [close_streaming hdone hlost.streaming hfinish]
    exact ⟨⟨fun hlegal => hlegal.atMost, hgrown.legal (Nat.le_trans hlen htotal)⟩,
      fun hok => nomatch hok⟩

/-- A close sends nothing again. -/
theorem prefix_close (hdone : s.done = false) (h : Tallied total s) (closing : Closing (Finish ε) ε) :
    s.upload.sent <+: (close s3RawIO s closing).2.upload.sent := by
  cases h with
  | held hs hlen =>
    rw [show s.upload.sent = [] from congrArg Multipart.sent hs]
    exact List.nil_prefix
  | streaming hopen hbuffer hlen hgrown hshort =>
    rw [close_streaming (H := s3RawIO) hdone hopen.streaming rfl]
    have hclose : (finishUpload closing.finish s.upload).2.2.sent =
        (drain true closing.finish.part s.upload).2.sent := finish_sent hopen closing.finish
    show s.upload.sent <+: (finishUpload closing.finish s.upload).2.2.sent
    rw [hclose]
    rcases drain_final_sent hopen closing.finish.part with ⟨hsent, -⟩ | hsent
    · rw [hsent]
    · rw [hsent]
      exact List.prefix_append _ _
  | lost hlost hgrown hlen =>
    obtain ⟨e, he⟩ := Option.ne_none_iff_exists'.mp hlost
    rw [close_streaming hdone hlost.streaming (finishUpload_failed he)]

theorem tallied_new (chunkSize : Nat) : Tallied 0 ( RawIO.new (@ s3RawIO ε) chunkSize) :=
  .held rfl rfl

/-- The plan is legal exactly if every write fits, and then holds what was attempted. -/
theorem partsSent_legal (chunkSize : Nat) (calls : List (Bytes × Weather ε))
    (closing : Closing (Finish ε) ε) (htotal : (attempted calls).length ≤ maxObjectSize) :
    (Legal (partsSent chunkSize calls closing) ↔ Fits ( RawIO.new s3RawIO chunkSize) calls) ∧
      ((close s3RawIO (after s3RawIO chunkSize calls) closing).1 = .ok () →
        partsSent chunkSize calls closing ≠ [] →
        S3.held (partsSent chunkSize calls closing) = (attempted calls).length) := by
  obtain ⟨htally, hmost⟩ := writes_tallied calls _ 0 (tallied_new chunkSize)
  rw [Nat.zero_add] at htally
  obtain ⟨hlegal, hheld⟩ := close_legal (after_done chunkSize calls).1 htally htotal closing
  refine ⟨(hlegal.trans hmost).trans ⟨fun h => h.2, fun hfits => ⟨?_, hfits⟩⟩, hheld⟩
  exact fun _ hp => absurd hp List.not_mem_nil

/-- An upload of at most five tebibytes sends a legal plan of parts, which in the end hold
what was written, exactly if no write that makes a part request has more in hand with it
than a part may hold.  A lost part is counted among those sent: it is the last. -/
theorem parts_legal_iff (chunkSize : Nat) (calls : List (Bytes × Weather ε))
    (closing : Closing (Finish ε) ε) (htotal : (attempted calls).length ≤ maxObjectSize) :
    (Legal (partsSent chunkSize calls closing) ∧
        ((close s3RawIO (after s3RawIO chunkSize calls) closing).1 = .ok () →
          partsSent chunkSize calls closing ≠ [] →
          S3.held (partsSent chunkSize calls closing) = (attempted calls).length)) ↔
      Fits ( RawIO.new s3RawIO chunkSize) calls := by
  obtain ⟨hlegal, hheld⟩ := partsSent_legal chunkSize calls closing htotal
  exact ⟨fun h => hlegal.mp h.1, fun hfits => ⟨hlegal.mpr hfits, hheld⟩⟩

theorem after_one {υ ω κ : Type} (H : Hooks υ ω κ ε) (chunkSize : Nat) (payload : Bytes) (weather : ω) :
    after H chunkSize [(payload, weather)] = (write H ( RawIO.new H chunkSize) payload weather).2 := by
  rw [after, writes_snd, writes_nil]

/-- One byte more than the least part. -/
def onePart : Bytes := List.replicate (minPartSize + 1) 0

theorem parts_legal_iff_one : partsSent 1 [(onePart, calmS3)] goodClose ≠ [] ∧
    Legal (partsSent 1 [(onePart, calmS3)] goodClose) := by
  have hlen : onePart.length = minPartSize + 1 := List.length_replicate
  generalize onePart = payload at *
  have hattempted : (attempted [(payload, calmS3)]).length = minPartSize + 1 := by
    rw [attempted_cons, attempted_nil, List.append_nil, hlen]
  have htotal : (attempted [(payload, calmS3)]).length ≤ maxObjectSize := by
    rw [hattempted]
    decide
  have hhand : inHand ( RawIO.new (@ s3RawIO Unit) 1) = 0 := rfl
  have hfits : Fits ( RawIO.new s3RawIO 1) [(payload, calmS3)] := by
    refine ⟨fun _ => ?_, trivial⟩
    rw [hhand, hlen]
    decide
  refine ⟨fun hnone => ?_, ((parts_legal_iff 1 [(payload, calmS3)] goodClose htotal).mpr hfits).1⟩
  -- the write is more than the buffer takes, so it goes up
  have hsends : Sends ( RawIO.new s3RawIO 1) (payload, calmS3) := by
    refine ⟨?_, fun hlost => hlost rfl, ?_⟩
    · intro hnil
      rw [show payload = [] from hnil] at hlen
      exact absurd hlen (by decide)
    · rw [hhand, hlen]
      exact (if_pos rfl).mpr ⟨by decide, _, rfl, by decide⟩
  obtain ⟨htally, hsent⟩ := @write_tallied _ _ payload calmS3 _ (tallied_new 1)
  obtain ⟨-, body, -, hmore⟩ := hsent.resolve_left fun h => h.1 hsends
  have hafter := after_one (@ s3RawIO Unit) 1 payload calmS3
  have hprefix := prefix_close (after_done 1 [(payload, calmS3)]).1 (hafter ▸ htally) goodClose
  rw [partsSent] at hnone
  rw [hnone, hafter, hmore] at hprefix
  exact absurd (List.prefix_nil.mp hprefix) (List.concat_ne_nil _ _)

/-- One write that is too large for the buffer and for a part goes up as one part. -/
theorem single_illegal {chunkSize : Nat} (hfull : max chunkSize minPartSize < payload.length)
    (hopens : Names weather.opens) (hlarge : maxPartSize < payload.length)
    (htotal : payload.length ≤ maxObjectSize) (closing : Closing (Finish ε) ε) :
    ¬Legal (partsSent chunkSize [(payload, weather)] closing) := by
  intro hlegal
  have hattempted : (attempted [(payload, weather)]).length ≤ maxObjectSize := by
    rwa [attempted_cons, attempted_nil, List.append_nil]
  have hfits := (partsSent_legal chunkSize _ closing hattempted).1.mp hlegal
  have hhand : inHand ( RawIO.new (@ s3RawIO ε) chunkSize) = 0 := rfl
  rw [Fits, hhand, Nat.zero_add] at hfits
  have hsends : Sends ( RawIO.new s3RawIO chunkSize) (payload, weather) := by
    refine ⟨?_, fun hlost => hlost rfl, ?_⟩
    · rintro rfl
      exact Nat.not_lt_zero _ hlarge
    · rw [hhand, Nat.zero_add]
      exact (if_pos rfl).mpr ⟨hfull, hopens⟩
  exact Nat.not_le_of_lt hlarge (hfits.1 hsends)

/-- One write of one byte more than a part may hold. -/
def tooLarge : Bytes := List.replicate (maxPartSize + 1) 0

theorem tooLarge_illegal : (attempted [(tooLarge, calmS3)]).length ≤ maxObjectSize ∧
    ¬Legal (partsSent 1 [(tooLarge, calmS3)] goodClose) := by
  have hlen : tooLarge.length = maxPartSize + 1 := List.length_replicate
  have htotal : tooLarge.length ≤ maxObjectSize := by
    rw [hlen]
    decide
  refine ⟨by rwa [attempted_cons, attempted_nil, List.append_nil], ?_⟩
  refine single_illegal ?_ ⟨_, rfl, by decide⟩ ?_ htotal goodClose
  · rw [hlen]
    decide
  · rw [hlen]
    exact Nat.lt_succ_self _

end XrdClient.S3
