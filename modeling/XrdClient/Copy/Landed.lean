/-
  Copy/Landed.lean --- what is at the target when a pass has returned.

  One statement for each way of moving the bytes.  A pass that starts afresh
  leaves the source's content, except that a download into a file system that
  would not size the file leaves what was longer behind it; `syncLocalTarget` is
  what finds that.  A pass that resumes leaves what was there and the rest of the
  source after it.
-/
import XrdClient.Copy.Transfer

set_option autoImplicit false

namespace XrdClient.Copy

open XrdClient.Lib

variable {setting : Setting} {job : Job} {script : Script} {w w' : World} {n : Nat}

/-! ## One stream -/

theorem slice_to_end {α : Type} (source : List α) (offset : Nat) :
    slice source offset (source.length - offset) = source.drop offset := by
  rw [slice, List.take_of_length_le (by simp)]

/-- A stream leaves a prefix of the source behind what was there. -/
theorem streamed_reached (content base : Bytes) (sized : Bool) (script : Script) :
    ∃ done ≤ content.length - base.length,
      streamed content base base.length sized script
        = Landing.reached content base (content.length - base.length) done ∧
      (script.ended = none → sized = false → done = content.length - base.length) := by
  obtain ⟨d, -, hlen, -, hrun⟩ := Landing.run_reached 0 content base
    (content.length - base.length) 0 script.pieces (Nat.zero_le _) (Nat.zero_le _)
  rw [← Landing.single_eq_reached, Landing.single] at hrun
  simp only [streamed, hrun]
  by_cases hquiet : script.ended.isNone && !sized
  · rw [if_pos hquiet, Landing.step_reached _ _ hlen]
    refine ⟨_, ?_, rfl, fun _ _ => ?_⟩ <;> omega
  · rw [if_neg hquiet]
    refine ⟨d, hlen, rfl, fun hended hsized => ?_⟩
    simp [hended, hsized] at hquiet

theorem requireWhole_ok {moved count : Nat} {expected : Option Nat}
    (h : requireWhole moved count expected = .ok n) :
    n = count ∧ ∀ size, expected = some size → size ≤ moved := by
  unfold requireWhole at h
  split at h
  · next size =>
    split at h
    · cases h
    · next hle =>
      cases h
      refine ⟨rfl, fun s hs => ?_⟩
      cases hs
      omega
  · cases h
    exact ⟨rfl, fun s hs => by cases hs⟩

theorem total_some {content : Bytes} {size : Nat} (h : total job content = some size) :
    size = content.length := by
  unfold total at h
  split at h
  · cases h
  · split at h
    · cases h
    · split at h
      · exact (Option.some.inj h).symm
      · cases h

/-- **A pump that returns has moved everything from its offset on.** -/
theorem pump_ok {offset : Nat} (hbase : (baseOf job w).length = offset)
    (h : pump setting job offset script w = (.ok n, w')) :
    script.ended = none ∧ n = (contentOf setting job w).length - offset ∧
      w' = settle job script (contentOf setting job w) offset
        (Landing.reached (contentOf setting job w) (baseOf job w)
          ((contentOf setting job w).length - offset) n) w := by
  subst hbase
  simp only [pump] at h
  obtain ⟨done, hle, hreached, hquiet⟩ := streamed_reached (contentOf setting job w) (baseOf job w)
    (total job (contentOf setting job w)).isSome script
  rw [hreached, Landing.moved_reached] at h
  cases hended : script.ended with
  | some e => simp [hended] at h
  | none =>
    simp only [hended, Prod.mk.injEq] at h
    obtain ⟨hwhole, hw⟩ := h
    obtain ⟨rfl, hsize⟩ := requireWhole_ok hwhole
    have hall : n = (contentOf setting job w).length - (baseOf job w).length := by
      cases htotal : total job (contentOf setting job w) with
      | none => exact hquiet hended (by simp [htotal])
      | some size =>
        have := hsize size htotal
        rw [total_some htotal] at this
        omega
    exact ⟨rfl, hall, hw.symm⟩

/-- The open that precedes a fresh pass. -/
theorem writer_ok {u : Unit} (h : writer job script w = (.ok u, w')) :
    (job.dst = none ∧ w' = w) ∨
      ∃ dst, job.dst = some dst ∧ dst ≠ .other ∧ (w.file = none ∨ job.overwrite = true) ∧
        w' = if dst.writesAtOffset then w.truncate else w := by
  unfold writer at h
  split at h
  · next hdst =>
    cases h
    exact Or.inl ⟨hdst, rfl⟩
  · cases h
  · next dst hother hdst =>
    refine Or.inr ⟨dst, hdst, hother, ?_⟩
    split at h
    · cases h
    · next hfree =>
      split at h
      · cases h
      · cases h
        refine ⟨?_, rfl⟩
        cases hfile : w.file with
        | none => exact Or.inl rfl
        | some file =>
          right
          simpa [hfile] using hfree

theorem oneStream_ok {resuming : Option Nat}
    (h : oneStream setting job resuming script w = (.ok n, w')) :
    ∃ u w₁, (if resuming.isSome then resumer job script w else writer job script w) = (.ok u, w₁) ∧
      pump setting job (resuming.getD 0) script w₁ = (.ok n, w') := by
  unfold oneStream at h
  split at h
  · cases h
  split at h
  · cases h
  split at h
  · cases h
  · next u w₁ hopen => exact ⟨u, w₁, hopen, h⟩

theorem resumer_ok {u : Unit} (h : resumer job script w = (.ok u, w')) :
    w' = w ∧ w.file ≠ none ∧ ∃ dst, job.dst = some dst ∧ dst.writesAtOffset = true := by
  unfold resumer at h
  split at h
  · cases h
  split at h
  · cases h
  next hwrites =>
  split at h
  · cases h
  next hthere =>
  cases h
  simp only [Bool.not_eq_true', Bool.not_eq_false, Option.any_eq_true] at hwrites
  exact ⟨rfl, by simpa using hthere, hwrites⟩

/-- What a fresh pass writes behind is nothing. -/
theorem writer_base {u : Unit} (h : writer job script w = (.ok u, w')) : baseOf job w' = [] := by
  rcases writer_ok h with ⟨hdst, -⟩ | ⟨dst, hdst, -, -, rfl⟩
  · simp [baseOf, hdst]
  · by_cases hwrites : dst.writesAtOffset = true
    · simp [baseOf, hdst, hwrites, World.truncate]
    · simp [baseOf, hdst, hwrites]

theorem writer_content {u : Unit} (h : writer job script w = (.ok u, w')) :
    contentOf setting job w' = contentOf setting job w ∧ w'.written = w.written := by
  rcases writer_ok h with ⟨-, rfl⟩ | ⟨dst, -, -, -, rfl⟩
  · exact ⟨rfl, rfl⟩
  · split <;> exact ⟨rfl, rfl⟩

/-- A fresh stream into a file leaves the source's content there. -/
theorem oneStream_file {dst : Scheme} (hdst : job.dst = some dst)
    (h : oneStream setting job none script w = (.ok n, w')) :
    n = (contentOf setting job w).length ∧ w'.file = some (contentOf setting job w) := by
  obtain ⟨u, w₁, hopen, hpump⟩ := oneStream_ok h
  simp only [Option.isSome_none, Bool.false_eq_true, if_false, Option.getD_none] at hopen hpump
  have hbase := writer_base hopen
  obtain ⟨hended, hn, rfl⟩ := pump_ok (by rw [hbase]; rfl) hpump
  rw [(writer_content hopen).1] at hn ⊢
  refine ⟨by simpa using hn, ?_⟩
  have hfile : (Landing.reached (contentOf setting job w) (baseOf job w₁)
      ((contentOf setting job w).length - 0) n).file = contentOf setting job w := by
    rw [hbase, hn]
    simp only [Landing.reached, List.nil_append, List.length_nil, slice_to_end, List.drop_zero]
  by_cases hwrites : dst.writesAtOffset = true
  · simpa [settle, hdst, hwrites] using hfile
  · simpa [settle, hdst, hwrites, hended] using hfile

/-- A resumed stream leaves what was there, and the rest of the source behind it. -/
theorem oneStream_resumed {file : Bytes} (hfile : w.file = some file)
    (h : oneStream setting job (some file.length) script w = (.ok n, w')) :
    w'.file = some (file ++ (contentOf setting job w).drop file.length) := by
  obtain ⟨u, w₁, hopen, hpump⟩ := oneStream_ok h
  simp only [Option.isSome_some, if_true, Option.getD_some] at hopen hpump
  obtain ⟨rfl, -, dst, hdst, hwrites⟩ := resumer_ok hopen
  have hbase : baseOf job w₁ = file := by simp [baseOf, hdst, hwrites, hfile]
  obtain ⟨-, hn, rfl⟩ := pump_ok (by rw [hbase]) hpump
  simp only [settle, hdst, hwrites, if_true, hbase, Landing.reached, hn, slice_to_end]

/-! ## Several workers -/

/-- Everything that a fan-out returns has landed. -/
theorem fill_agrees {size width : Nat} (hsize : size = setting.content.length)
    (hmoved : size ≤ (w.fill setting size width script).moved) :
    ∀ p < setting.content.length,
      (w.fill setting size width script).file[p]? = setting.content[p]? := by
  subst hsize
  exact Landing.agree_of_moved 0 setting.content (w.file.getD []) width script.pieces hmoved

/-- A fan-out into an empty file leaves the source's content. -/
theorem fanOut_ok {size width : Nat} (hsize : size = setting.content.length)
    (hempty : w.file = some []) (h : fanOut setting size width script w = (.ok n, w')) :
    n = setting.content.length ∧ w'.file = some setting.content := by
  simp only [fanOut] at h
  split at h
  · cases h
  · simp only [Prod.mk.injEq] at h
    obtain ⟨hwhole, rfl⟩ := h
    obtain ⟨hn, hmoved⟩ := requireWhole_ok hwhole
    have hagree := fill_agrees hsize (hmoved size rfl)
    have hshort : (w.fill setting size width script).file.length ≤ setting.content.length := by
      apply Landing.length_run_le
      simp [hempty]
    have hfile := eq_of_agree hshort hagree
    refine ⟨?_, by simp [hfile]⟩
    have hle := hmoved size rfl
    have hge : (w.fill setting size width script).moved ≤ size :=
      Landing.moved_run_le 0 setting.content (w.file.getD []) size width script.pieces
    omega

/-! ## The bulk plane -/

/-- A download that returns has written every byte of the source in its place. -/
theorem download_ok {arrived : Bool} (h : download setting job script w = ((.ok n, w'), arrived)) :
    n = setting.content.length ∧
      ∃ file, w'.file = some file ∧
        ∀ p < setting.content.length, file[p]? = setting.content[p]? := by
  simp only [download] at h
  split at h
  · cases h
  split at h
  · cases h
  next sized _ =>
  generalize (if sized = true then w.preallocate setting.content.length else w) = w₁ at h
  split at h
  · cases h
  · simp only [Prod.mk.injEq] at h
    obtain ⟨⟨hn, rfl⟩, -⟩ := h
    split at hn
    · next hall =>
      cases hn
      exact ⟨hall, _, rfl, fill_agrees rfl (Nat.le_of_eq hall.symm)⟩
    · cases hn

theorem bulkToFile_ok (h : bulkToFile setting job script w = (.ok n, w')) :
    n = setting.content.length ∧
      ∃ file, w'.file = some file ∧
        ∀ p < setting.content.length, file[p]? = setting.content[p]? := by
  unfold bulkToFile at h
  split at h
  · cases h
  split at h
  · cases h
  split at h
  · next hdownload =>
    cases h
    exact download_ok hdownload
  · cases h

/-- The target holds the source's content, or, for a local one, holds it at every
position of the source. -/
def Arrived (setting : Setting) (dst : Scheme) (n : Nat) (w : World) : Prop :=
  n = setting.content.length ∧
    ∃ file, w.file = some file ∧
      (file = setting.content ∨
        dst.isLocal = true ∧ ∀ p < setting.content.length, file[p]? = setting.content[p]?)

theorem Arrived.whole {dst : Scheme} (hn : n = setting.content.length)
    (hfile : w.file = some setting.content) : Arrived setting dst n w :=
  ⟨hn, _, hfile, Or.inl rfl⟩

/-- What a fresh plan that returns leaves at a target that is a file. -/
theorem moveGeneral_arrived {dst : Scheme} {p : Plan} {resume : Bool} {sources : Nat}
    {there here : Except Fault (Option Nat)} (hsrc : job.src ≠ none) (hdst : job.dst = some dst)
    (hplan : Planned job resume sources there here p) (hfresh : p.resuming = none)
    (hhere : ∀ size, here = .ok (some size) → size = setting.content.length)
    (h : moveGeneral setting job p script w = (.ok n, w')) : Arrived setting dst n w' := by
  have hcontent : contentOf setting job w = setting.content := by
    simp [contentOf, Option.isSome_iff_ne_none, hsrc]
  -- a stream, whatever the plan was when the bulk plane declined it
  have hstream : oneStream setting job none script w = (.ok n, w') → Arrived setting dst n w' := by
    intro hone
    obtain ⟨hn, hfile⟩ := oneStream_file hdst hone
    rw [hcontent] at hn hfile
    exact .whole hn hfile
  cases hplan with
  | several hsrc' hdst' hroot hoffset hsources hresume =>
    have hne : sources ≠ 0 := by omega
    simp only [moveGeneral, hne, ne_eq, not_false_eq_true, if_true] at h
    unfold fromReplicas at h
    split at h
    · cases h
    split at h
    · cases h
    next hopen =>
    split at h
    · cases h
    rcases writer_ok hopen with ⟨hnone, -⟩ | ⟨dst', hsome, -, -, rfl⟩
    · rw [hdst] at hnone
      cases hnone
    · rw [hdst'] at hsome
      cases hsome
      rw [if_pos hoffset] at h
      obtain ⟨hn, hfile⟩ := fanOut_ok rfl rfl h
      exact .whole hn hfile
  | resumed => cases hfresh
  | oneStream => exact hstream h
  | bulk => exact hstream h
  | @spans src dst' s _ hsrc' hdst' hdiv hsize hworkers =>
    simp only [moveGeneral, ne_eq, not_true_eq_false, if_false] at h
    unfold inParallel at h
    split at h
    · cases h
    next hopen =>
    rcases writer_ok hopen with ⟨hnone, -⟩ | ⟨dst'', hsome, -, -, rfl⟩
    · rw [hdst] at hnone
      cases hnone
    · rw [hdst'] at hsome
      cases hsome
      have hoffset : dst'.writesAtOffset = true := by
        simp only [divisible, Bool.and_eq_true] at hdiv
        simp [Scheme.writesAtOffset, hdiv.1]
      rw [if_pos hoffset] at h
      obtain ⟨hn, hfile⟩ := fanOut_ok (hhere _ hsize) rfl h
      exact .whole hn hfile

/-- **Every fresh plan that returns has brought the source's content.** -/
theorem move_arrived {dst : Scheme} {p : Plan} {resume : Bool} {sources : Nat}
    {there here : Except Fault (Option Nat)} {bulkScript : Script} (hsrc : job.src ≠ none)
    (hdst : job.dst = some dst) (hplan : Planned job resume sources there here p)
    (hfresh : p.resuming = none)
    (hhere : ∀ size, here = .ok (some size) → size = setting.content.length)
    (h : move setting job p bulkScript script w = (.ok n, w')) : Arrived setting dst n w' := by
  unfold move at h
  split at h
  · next hbulking =>
    split at h
    · cases h
    · next hbulk =>
      cases h
      have hlocal : dst.isLocal = true := by
        cases hplan with
        | bulk _ husable =>
          rcases bulkUsable_dst husable with hnone | hfile
          · rw [hdst] at hnone
            cases hnone
          · rw [hdst] at hfile
            cases hfile
            rfl
        | _ => cases hbulking
      unfold bulk at hbulk
      rw [hdst] at hbulk
      simp only [Option.isSome_some, if_true] at hbulk
      split at hbulk
      · next hto =>
        cases hbulk
        obtain ⟨hn, file, hfile, hagree⟩ := bulkToFile_ok hto
        exact ⟨hn, file, hfile, Or.inr ⟨hlocal, hagree⟩⟩
      · cases hbulk
      · cases hbulk
    · exact moveGeneral_arrived hsrc hdst hplan hfresh hhere h
  · exact moveGeneral_arrived hsrc hdst hplan hfresh hhere h

/-- A resumed plan that returns leaves what was there and the rest of the source. -/
theorem move_resumed {p : Plan} {resume : Bool} {sources : Nat}
    {there here : Except Fault (Option Nat)} {bulkScript : Script} {file : Bytes}
    (hsrc : job.src ≠ none) (hplan : Planned job resume sources there here p)
    (hresume : p.resuming = some file.length) (hfile : w.file = some file)
    (h : move setting job p bulkScript script w = (.ok n, w')) :
    w'.file = some (file ++ setting.content.drop file.length) := by
  have hcontent : contentOf setting job w = setting.content := by
    simp [contentOf, Option.isSome_iff_ne_none, hsrc]
  cases hplan with
  | resumed =>
    cases hresume
    rw [← hcontent]
    exact oneStream_resumed hfile h
  | _ => cases hresume

end XrdClient.Copy
