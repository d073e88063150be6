/-
  Copy/Cleanup.lean --- what a failed copy may remove, and what it does remove.

  `transfer_preserves` is the rule for the retry loop: what every move preserves,
  a transfer preserves.  With it, an empty target is one this copy made
  (`Owned`), unless an empty one was there before; and then every removal the
  clean-up has on record is of an empty target of this copy's own.
-/
import XrdClient.Copy.Success

set_option autoImplicit false

namespace XrdClient.Copy

open XrdClient.Lib

variable {setting : Setting} {job : Job} {options : Options} {algorithm : Text}
  {schedule : Schedule} {script : Script} {t : Try} {w : World} {left : Nat} {p : Plan}

/-! ## The rule for the loop -/

/-- Every move of the job preserves `I`. -/
def MovesPreserve (setting : Setting) (job : Job) (sources : Nat) (I : World → Prop) : Prop :=
  ∀ (p : Plan) (resume : Bool) (there here : Except Fault (Option Nat))
    (bulkScript script : Script) (w : World),
    Planned job resume sources there here p → I w →
      I (move setting job p bulkScript script w).2

theorem attempt_preserves (algorithm : Text) (round : Round) (I : World → Prop) (hdigest : ∀ w, I w → I w.undigested)
    (hmoves : MovesPreserve setting job options.sources I) (h : I t.world) :
    I (attempt setting job options algorithm round t).2 := by
  unfold attempt
  split
  · exact h
  next hplan =>
  split
  · exact h
  split
  · exact h
  have hmove := hmoves _ _ _ _ round.bulk round.general _ (planned_of_plan hplan) (hdigest _ h)
  split
  · next heq =>
    rw [heq] at hmove
    exact hmove
  · next heq =>
    rw [heq] at hmove
    exact hmove
  · next heq =>
    rw [heq] at hmove
    exact hmove

/-- **What every move preserves, a transfer preserves.** -/
theorem transfer_preserves (algorithm : Text) (schedule : Schedule) (left : Nat) (t : Try)
    (I : World → Prop) (hdigest : ∀ w, I w → I w.undigested)
    (hmoves : MovesPreserve setting job options.sources I) (h : I t.world) :
    I (transfer setting job options algorithm schedule left t).2 := by
  induction left generalizing t with
  | zero =>
    have hround := attempt_preserves algorithm (schedule.round t.attempts) I hdigest hmoves h
    unfold transfer
    split <;> next heq => rw [heq] at hround; exact hround
  | succ left ih =>
    have hround := attempt_preserves algorithm (schedule.round t.attempts) I hdigest hmoves h
    unfold transfer
    split
    · next heq => rw [heq] at hround; exact hround
    · next heq => rw [heq] at hround; exact hround
    · next heq =>
      rw [heq] at hround
      simp only
      split
      · exact ih _ hround
      · exact hround

/-! ## An empty target is one this copy made -/

/-- The record of removals is `log`, and, where the clean-up could act (`reach`),
an empty target was made here. -/
structure Tidy (reach : Prop) (log : List (Bytes × Bool)) (w : World) : Prop where
  owned : reach → w.file = some [] → w.made = true
  record : w.cleared = log

variable {reach : Prop} {log : List (Bytes × Bool)}

theorem Tidy.truncate (h : Tidy reach log w) : Tidy reach log w.truncate := ⟨fun _ _ => rfl, h.record⟩

theorem Tidy.remove (h : Tidy reach log w) : Tidy reach log { w with file := none } := by
  refine ⟨fun _ hfile => ?_, h.record⟩
  cases hfile

/-- Bytes landed behind what is there leave an empty target only if it was empty. -/
theorem Tidy.land (h : Tidy reach log w) (hthere : w.file ≠ none) {file : Bytes}
    (hgrows : (w.file.getD []).length ≤ file.length) : Tidy reach log { w with file := some file } := by
  refine ⟨fun hreach hempty => h.owned hreach ?_, h.record⟩
  obtain ⟨old, hold⟩ := Option.ne_none_iff_exists'.mp hthere
  simp only [Option.some.injEq] at hempty
  simp only [hempty, hold, Option.getD_some, List.length_nil, Nat.le_zero,
    List.length_eq_zero_iff] at hgrows
  rw [hold, hgrows]

theorem writer_tidy (job : Job) (script : Script) (h : Tidy reach log w) : Tidy reach log (writer job script w).2 := by
  unfold writer
  split
  · exact h
  · exact h
  split
  · exact h
  split
  · simp only
    split
    · exact h.truncate
    · exact h
  · simp only
    split
    · exact h.truncate
    · exact h

/-- A target written at offsets is there once it is open. -/
theorem writer_there {w' : World} {u : Unit} (hoffset : job.dst.any (·.writesAtOffset) = true)
    (h : writer job script w = (.ok u, w')) : w'.file ≠ none := by
  rcases writer_ok h with ⟨hdst, -⟩ | ⟨dst, hdst, -, -, rfl⟩
  · simp [hdst] at hoffset
  · simp only [hdst, Option.any_some] at hoffset
    simp [hoffset, World.truncate]

theorem streamed_grows (content base : Bytes) (offset : Nat) (sized : Bool) (script : Script) :
    base.length ≤ (streamed content base offset sized script).file.length := by
  have hrun := Landing.length_le_run (0 : UInt8) content
    ⟨base, [{ start := offset, length := content.length - offset }]⟩ script.pieces
  simp only [streamed]
  split
  · refine Nat.le_trans hrun ?_
    exact Landing.length_le_run (0 : UInt8) content _ [.landed 0 content.length]
  · exact hrun

theorem settle_tidy {content : Bytes} {offset : Nat} {l : Landing UInt8} (h : Tidy reach log w)
    (hthere : job.dst.any (·.writesAtOffset) = true → w.file ≠ none)
    (hgrows : (baseOf job w).length ≤ l.file.length) :
    Tidy reach log (settle job script content offset l w) := by
  simp only [settle]
  split
  · exact ⟨h.owned, h.record⟩
  next dst hdst =>
  split
  · next hoffset =>
    have hany : job.dst.any (·.writesAtOffset) = true := by simp [hdst, hoffset]
    rw [baseOf, if_pos hany] at hgrows
    have hland := h.land (hthere hany) hgrows
    exact ⟨hland.owned, hland.record⟩
  · split
    · exact ⟨fun _ _ => rfl, h.record⟩
    · exact ⟨h.owned, h.record⟩

theorem pump_tidy {offset : Nat} (h : Tidy reach log w)
    (hthere : job.dst.any (·.writesAtOffset) = true → w.file ≠ none) :
    Tidy reach log (pump setting job offset script w).2 := by
  simp only [pump]
  split <;> exact settle_tidy h hthere (streamed_grows _ _ _ _ _)

theorem resumer_world (job : Job) (script : Script) (w : World) :
    (resumer job script w).2 = w := by
  unfold resumer
  split
  · rfl
  split
  · rfl
  split <;> rfl

theorem oneStream_tidy {resuming : Option Nat} (h : Tidy reach log w) :
    Tidy reach log (oneStream setting job resuming script w).2 := by
  have hwriter := writer_tidy job script h
  have hresumer := resumer_world job script w
  unfold oneStream
  split
  · exact h
  split
  · exact h
  split
  · next hopen =>
    split at hopen
    · rw [hopen] at hresumer
      simp only at hresumer
      rwa [hresumer]
    · rwa [hopen] at hwriter
  · next hopen =>
    split at hopen
    · obtain ⟨rfl, hthere, -⟩ := resumer_ok hopen
      exact pump_tidy h fun _ => hthere
    · rw [hopen] at hwriter
      exact pump_tidy hwriter fun hoffset => writer_there hoffset hopen

/-! ## Every way -/

theorem fill_grows (setting : Setting) (size width : Nat) (script : Script) (w : World) :
    (w.file.getD []).length ≤ (w.fill setting size width script).file.length :=
  Landing.length_le_run (0 : UInt8) setting.content ⟨w.file.getD [], divide size width⟩ script.pieces

theorem fanOut_tidy {size width : Nat} (h : Tidy reach log w) (hthere : w.file ≠ none) :
    Tidy reach log (fanOut setting size width script w).2 := by
  have hland : Tidy reach log { w with file := some (w.fill setting size width script).file } :=
    h.land hthere (fill_grows setting size width script w)
  simp only [fanOut]
  split <;> exact hland

theorem inParallel_tidy {s : Spread} (hoffset : job.dst.any (·.writesAtOffset) = true)
    (h : Tidy reach log w) : Tidy reach log (inParallel setting job s script w).2 := by
  have hwriter := writer_tidy job script h
  unfold inParallel
  split
  · next hopen => rwa [hopen] at hwriter
  · next hopen =>
    rw [hopen] at hwriter
    exact fanOut_tidy hwriter (writer_there hoffset hopen)

theorem fromReplicas_tidy {sources : Nat} (hoffset : job.dst.any (·.writesAtOffset) = true)
    (h : Tidy reach log w) : Tidy reach log (fromReplicas setting job sources script w).2 := by
  have hwriter := writer_tidy job script h
  unfold fromReplicas
  split
  · exact h
  split
  · next hopen => rwa [hopen] at hwriter
  · next hopen =>
    rw [hopen] at hwriter
    split
    · exact hwriter
    · exact fanOut_tidy hwriter (writer_there hoffset hopen)

theorem download_tidy (setting : Setting) (job : Job) (script : Script) (h : Tidy reach log w) (hthere : w.file ≠ none) :
    Tidy reach log (download setting job script w).1.2 := by
  unfold download
  split
  · exact h
  split
  · exact h
  next sized _ =>
  have hsized : Tidy reach log (if sized = true then w.preallocate setting.content.length else w) ∧
      (if sized = true then w.preallocate setting.content.length else w).file ≠ none := by
    split
    · exact ⟨⟨fun _ _ => rfl, h.record⟩, by simp [World.preallocate]⟩
    · exact ⟨h, hthere⟩
  simp only
  generalize (if sized = true then w.preallocate setting.content.length else w) = w₁ at *
  have hland : Tidy reach log { w₁ with file := some (w₁.fill setting setting.content.length
      (share setting.content.length (bulkCount job.config setting.content.length)) script).file } :=
    hsized.1.land hsized.2 (fill_grows setting _ _ script w₁)
  split <;> exact hland

theorem bulkToFile_tidy (h : Tidy reach log w) : Tidy reach log (bulkToFile setting job script w).2 := by
  have hcreate : ∀ r w₁, create job.overwrite w = (r, w₁) →
      Tidy reach log w₁ ∧ (∀ c, r = .ok c → w₁.file ≠ none) := by
    intro r w₁ heq
    unfold create at heq
    split at heq
    · cases heq
      exact ⟨h.truncate, fun _ _ => by simp [World.truncate]⟩
    · next file hfile =>
      split at heq
      · cases heq
        exact ⟨h, fun _ _ => by simp [hfile]⟩
      · cases heq
        exact ⟨h, fun _ hc => by cases hc⟩
  unfold bulkToFile
  split
  · exact h
  split
  · next hmade => exact (hcreate _ _ hmade).1
  next hmade =>
  obtain ⟨htidy, hthere⟩ := hcreate _ _ hmade
  have hdownload := download_tidy setting job script htidy (hthere _ rfl)
  split
  · next heq =>
    rw [heq] at hdownload
    exact hdownload
  · next heq =>
    rw [heq] at hdownload
    simp only
    split
    · exact hdownload.remove
    · exact hdownload

theorem bulk_tidy (setting : Setting) (job : Job) (script : Script) (h : Tidy reach log w) :
    Tidy reach log (bulk setting job script w).2 := by
  have hto : Tidy reach log (if job.dst.isSome then bulkToFile setting job script w
      else bulkToStream setting script w).2 := by
    split
    · exact bulkToFile_tidy h
    · unfold bulkToStream
      split
      · exact h
      · simp only
        split <;> exact ⟨h.owned, h.record⟩
  unfold bulk
  split <;> next heq => rw [heq] at hto; exact hto

/-- **No way of moving the bytes leaves an empty target that is not this copy's.** -/
theorem move_tidy {sources : Nat} : MovesPreserve setting job sources (Tidy reach log) := by
  intro p resume there here bulkScript script w hplan h
  have hgeneral : ∀ w, Tidy reach log w → Tidy reach log (moveGeneral setting job p script w).2 := by
    intro w h
    unfold moveGeneral
    split
    · refine fromReplicas_tidy ?_ h
      cases hplan with
      | several _ hdst _ hoffset => simp [hdst, hoffset]
      | _ => contradiction
    split
    · next s hspread =>
      refine inParallel_tidy ?_ h
      cases hplan with
      | spans _ _ hdst hdiv =>
        simp only [divisible, Bool.and_eq_true] at hdiv
        simp [hdst, Scheme.writesAtOffset, hdiv.1]
      | _ => contradiction
    · exact oneStream_tidy h
  unfold move
  split
  · have hbulk := bulk_tidy setting job bulkScript h
    split
    · next heq => rw [heq] at hbulk; exact hbulk
    · next heq => rw [heq] at hbulk; exact hbulk
    · next heq =>
      rw [heq] at hbulk
      exact hgeneral _ hbulk
  · exact hgeneral w h

/-! ## The clean-up's record -/

/-- What the clean-up does: nothing, or the removal of an empty target. -/
theorem discardEmptyTarget_cases (setting : Setting) (job : Job) (schedule : Schedule)
    (w : World) :
    discardEmptyTarget setting job schedule w = w ∨
      w.file = some [] ∧ discardEmptyTarget setting job schedule w = w.clear [] := by
  unfold discardEmptyTarget
  split
  · next file hprobe hfile =>
    obtain ⟨-, hlength⟩ := probe_some hprobe
    simp only [hfile, Option.map_some, Option.some.injEq, List.length_eq_zero_iff] at hlength
    subst hlength
    split
    · exact Or.inl rfl
    · exact Or.inl rfl
    · split
      · exact Or.inr ⟨hfile, rfl⟩
      · exact Or.inl rfl
  · exact Or.inl rfl

/-- Every removal on record is of an empty target of this copy's own. -/
def OwnRemovals (w : World) : Prop := ∀ c ∈ w.cleared, c = ([], true)

theorem Tidy.own (htidy : Tidy reach log w) (hlog : ∀ c ∈ log, c = ([], true)) :
    OwnRemovals w := by
  intro c hc
  rw [htidy.record] at hc
  exact hlog c hc

/-- A removal of an empty target that was made here is this copy's own. -/
theorem OwnRemovals.clear (h : OwnRemovals w) (hmade : w.made = true) :
    OwnRemovals (w.clear []) := by
  intro c hc
  simp only [World.clear, List.mem_append, List.mem_singleton] at hc
  rcases hc with hc | rfl
  · exact h c hc
  · rw [hmade]

end XrdClient.Copy
