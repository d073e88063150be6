/-
  Copy/Exclusive.lean --- when a copy leaves a target alone.

  Four reasons why no move changes a file that is at the target: the copy is
  exclusive, the target's scheme is not spoken, the source's is not, or both the
  file and the source are empty.  `copyOne_keeps` carries any of them over the
  retry loop and the clean-up.
-/
import XrdClient.Copy.Cleanup

set_option autoImplicit false

namespace XrdClient.Copy

open XrdClient.Lib

variable {setting : Setting} {job : Job} {options : Options} {schedule : Schedule}
  {script : Script} {w : World} {dst : Scheme} {file : Bytes} {sources : Nat}

/-- The target holds `file`. -/
def Holds (file : Bytes) (w : World) : Prop := w.file = some file

/-! ## Moves that leave the target alone -/

/-- A target that is refused at its open. -/
def Refused (job : Job) (file : Bytes) : Prop :=
  ∃ dst, job.dst = some dst ∧ (job.overwrite = false ∨ dst = .other) ∧
    ∀ script w, Holds file w → ∃ e, writer job script w = (.error e, w)

theorem refused_of_exclusive (hdst : job.dst = some dst) (hover : job.overwrite = false)
    (file : Bytes) : Refused job file := by
  refine ⟨dst, hdst, Or.inl hover, fun script w hfile => ?_⟩
  rw [Holds] at hfile
  unfold writer
  cases dst with
  | other => exact ⟨_, by simp only [hdst]; rfl⟩
  | _ => exact ⟨_, by simp only [hdst, hfile, hover]; rfl⟩

theorem refused_of_other (hdst : job.dst = some .other) (file : Bytes) : Refused job file := by
  refine ⟨.other, hdst, Or.inr rfl, fun script w _ => ?_⟩
  exact ⟨_, by simp only [writer, hdst]; rfl⟩

/-- An open that is refused fails every move, and nothing has happened. -/
theorem move_refused (hrefused : Refused job file) :
    MovesPreserve setting job sources (Holds file) := by
  intro p resume there here bulkScript script w hplan hfile
  obtain ⟨dst, hdst, hwhy, hwriter⟩ := hrefused
  obtain ⟨e, hopen⟩ := hwriter script w hfile
  have hgeneral : (moveGeneral setting job p script w).2 = w := by
    unfold moveGeneral
    split
    · unfold fromReplicas
      split
      · rfl
      · simp only [hopen]
    split
    · simp only [inParallel, hopen]
    · unfold oneStream
      split
      · rfl
      split
      · rfl
      have hresumer := resumer_world job script w
      split
      · next heq =>
        split at heq
        · rw [heq] at hresumer
          exact hresumer
        · rw [hopen] at heq
          cases heq
          rfl
      · next heq =>
        split at heq
        · next hresuming =>
          -- an exclusive copy is not resumed, and a scheme not spoken cannot be
          obtain ⟨-, -, dst', hdst', hoffset⟩ := resumer_ok heq
          rw [hdst] at hdst'
          cases hdst'
          rcases hwhy with hover | rfl
          · cases hplan with
            | resumed _ hover' => simp [hover] at hover'
            | _ => cases hresuming
          · cases hoffset
        · rw [hopen] at heq
          cases heq
  unfold move
  split
  · have hbulk : (bulk setting job bulkScript w).2 = w := by
      have hto : (bulkToFile setting job bulkScript w).2 = w := by
        unfold bulkToFile
        split
        · rfl
        · rcases hwhy with hover | rfl
          · rw [Holds] at hfile
            simp only [create, hfile, hover]
            rfl
          · exfalso
            cases hplan with
            | bulk _ husable =>
              rcases bulkUsable_dst husable with h | h <;> simp [hdst] at h
            | _ => contradiction
      unfold bulk
      simp only [hdst, Option.isSome_some, if_true]
      split <;> next heq => rw [heq] at hto; exact hto
    split
    · next heq =>
      rw [heq] at hbulk
      rw [hbulk]
      exact hfile
    · next heq =>
      rw [heq] at hbulk
      rw [hbulk]
      exact hfile
    · next heq =>
      rw [heq] at hbulk
      simp only at hbulk
      rw [hbulk, hgeneral]
      exact hfile
  · rw [hgeneral]
    exact hfile

/-- A source whose scheme is not spoken is not opened, and the target not touched. -/
theorem move_unreadable {src : Url} (hsrc : job.src = some src) (hother : src.scheme = .other) :
    MovesPreserve setting job sources (Holds file) := by
  intro p resume there here bulkScript script w hplan hfile
  have hstream : ∀ resuming, (oneStream setting job resuming script w).2 = w := by
    intro resuming
    unfold oneStream
    split
    · rfl
    · simp [readable, hsrc, hother]
  have hmove : (move setting job p bulkScript script w).2 = w := by
    cases hplan with
    | several hsrc' _ hroot =>
      rw [hsrc] at hsrc'
      cases hsrc'
      simp [Scheme.isRoot, hother] at hroot
    | bulk _ husable =>
      obtain ⟨src', hsrc', hroot⟩ := bulkUsable_src husable
      rw [hsrc] at hsrc'
      cases hsrc'
      simp [hother] at hroot
    | spans _ hsrc' _ hdiv =>
      rw [hsrc] at hsrc'
      cases hsrc'
      simp [divisible, Scheme.isLocal, Scheme.isRoot, Scheme.isHttp, hother] at hdiv
    | resumed => exact hstream _
    | oneStream => exact hstream _
  rw [hmove]
  exact hfile

/-! ### An empty file, and nothing to copy -/

theorem run_empty (pieces : List Piece) (stripes : List Stripe) (source : Bytes)
    (h : source = []) : (Landing.run 0 source ⟨[], stripes⟩ pieces).file = [] := by
  have hle : (Landing.run 0 source ⟨[], stripes⟩ pieces).file.length ≤ source.length :=
    Landing.length_run_le 0 (Nat.zero_le _) pieces
  rw [h] at hle ⊢
  exact List.eq_nil_of_length_eq_zero (by simpa using hle)

theorem writer_empty (job : Job) (script : Script) (h : Holds [] w) :
    Holds [] (writer job script w).2 := by
  unfold writer
  split
  · exact h
  · exact h
  split
  · exact h
  split
  · simp only
    split
    · exact rfl
    · exact h
  · simp only
    split
    · exact rfl
    · exact h

theorem fill_empty (size width : Nat) (script : Script) (hcontent : setting.content = []) (h : Holds [] w) :
    (w.fill setting size width script).file = [] := by
  rw [Holds] at h
  simp only [World.fill, h, Option.getD_some]
  exact run_empty _ _ _ hcontent

theorem fanOut_empty {size width : Nat} (hcontent : setting.content = []) (h : Holds [] w) :
    Holds [] (fanOut setting size width script w).2 := by
  have hfill := fill_empty size width script hcontent h
  simp only [fanOut]
  split <;> simp [Holds, hfill]

theorem pump_empty {offset : Nat} (hsrc : job.src ≠ none) (hdst : job.dst ≠ none)
    (hcontent : setting.content = []) (h : Holds [] w) :
    Holds [] (pump setting job offset script w).2 := by
  have hnothing : contentOf setting job w = [] := by
    simp [contentOf, Option.isSome_iff_ne_none, hsrc, hcontent]
  have hbase : baseOf job w = [] := by
    rw [Holds] at h
    simp [baseOf, h]
  have hlanded : ∀ sized, (streamed [] [] offset sized script).file = [] := by
    intro sized
    simp only [streamed]
    split
    · have hone := run_empty (script.pieces ++ [.landed 0 0])
        [{ start := offset, length := 0 - offset }] [] rfl
      rw [Landing.run, List.foldl_append] at hone
      exact hone
    · exact run_empty _ _ _ rfl
  obtain ⟨dst, hdst⟩ := Option.ne_none_iff_exists'.mp hdst
  have hsettle : ∀ sized, Holds [] (settle job script [] offset
      (streamed [] [] offset sized script) w) := by
    intro sized
    simp only [settle, hdst]
    split
    · simp [Holds, hlanded]
    · split
      · simp [Holds, hlanded]
      · exact h
  simp only [pump, hnothing, hbase]
  split <;> exact hsettle _

/-- Nothing copied onto an empty file leaves it as it was. -/
theorem move_empty (hsrc : job.src ≠ none) (hdst : job.dst ≠ none)
    (hcontent : setting.content = []) : MovesPreserve setting job sources (Holds []) := by
  intro p resume there here bulkScript script w hplan hfile
  have hgeneral : ∀ w, Holds [] w → Holds [] (moveGeneral setting job p script w).2 := by
    intro w h
    have hwriter := writer_empty job script h
    unfold moveGeneral
    split
    · unfold fromReplicas
      split
      · exact h
      split
      · next heq => rw [heq] at hwriter; exact hwriter
      · next heq =>
        rw [heq] at hwriter
        split
        · exact hwriter
        · exact fanOut_empty hcontent hwriter
    split
    · unfold inParallel
      split
      · next heq => rw [heq] at hwriter; exact hwriter
      · next heq =>
        rw [heq] at hwriter
        exact fanOut_empty hcontent hwriter
    · have hopened : Holds [] (if p.resuming.isSome then resumer job script w
          else writer job script w).2 := by
        split
        · rw [resumer_world]
          exact h
        · exact hwriter
      unfold oneStream
      split
      · exact h
      split
      · exact h
      split
      · next heq => rw [heq] at hopened; exact hopened
      · next heq =>
        rw [heq] at hopened
        exact pump_empty hsrc hdst hcontent hopened
  have hbulk : Holds [] (bulk setting job bulkScript w).2 := by
    have hdownload : Holds [] (download setting job bulkScript w).1.2 := by
      rw [Holds] at hfile
      unfold download
      split
      · exact hfile
      split
      · exact hfile
      next sized _ =>
      have hsized : Holds [] (if sized = true then w.preallocate setting.content.length else w) := by
        split
        · simp [Holds, World.preallocate, hcontent, hfile, resize]
        · exact hfile
      simp only
      generalize (if sized = true then w.preallocate setting.content.length else w) = w₁ at *
      split <;> simp [Holds, fill_empty _ _ _ hcontent hsized]
    have hto : Holds [] (bulkToFile setting job bulkScript w).2 := by
      unfold bulkToFile
      split
      · exact hfile
      · rw [Holds] at hfile
        -- the file is there, so it is not this download's to remove
        unfold create
        simp only [hfile]
        by_cases hover : job.overwrite = true
        · simp only [hover, if_true]
          split <;> next heq => rw [heq] at hdownload; exact hdownload
        · simp only [hover]
          exact hfile
    obtain ⟨dst, hdst⟩ := Option.ne_none_iff_exists'.mp hdst
    unfold bulk
    simp only [hdst, Option.isSome_some, if_true]
    split <;> next heq => rw [heq] at hto; exact hto
  unfold move
  split
  · split
    · next heq => rw [heq] at hbulk; exact hbulk
    · next heq => rw [heq] at hbulk; exact hbulk
    · next heq =>
      rw [heq] at hbulk
      exact hgeneral _ hbulk
  · exact hgeneral w hfile

/-! ## One copy -/

/-- The clean-up spares a target that holds bytes, one that no server holds for
this client, and any target of a copy that may be resumed. -/
def Spared (dst : Scheme) (options : Options) (file : Bytes) : Prop :=
  options.resume = true ∨ dst.isRemote = false ∨ file ≠ []

theorem cleaned_holds {existed : Bool} {e : Fault} (hdst : job.dst = some dst)
    (hexisted : dst.isLocal = true → existed = true) (hspared : Spared dst options file)
    (h : Holds file w) :
    Holds file (cleanedOnFailure setting job options existed schedule e w) := by
  unfold cleanedOnFailure
  split
  · next hclean =>
    rcases discardEmptyTarget_cases setting job schedule w with hsame | ⟨hempty, -⟩
    · rw [hsame]
      exact h
    · exfalso
      simp only [Bool.and_eq_true, Bool.not_eq_true', mayClean, hdst] at hclean
      obtain ⟨hresume, hmay⟩ := hclean
      rw [Holds, hempty, Option.some.injEq] at h
      rcases hspared with hyes | hremote | hbytes
      · simp [hresume] at hyes
      · split at hmay
        · cases hmay
        split at hmay
        · next hlocal => simp [hexisted hlocal] at hmay
        · simp [hremote] at hmay
      · exact hbytes h.symm
  · exact h

/-- **What every move leaves alone, a copy leaves alone**, if the clean-up spares it. -/
theorem copyOne_keeps {src : Option Url}
    (hmoves : MovesPreserve setting (jobOf src (some dst) options) options.sources (Holds file))
    (hspared : Spared dst options file) (h : Holds file w) :
    Holds file (copyOne setting src (some dst) options schedule w).2 := by
  have htransfer := transfer_preserves (algorithmOf options) schedule
    options.config.retries (firstTry options w) (Holds file) (fun _ hw => hw) hmoves h
  have hexisted : dst.isLocal = true → existedBefore (some dst) w = true := by
    intro hlocal
    rw [Holds] at h
    simp [existedBefore, hlocal, h]
  simp only [copyOne]
  split
  · exact h
  split
  · next heq =>
    rw [heq] at htransfer
    exact cleaned_holds rfl hexisted hspared htransfer
  next heq =>
  rw [heq] at htransfer
  split
  · exact cleaned_holds rfl hexisted hspared htransfer
  split <;> exact htransfer

/-- An empty target that the clean-up could reach was made by this copy. -/
def Guarded (dst : Scheme) (options : Options) (w : World) : Prop :=
  dst.isRemote = true → options.resume = false → w.file = some [] → w.made = true

/-- Where a clean-up of this copy could act. -/
def Reach (dst : Scheme) (options : Options) (w : World) : Prop :=
  dst.isRemote = true ∧ options.resume = false ∨ dst.isLocal = true ∧ w.file = none

theorem reach_of_mayClean {e : Fault}
    (h : (!options.resume && mayClean (some dst) (existedBefore (some dst) w) e) = true) :
    Reach dst options w := by
  simp only [Bool.and_eq_true, Bool.not_eq_true', mayClean] at h
  obtain ⟨hresume, hmay⟩ := h
  split at hmay
  · cases hmay
  split at hmay
  · next hlocal => exact Or.inr ⟨hlocal, by simpa [existedBefore, hlocal] using hmay⟩
  · exact Or.inl ⟨hmay, hresume⟩

theorem guarded_of_tidy {w' : World} {log : List (Bytes × Bool)}
    (h : Tidy (Reach dst options w) log w') : Guarded dst options w' :=
  fun hremote hresume hempty => h.owned (Or.inl ⟨hremote, hresume⟩) hempty

theorem cleaned_own {w' : World} {log : List (Bytes × Bool)} {e : Fault}
    (hdst : job.dst = some dst) (hlog : ∀ c ∈ log, c = ([], true))
    (htidy : Tidy (Reach dst options w) log w') :
    OwnRemovals (cleanedOnFailure setting job options (existedBefore (some dst) w) schedule e w') ∧
      Guarded dst options
        (cleanedOnFailure setting job options (existedBefore (some dst) w) schedule e w') := by
  unfold cleanedOnFailure
  rw [hdst]
  split
  · next hmay =>
    rcases discardEmptyTarget_cases setting job schedule w' with hsame | ⟨hempty, hclear⟩
    · rw [hsame]
      exact ⟨htidy.own hlog, guarded_of_tidy htidy⟩
    · rw [hclear]
      refine ⟨(htidy.own hlog).clear (htidy.owned (reach_of_mayClean hmay) hempty), ?_⟩
      intro _ _ hfile
      cases hfile
  · exact ⟨htidy.own hlog, guarded_of_tidy htidy⟩

/-- **The clean-up removes only what this copy made**, if no empty target was there
for it to reach; and it leaves none. -/
theorem copyOne_own {src : Option Url} (hguarded : Guarded dst options w) (h : OwnRemovals w) :
    OwnRemovals (copyOne setting src (some dst) options schedule w).2 ∧
      Guarded dst options (copyOne setting src (some dst) options schedule w).2 := by
  have hbegins : Tidy (Reach dst options w) w.cleared w := by
    refine ⟨fun hreach hempty => ?_, rfl⟩
    rcases hreach with ⟨hremote, hresume⟩ | ⟨-, hnone⟩
    · exact hguarded hremote hresume hempty
    · rw [hnone] at hempty
      cases hempty
  have hmoves : MovesPreserve setting (jobOf src (some dst) options) options.sources
      (Tidy (Reach dst options w) w.cleared) := move_tidy
  have htidy := transfer_preserves (algorithmOf options) schedule options.config.retries
    (firstTry options w) _ (fun _ hw => ⟨hw.owned, hw.record⟩) hmoves hbegins
  simp only [copyOne]
  split
  · exact ⟨h, hguarded⟩
  split
  · next heq =>
    rw [heq] at htidy
    exact cleaned_own rfl h htidy
  next heq =>
  rw [heq] at htidy
  split
  · exact cleaned_own rfl h htidy
  split <;> exact ⟨htidy.own h, guarded_of_tidy htidy⟩

end XrdClient.Copy
