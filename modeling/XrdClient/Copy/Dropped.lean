/-
  Copy/Dropped.lean --- what a copy that lost its link reports.

  A dropped link turns the resume machinery on (`Try.again`), whatever the caller asked.  Its
  preconditions are those of a resume that was asked for: a URL on both sides, one source,
  and a target no longer than the source.  An attempt that begins without them does not
  begin: `_plan` raises about a resume, and that is what the caller hears.

  A refusal is what the engine raises of itself.  The ends raise other things
  (`Schedule.Outside`), so a refusal that comes out of a copy was made there.
-/
import XrdClient.Copy.Success

set_option autoImplicit false

namespace XrdClient.Copy

open XrdClient.Lib

/-! ## Errors of the ends -/

/-- A `ValueError` or `NotImplementedError` of the engine's. -/
def Fault.isRefusal : Fault → Bool
  | .value _ | .notImplemented => true
  | .stop e => e.isRefusal
  | _ => false

/-- Not a refusal, if it raised at all. -/
def Outside {α : Type} (result : Except Fault α) : Prop :=
  ∀ e, result = .error e → e.isRefusal = false

def Sight.Outside (sight : Sight) : Prop := ∀ e, sight = .failed e → e.isRefusal = false

structure Script.Outside (script : Script) : Prop where
  source : ∀ e, script.source = some e → e.isRefusal = false
  target : ∀ e, script.target = some e → e.isRefusal = false
  sizing : Copy.Outside script.sizing
  ended : ∀ e, script.ended = some e → e.isRefusal = false

structure Round.Outside (round : Round) : Prop where
  target : round.target.Outside
  source : round.source.Outside
  answer : Copy.Outside round.answer
  pace : ∀ e, round.pace = some e → e.isRefusal = false
  bulk : round.bulk.Outside
  general : round.general.Outside

/-- What the servers, the network and the file systems raise is theirs. -/
structure Schedule.Outside (schedule : Schedule) : Prop where
  parents : ∀ e, schedule.parents = some e → e.isRefusal = false
  round : ∀ i, (schedule.round i).Outside
  sync : ∀ e, schedule.sync = some e → e.isRefusal = false
  sourceSum : Copy.Outside schedule.sourceSum
  targetSum : Copy.Outside schedule.targetSum

section Moves

variable {setting : Setting} {job : Job} {script bulkScript : Script} {w : World}

theorem Outside.ok {α : Type} (a : α) : Outside (.ok a : Except Fault α) := nofun

theorem Outside.error {α : Type} {e : Fault} (h : e.isRefusal = false) :
    Outside (.error e : Except Fault α) := by
  rintro _ ⟨⟩
  exact h

/-- What a step raises in place of a result of another type. -/
theorem Outside.cast {α β : Type} {e : Fault} (h : Outside (.error e : Except Fault α)) :
    Outside (.error e : Except Fault β) := .error (h e rfl)

theorem getD_outside {error : Option Fault} {other : Fault}
    (h : ∀ e, error = some e → e.isRefusal = false) (hother : other.isRefusal = false) :
    (error.getD other).isRefusal = false := by
  cases error with
  | none => exact hother
  | some e => exact h e rfl

theorem writer_outside (h : script.Outside) : Outside (writer job script w).1 := by
  unfold writer
  split
  · exact .ok _
  · exact .error (getD_outside h.target rfl)
  · split
    · exact .error (getD_outside h.target rfl)
    · split
      · next e he => exact .error (h.target e he)
      · exact .ok _

theorem resumer_outside (h : script.Outside) : Outside (resumer job script w).1 := by
  unfold resumer
  split
  · next e he => exact .error (h.target e he)
  · split
    · exact .error rfl
    · split
      · exact .error rfl
      · exact .ok _

theorem requireWhole_outside (moved count : Nat) (expected : Option Nat) :
    Outside (requireWhole moved count expected) := by
  unfold requireWhole
  split
  · split
    · exact .error rfl
    · exact .ok _
  · exact .ok _

theorem whole_outside (moved size : Nat) :
    Outside (if moved = size then .ok moved else .error .xrootd : Except Fault Nat) := by
  split
  · exact .ok _
  · exact .error rfl

theorem pump_outside {offset : Nat} (h : script.Outside) :
    Outside (pump setting job offset script w).1 := by
  simp only [pump]
  split
  · next e he => exact .error (h.ended e he)
  · exact requireWhole_outside _ _ _

theorem oneStream_outside {resuming : Option Nat} (h : script.Outside) :
    Outside (oneStream setting job resuming script w).1 := by
  have hopen : Outside (if resuming.isSome then resumer job script w else writer job script w).1 := by
    split
    · exact resumer_outside h
    · exact writer_outside h
  unfold oneStream
  split
  · next e he => exact .error (h.source e he)
  · split
    · exact .error rfl
    · split
      · next e w' heq =>
        rw [heq] at hopen
        exact hopen.cast
      · exact pump_outside h

theorem fanOut_outside {size width : Nat} (h : script.Outside) :
    Outside (fanOut setting size width script w).1 := by
  simp only [fanOut]
  split
  · next e he => exact .error (h.ended e he)
  · simp only
    exact requireWhole_outside _ _ _

theorem inParallel_outside {s : Spread} (h : script.Outside) :
    Outside (inParallel setting job s script w).1 := by
  have hopen : Outside (writer job script w).1 := writer_outside h
  unfold inParallel
  split
  · next e w' heq =>
    rw [heq] at hopen
    exact hopen.cast
  · exact fanOut_outside h

theorem fromReplicas_outside {sources : Nat} (h : script.Outside) :
    Outside (fromReplicas setting job sources script w).1 := by
  have hopen : Outside (writer job script w).1 := writer_outside h
  unfold fromReplicas
  split
  · next e he => exact .error (h.source e he)
  · split
    · next e w' heq =>
      rw [heq] at hopen
      exact hopen.cast
    · split
      · exact .error rfl
      · exact fanOut_outside h

theorem download_outside (h : script.Outside) : Outside (download setting job script w).1.1 := by
  unfold download
  split
  · next e he => exact .error (h.source e he)
  · split
    · next e he => exact .error (h.sizing e he)
    · simp only
      split
      · next e he => exact .error (h.ended e he)
      · exact whole_outside _ _

theorem bulkToFile_outside (h : script.Outside) : Outside (bulkToFile setting job script w).1 := by
  unfold bulkToFile
  split
  · next e he => exact .error (h.target e he)
  · split
    · next e w' heq =>
      have hexists : e = .exists := by
        unfold create at heq
        split at heq
        · cases heq
        · split at heq <;> cases heq
          rfl
      exact .error (by rw [hexists]; rfl)
    · next created w' heq =>
      have hdown : Outside (download setting job script w').1.1 := download_outside h
      split
      · exact .ok _
      · next e w'' arrived hfail =>
        rw [hfail] at hdown
        exact hdown.cast

theorem bulkToStream_outside (h : script.Outside) : Outside (bulkToStream setting script w).1 := by
  unfold bulkToStream
  split
  · next e he => exact .error (h.source e he)
  · simp only
    split
    · next e he => exact .error (h.ended e he)
    · exact whole_outside _ _

theorem bulk_outside (h : script.Outside) : Outside (bulk setting job script w).1 := by
  have hpass : Outside (if job.dst.isSome then bulkToFile setting job script w
      else bulkToStream setting script w).1 := by
    split
    · exact bulkToFile_outside h
    · exact bulkToStream_outside h
  unfold bulk
  split
  · exact .ok _
  · exact .ok _
  · next e w' hne heq =>
    rw [heq] at hpass
    exact hpass.cast

theorem move_outside {p : Plan} (hbulk : bulkScript.Outside) (h : script.Outside) :
    Outside (move setting job p bulkScript script w).1 := by
  have hgeneral : ∀ w, Outside (moveGeneral setting job p script w).1 := by
    intro w
    unfold moveGeneral
    split
    · exact fromReplicas_outside h
    · split
      · exact inParallel_outside h
      · exact oneStream_outside h
  have hpass : Outside (bulk setting job bulkScript w).1 := bulk_outside hbulk
  unfold move
  split
  · split
    · next e w' heq =>
      rw [heq] at hpass
      exact hpass.cast
    · exact .ok _
    · exact hgeneral _
  · exact hgeneral _

end Moves

/-! ## Refusals of the engine's -/

theorem probe_outside {sight : Sight} (h : sight.Outside) (size : Option Nat) :
    Outside (probe sight size) := by
  cases sight with
  | seen => exact .ok _
  | unseen => exact .ok _
  | failed e => exact .error (h e rfl)

/-- What a resume asks of a copy: a source to read again, no choice of replicas, and a target
that is not found to be longer than the source. -/
structure Continuable (job : Job) (sources : Nat) (there here : Except Fault (Option Nat)) :
    Prop where
  src : job.src ≠ none
  alone : several job sources false = .ok none
  shorter : ∀ size known, there = .ok (some size) → here = .ok (some known) → size ≤ known

section Plans

variable {job : Job} {sources : Nat} {there here : Except Fault (Option Nat)}

theorem spread_outside (hhere : Outside here) : Outside (spread job here) := by
  unfold spread
  split
  · split
    · exact .ok _
    · cases here with
      | error e => exact .error (hhere e rfl)
      | ok size => cases size <;> exact .ok _
  · exact .ok _

/-- An attempt that does not resume is not refused. -/
theorem plan_outside (hhere : Outside here) : Outside (plan job false sources there here) := by
  have hseveral : Outside (several job sources false) := by
    unfold several
    split
    · split
      · exact .ok _
      · exact .ok _
    · exact .ok _
  unfold plan
  split
  · next e he => exact .error (hseveral e he)
  · exact .ok _
  · simp only [Bool.false_eq_true, if_false]
    split
    · exact .ok _
    · split
      · exact .ok _
      · split
        · next e he => exact .error (spread_outside hhere e he)
        · exact .ok _

theorem several_resumed : several job sources true =
    match several job sources false with
    | .ok (some _) => .error .notImplemented
    | other => other := by
  unfold several
  split
  · split
    · rfl
    · rfl
  · rfl

theorem continueFrom_outside (hthere : Outside there) (hhere : Outside here)
    (hover : job.overwrite = true) (hdst : job.dst ≠ none) (hsrc : job.src ≠ none)
    (hshorter : ∀ size known, there = .ok (some size) → here = .ok (some known) → size ≤ known) :
    Outside (continueFrom job there here) := by
  have hends : ¬ (job.src.isNone || job.dst.isNone) = true := by
    simp [Option.isNone_iff_eq_none, hsrc, hdst]
  unfold continueFrom
  rw [if_neg (by simp [hover]), if_neg hends]
  split
  · next e => exact .error (hthere e rfl)
  · exact .ok _
  · exact .ok _
  · next size _ =>
    split
    · next e => exact .error (hhere e rfl)
    · next known =>
      rw [if_neg (Nat.not_lt.mpr (hshorter size known rfl rfl))]
      exact .ok _
    · exact .ok _

theorem continueFrom_refused (hover : job.overwrite = true) (hdst : job.dst ≠ none)
    (h : ¬ (job.src ≠ none ∧
      ∀ size known, there = .ok (some size) → here = .ok (some known) → size ≤ known)) :
    ∃ e, continueFrom job there here = .error e ∧ e.isRefusal = true := by
  unfold continueFrom
  rw [if_neg (by simp [hover])]
  by_cases hsrc : job.src = none
  · rw [if_pos (by simp [hsrc])]
    exact ⟨_, rfl, rfl⟩
  · rw [if_neg (by simp [Option.isNone_iff_eq_none, hsrc, hdst])]
    simp only [ne_eq, hsrc, not_false_eq_true, true_and, not_forall] at h
    obtain ⟨size, known, rfl, rfl, hlt⟩ := h
    have hpos : size ≠ 0 := by omega
    split
    · next heq => cases heq
    · next heq => cases heq
    · next heq =>
      cases heq
      exact absurd rfl hpos
    · next found _ heq =>
      obtain rfl : size = found := by simpa using heq
      simp only
      rw [if_pos (by omega)]
      exact ⟨_, rfl, rfl⟩

/-- An attempt that resumes is refused exactly when it cannot. -/
theorem plan_refused_iff (hthere : Outside there) (hhere : Outside here)
    (hover : job.overwrite = true) (hdst : job.dst ≠ none) :
    Outside (plan job true sources there here) ↔ Continuable job sources there here := by
  constructor
  · intro h
    cases halone : several job sources false with
    | error e =>
      unfold several at halone
      split at halone
      · split at halone <;> cases halone
      · cases halone
    | ok found =>
      cases found with
      | some p =>
        have hrefused : plan job true sources there here = .error .notImplemented := by
          unfold plan
          rw [several_resumed, halone]
        exact absurd (h _ hrefused) (by decide)
      | none =>
        by_cases hneeds : job.src ≠ none ∧
            ∀ size known, there = .ok (some size) → here = .ok (some known) → size ≤ known
        · exact ⟨hneeds.1, halone, hneeds.2⟩
        · obtain ⟨e, he, hrefusal⟩ := continueFrom_refused hover hdst hneeds
          have hrefused : plan job true sources there here = .error e := by
            unfold plan
            rw [several_resumed, halone]
            simp only [if_true, he]
          rw [h e hrefused] at hrefusal
          cases hrefusal
  · intro h
    have hcont := continueFrom_outside hthere hhere hover hdst h.src h.shorter
    unfold plan
    rw [several_resumed, h.alone]
    simp only [if_true]
    split
    · next e he => exact .error (hcont e he)
    · exact .ok _
    · split
      · exact .ok _
      · split
        · exact .ok _
        · split
          · next e he => exact .error (spread_outside hhere e he)
          · exact .ok _

end Plans

/-! ## Verification -/

/-- A demanded verification has something to compare. -/
def Verifiable (job : Job) (verify : Option Bool) : Prop :=
  verify ≠ some true ∨ (checkable job).isSome = true ∨ (job.src ≠ none ∧ job.dst ≠ none)

section Verifications

variable {job : Job} {ends : Bool} {algorithm : Text} {verify : Option Bool}
  {declared : Option (Text × Text)} {answer : Except Fault Text}

theorem verification_outside (h : Verifiable job verify) (hanswer : Outside answer) :
    Outside (verification job ends algorithm verify declared answer) := by
  have hends : Outside (strictEnds job ends verify) := by
    unfold strictEnds
    split
    · exact .ok _
    · next hstrict =>
      simp only [ne_eq, Bool.or_eq_true, decide_eq_true_eq, not_or, not_not] at hstrict
      rcases h with h | h | ⟨hsrc, hdst⟩
      · exact absurd hstrict.1.1 h
      · exact absurd h hstrict.1.2
      · rw [if_neg (by simp [Option.isNone_iff_eq_none, hsrc, hdst])]
        exact .ok _
  unfold verification
  split
  · next e he => exact .error (hends e he)
  · split
    · exact .ok _
    · simp only
      split
      · split
        · unfold sourceFirst
          split
          · exact .ok _
          · split
            · exact .ok _
            · next e =>
              split
              · exact .ok _
              · exact .error (hanswer e rfl)
        · exact .ok _
      · exact .ok _

theorem checked_outside {setting : Setting} {check : Check} {source target : Except Fault Text}
    {digested file : Bytes} (hsource : Outside source) (htarget : Outside target) :
    Outside (checked setting job check source target digested file) := by
  have hmatched : ∀ theirs ours, Outside (matched theirs ours) := by
    intro theirs ours
    unfold matched
    split
    · exact .ok _
    · exact .error rfl
  have hdigest : ∀ here bytes {answer : Except Fault Text}, Outside answer →
      Outside (digestOf setting check.algorithm here bytes answer) := by
    intro here bytes answer hanswer
    unfold digestOf
    split
    · next e => exact .error (hanswer e rfl)
    · exact .ok _
  have htheirs := hdigest (job.dst.any (·.isLocal)) file htarget
  have hours := hdigest (job.src.any fun u => u.scheme.isLocal || u.member.isSome) setting.content
    hsource
  unfold checked
  simp only
  split
  · split
    · next e he => exact .error (htheirs e he)
    · exact hmatched _ _
  · split
    · exact .ok _
    · split
      · split
        · exact .ok _
        · exact .error rfl
      · next e he =>
        split
        · exact .ok _
        · exact .error (hours e he)
      · next e _ he =>
        split
        · exact .ok _
        · exact .error (htheirs e he)
  · split
    · split
      · exact hmatched _ _
      · split
        · exact hmatched _ _
        · next e he =>
          split
          · exact .ok _
          · refine .error ?_
            split at he
            · exact htarget e he
            · exact hsource e he
    · exact .ok _

end Verifications

/-! ## The last attempt -/

/-- What an attempt that is not followed by another makes of the transfer. -/
def Ended.result : Ended → Except Fault (Nat × Plan × Check)
  | .returned n p check => .ok (n, p, check)
  | .raised e | .cut e => .error e

section Last

variable {setting : Setting} {job : Job} {options : Options} {algorithm : Text}
  {schedule : Schedule} {round : Round} {t : Try} {w : World} {left : Nat}

/-- A transfer ends as its last attempt does. -/
theorem transfer_eq_last (setting : Setting) (job : Job) (options : Options) (algorithm : Text)
    (schedule : Schedule) (left : Nat) (t : Try) :
    transfer setting job options algorithm schedule left t =
      ((attempt setting job options algorithm
          (schedule.round (lastTry setting job options algorithm schedule left t).attempts)
          (lastTry setting job options algorithm schedule left t)).1.result,
        (attempt setting job options algorithm
          (schedule.round (lastTry setting job options algorithm schedule left t).attempts)
          (lastTry setting job options algorithm schedule left t)).2) := by
  induction left generalizing t with
  | zero =>
    unfold transfer lastTry
    rcases hend : attempt setting job options algorithm (schedule.round t.attempts) t with ⟨ended, w⟩
    cases ended <;> simp only [hend, Ended.result]
  | succ left ih =>
    unfold transfer lastTry
    rcases hend : attempt setting job options algorithm (schedule.round t.attempts) t with ⟨ended, w⟩
    cases ended with
    | returned n p check => simp only [hend, Ended.result]
    | raised e => simp only [hend, Ended.result]
    | cut e =>
      simp only
      cases hretry : mayRetry job options (schedule.round t.attempts) e with
      | true =>
        simp only [if_true]
        exact ih (t.again job w)
      | false => simp only [Bool.false_eq_true, if_false, hend, Ended.result]

/-- How often the transfer was tried again. -/
theorem lastTry_attempts_le (setting : Setting) (job : Job) (options : Options) (algorithm : Text)
    (schedule : Schedule) (left : Nat) (t : Try) :
    (lastTry setting job options algorithm schedule left t).attempts ≤ t.attempts + left := by
  induction left generalizing t with
  | zero =>
    unfold lastTry
    rcases attempt setting job options algorithm (schedule.round t.attempts) t with ⟨ended, w⟩
    cases ended <;> exact Nat.le_refl _
  | succ left ih =>
    unfold lastTry
    rcases attempt setting job options algorithm (schedule.round t.attempts) t with ⟨ended, w⟩
    cases ended with
    | returned n p check => exact Nat.le_add_right _ _
    | raised e => exact Nat.le_add_right _ _
    | cut e =>
      simp only
      split
      · have hagain := ih (t.again job w)
        have hcount : (t.again job w).attempts = t.attempts + 1 := rfl
        omega
      · exact Nat.le_add_right _ _

/-- Attempts are counted upwards. -/
theorem attempts_le_lastTry (setting : Setting) (job : Job) (options : Options) (algorithm : Text)
    (schedule : Schedule) (left : Nat) (t : Try) :
    t.attempts ≤ (lastTry setting job options algorithm schedule left t).attempts := by
  induction left generalizing t with
  | zero =>
    unfold lastTry
    rcases attempt setting job options algorithm (schedule.round t.attempts) t with ⟨ended, w⟩
    cases ended <;> exact Nat.le_refl _
  | succ left ih =>
    unfold lastTry
    rcases attempt setting job options algorithm (schedule.round t.attempts) t with ⟨ended, w⟩
    cases ended with
    | returned n p check => exact Nat.le_refl _
    | raised e => exact Nat.le_refl _
    | cut e =>
      simp only
      split
      · exact Nat.le_trans (Nat.le_succ t.attempts) (ih (t.again job w))
      · exact Nat.le_refl _

/-- The resume that nobody asked for: of a target named by URL, which may be overwritten, and
after an attempt that was cut. -/
theorem lastTry_resumes (hresume : options.resume = false) (t : Try)
    (hlast : (lastTry setting job options algorithm schedule left t).resumeNow = true) :
    t.resumeNow = true ∨ (job.overwrite = true ∧ job.dst.any (·.writesAtOffset) = true ∧
      0 < (lastTry setting job options algorithm schedule left t).attempts) := by
  induction left generalizing t with
  | zero =>
    unfold lastTry at hlast
    rcases hend : attempt setting job options algorithm (schedule.round t.attempts) t with ⟨ended, w⟩
    rw [hend] at hlast
    cases ended <;> exact .inl hlast
  | succ left ih =>
    unfold lastTry at hlast ⊢
    rcases hend : attempt setting job options algorithm (schedule.round t.attempts) t with ⟨ended, w⟩
    rw [hend] at hlast
    cases ended with
    | returned n p check => exact .inl hlast
    | raised e => exact .inl hlast
    | cut e =>
      simp only at hlast ⊢
      cases hretry : mayRetry job options (schedule.round t.attempts) e with
      | false =>
        rw [hretry] at hlast
        exact .inl hlast
      | true =>
        rw [hretry, if_pos rfl] at hlast
        rw [if_pos rfl]
        rcases ih (t.again job w) hlast with hagain | hlater
        · refine .inr ⟨?_, hagain, ?_⟩
          · simp only [mayRetry, canRetry, hresume, Bool.or_false, Bool.and_eq_true] at hretry
            obtain ⟨⟨-, hcan⟩, -⟩ := hretry
            cases hdst : job.dst with
            | none =>
              rw [hdst] at hcan
              cases hcan
            | some dst =>
              rw [hdst] at hcan
              exact hcan
          · have hcount : (t.again job w).attempts = t.attempts + 1 := rfl
            have hle := attempts_le_lastTry setting job options algorithm schedule left
              (t.again job w)
            omega
        · exact .inr hlater

/-- An attempt whose plan and whose checking are not refused raises what its ends raised. -/
theorem attempt_outside (hround : round.Outside) (hver : Verifiable job options.verify)
    (hplan : Outside (planOf setting job options round t)) :
    Outside (attempt setting job options algorithm round t).1.result := by
  have hcheck : ∀ p : Plan, Outside (verification job p.ends algorithm options.verify
      options.declared round.answer) := fun p => verification_outside hver hround.answer
  have hmove : ∀ p : Plan, Outside (move setting job p round.bulk round.general
      t.world.undigested).1 := fun p => move_outside hround.bulk hround.general
  unfold attempt
  split
  · next e he => exact .error (hplan e he)
  · next p _ =>
    split
    · next e he => exact .error (hcheck p e he)
    · split
      · next e he => exact .error (hround.pace e he)
      · split
        · exact .ok _
        · next e w heq =>
          have hstop := hmove p (.stop e) (by rw [heq])
          exact .error hstop
        · next e w _ heq =>
          have houtside := hmove p e (by rw [heq])
          split
          · exact .error houtside
          · exact .error houtside

/-- A copy with nothing to verify against is refused before its first attempt. -/
theorem lastTry_unverifiable (setting : Setting) (algorithm : Text) (schedule : Schedule) (left : Nat)
    (hver : ¬ Verifiable job options.verify) (hresume : t.resumeNow = false) :
    lastTry setting job options algorithm schedule left t = t ∧
      attempt setting job options algorithm (schedule.round t.attempts) t =
        (.raised (.value .unverifiable), t.world) := by
  simp only [Verifiable, not_or, not_not, not_and, Bool.not_eq_true, Option.isSome_eq_false_iff,
    Option.isNone_iff_eq_none] at hver
  obtain ⟨hverify, hcheckable, hends⟩ := hver
  have hsome : ∀ src dst, job.src = some src → job.dst = some dst → False := by
    intro src dst hsrc hdst
    have := hends (by simp [hsrc])
    simp [hdst] at this
  have hopen : job.src = none ∨ job.dst = none := by
    cases hsrc : job.src with
    | none => exact .inl rfl
    | some src =>
      cases hdst : job.dst with
      | none => exact .inr rfl
      | some dst => exact (hsome src dst hsrc hdst).elim
  have hseveral : several job options.sources false = .ok none := by
    unfold several
    split
    · next src dst hsrc hdst => exact (hsome src dst hsrc hdst).elim
    · rfl
  have hspread : ∀ here, spread job here = .ok none := by
    intro here
    unfold spread
    split
    · next src dst hsrc hdst => exact (hsome src dst hsrc hdst).elim
    · rfl
  have hbulk : bulkUsable job = false := by
    cases hb : bulkUsable job with
    | false => rfl
    | true =>
      -- the bulk plane reads a server, which could be asked
      unfold bulkUsable at hb
      unfold checkable at hcheckable
      split at hcheckable
      · cases hcheckable
      · split at hcheckable
        · cases hcheckable
        · next hsrc =>
          cases hj : job.src with
          | none => simp [hj] at hb
          | some src =>
            simp only [hj, Bool.and_eq_true] at hb
            simp only [hj, Option.any_some, Bool.and_eq_true, Bool.not_eq_true', not_and,
              Bool.not_eq_true] at hsrc
            have hroot : src.scheme = .root := by simpa [Scheme.isRoot] using hb.1.2.1
            have hlocal : src.scheme.isLocal = false := by rw [hroot]; rfl
            have hmember : src.member.isNone = true := hb.1.2.2
            rw [hsrc hlocal] at hmember
            cases hmember
  have hplan : planOf setting job options (schedule.round t.attempts) t = .ok {} := by
    unfold planOf plan
    rw [hresume, hseveral]
    simp only [Bool.false_eq_true, if_false, hbulk, hspread]
    split <;> rfl
  have hcheck : ∀ answer, verification job false algorithm options.verify options.declared answer =
      .error (.value .unverifiable) := by
    intro answer
    have hstrict : strictEnds job false options.verify = .error (.value .unverifiable) := by
      unfold strictEnds
      rw [if_neg (by simp [hverify, hcheckable])]
      rw [if_pos (by simpa [Option.isNone_iff_eq_none] using hopen)]
    unfold verification
    rw [hstrict]
  have hattempt : attempt setting job options algorithm (schedule.round t.attempts) t =
      (.raised (.value .unverifiable), t.world) := by
    unfold attempt
    rw [hplan]
    simp only [hcheck]
  refine ⟨?_, hattempt⟩
  unfold lastTry
  rw [hattempt]

end Last

/-! ## One copy -/

/-- One concrete copy that was made: what it was asked, how things went, and the state in
which its last attempt began. -/
structure Made where
  job : Job
  options : Options
  schedule : Schedule
  last : Try

/-- The copy `_copy_one` makes. -/
def made (setting : Setting) (src : Option Url) (dst : Option Scheme) (options : Options)
    (schedule : Schedule) (w : World) : Made :=
  { job := jobOf src dst options
    options, schedule
    last := lastTry setting (jobOf src dst options) options (algorithmOf options) schedule
      options.config.retries (firstTry options w) }

/-- The last attempt, if it resumes, can. -/
def Made.Continuable (setting : Setting) (c : Made) : Prop :=
  c.last.resumeNow = true →
    Copy.Continuable c.job c.options.sources
      (probe (c.schedule.round c.last.attempts).target (c.last.world.file.map List.length))
      (probe (c.schedule.round c.last.attempts).source (some setting.content.length))

/-- What comes out is a result, or an error of the ends; or the last copy was refused at its
first attempt, with nothing to verify it against. -/
def Reports (result : Except Fault Nat) (copies : List Made) : Prop :=
  ∀ e, result = .error e → e.isRefusal = true →
    e = .value .unverifiable ∧ ∀ c, copies.getLast? = some c → c.last.attempts = 0

section One

variable {setting : Setting} {src : Option Url} {dst : Option Scheme} {options : Options}
  {schedule : Schedule} {w : World}

/-- What `_copy_one` makes of a transfer. -/
theorem copyOne_outside {r : Except Fault (Nat × Plan × Check)} {w' : World}
    (hout : schedule.Outside)
    (htransfer : transfer setting (jobOf src dst options) options (algorithmOf options) schedule
      options.config.retries (firstTry options w) = (r, w'))
    (hr : Outside r) : Outside (copyOne setting src dst options schedule w).1 := by
  have hsync : ∀ expected, Outside (syncLocalTarget (jobOf src dst options) schedule expected w') := by
    intro expected
    unfold syncLocalTarget
    split
    · split
      · next e he => exact .error (hout.sync e he)
      · split
        · exact .ok _
        · exact .error rfl
    · exact .ok _
  simp only [copyOne]
  split
  · next e he =>
    refine .error ?_
    split at he
    · exact hout.parents e he
    · cases he
  · rw [htransfer]
    cases r with
    | error e => exact .error (hr e rfl)
    | ok result =>
      obtain ⟨size, p, check⟩ := result
      simp only
      split
      · next e he => exact .error (hsync _ e he)
      · split
        · next e he =>
          exact .error (checked_outside hout.sourceSum hout.targetSum e he)
        · exact .ok _

/-- A copy whose transfer is refused is refused, unless its target's parent could not be made. -/
theorem copyOne_refused {e : Fault} {w' : World} (hhttp : dst.any (·.isHttp) = false)
    (htransfer : transfer setting (jobOf src dst options) options (algorithmOf options) schedule
      options.config.retries (firstTry options w) = (.error e, w')) :
    (copyOne setting src dst options schedule w).1 = .error e := by
  simp only [copyOne, hhttp, Bool.false_eq_true, if_false, htransfer]

theorem made_attempts : (made setting src dst options schedule w).last.attempts ≤
    options.config.retries := by
  have hle := lastTry_attempts_le setting (jobOf src dst options) options (algorithmOf options)
    schedule options.config.retries (firstTry options w)
  have hzero : (firstTry options w).attempts = 0 := rfl
  rw [hzero, Nat.zero_add] at hle
  exact hle

theorem copyOne_reports_iff (hresume : options.resume = false) (hout : schedule.Outside) :
    Reports (copyOne setting src dst options schedule w).1
        [made setting src dst options schedule w] ↔
      (made setting src dst options schedule w).Continuable setting := by
  have hfirst : (firstTry options w).resumeNow = false := hresume
  have htransfer := transfer_eq_last setting (jobOf src dst options) options (algorithmOf options)
    schedule options.config.retries (firstTry options w)
  by_cases hver : Verifiable (jobOf src dst options) options.verify
  · -- the last attempt decides, and its plan decides that
    have hround := hout.round (made setting src dst options schedule w).last.attempts
    have hthere := probe_outside hround.target
      ((made setting src dst options schedule w).last.world.file.map List.length)
    have hhere := probe_outside hround.source (some setting.content.length)
    constructor
    · intro h hlast
      rcases lastTry_resumes hresume (firstTry options w) hlast with hno | ⟨hover, hoffset, htried⟩
      · rw [hfirst] at hno
        cases hno
      have hdst : (jobOf src dst options).dst ≠ none := by
        intro hnone
        rw [hnone] at hoffset
        cases hoffset
      refine (plan_refused_iff hthere hhere hover hdst).mp ?_
      intro e he
      cases hrefusal : e.isRefusal with
      | false => rfl
      | true =>
        have hplan : planOf setting (jobOf src dst options) options
            (schedule.round (made setting src dst options schedule w).last.attempts)
            (made setting src dst options schedule w).last = .error e := by
          unfold planOf
          rw [hlast]
          exact he
        have hattempt : attempt setting (jobOf src dst options) options (algorithmOf options)
            (schedule.round (made setting src dst options schedule w).last.attempts)
            (made setting src dst options schedule w).last =
              (.raised e, (made setting src dst options schedule w).last.world) := by
          unfold attempt
          rw [hplan]
        have hhttp : dst.any (·.isHttp) = false := by
          have hboth : (jobOf src dst options).dst = dst := rfl
          rw [hboth] at hoffset
          cases dst with
          | none => rfl
          | some d => cases d <;> first | rfl | cases hoffset
        simp only [made] at hattempt
        rw [hattempt] at htransfer
        obtain ⟨-, hnever⟩ := h e (copyOne_refused hhttp htransfer) hrefusal
        have hzero : (made setting src dst options schedule w).last.attempts = 0 := hnever _ rfl
        simp only [made] at hzero
        omega
    · intro hcont e he hrefusal
      have hplan : Outside (planOf setting (jobOf src dst options) options
          (schedule.round (made setting src dst options schedule w).last.attempts)
          (made setting src dst options schedule w).last) := by
        unfold planOf
        cases hlast : (made setting src dst options schedule w).last.resumeNow with
        | false => exact plan_outside hhere
        | true =>
          rcases lastTry_resumes hresume (firstTry options w) hlast with hno | ⟨hover, hoffset, -⟩
          · rw [hfirst] at hno
            cases hno
          have hdst : (jobOf src dst options).dst ≠ none := by
            intro hnone
            rw [hnone] at hoffset
            cases hoffset
          exact (plan_refused_iff hthere hhere hover hdst).mpr (hcont hlast)
      have houtside := copyOne_outside hout htransfer (attempt_outside hround hver hplan) e he
      rw [houtside] at hrefusal
      cases hrefusal
  · -- nothing to verify against: refused at once, and not about a resume
    obtain ⟨hlast, hattempt⟩ := lastTry_unverifiable setting (algorithmOf options) schedule
      options.config.retries hver hfirst
    rw [hlast, hattempt] at htransfer
    refine iff_of_true ?_ ?_
    · intro e he hrefusal
      refine ⟨?_, ?_⟩
      · simp only [copyOne] at he
        split at he
        · next e' hparents =>
          cases he
          split at hparents
          · rw [hout.parents e hparents] at hrefusal
            cases hrefusal
          · cases hparents
        · rw [htransfer] at he
          cases he
          rfl
      · intro c hc
        obtain rfl : made setting src dst options schedule w = c := Option.some.inj hc
        simp only [made, hlast]
        rfl
    · intro hresumes
      simp only [made, hlast, hfirst] at hresumes
      cases hresumes

end One

/-! ## Any copy -/

/-- The copies made over the replicas of a catalogue, in turn. -/
def replicaCopies (setting : Setting) (member : Option Text) (dst : Option Scheme)
    (options : Options) (schedules : Nat → Schedule) : Nat → List Url → World → List Made
  | _, [], _ => []
  | index, replica :: replicas, w =>
    made setting (some (metalinkEndpoint replica member)) dst (attemptOptions options index)
        (schedules index) w ::
      match copyOne setting (some (metalinkEndpoint replica member)) dst
          (attemptOptions options index) (schedules index) w with
      | (.ok _, _) => []
      | (.error e, w') =>
        if e.isReported then
          replicaCopies setting member dst options schedules (index + 1) replicas w'
        else []

/-- The concrete copies a `copy` makes. -/
def copiesMade (setting : Setting) (source : Source) (dst : Option Scheme) (options : Options)
    (schedules : Nat → Schedule) (w : World) : List Made :=
  match source with
  | .stream => [made setting none dst options (schedules 0) w]
  | .url url => [made setting (some url) dst options (schedules 0) w]
  | .metalink _ _ _ (some _) => []
  | .metalink replicas member declared none =>
    replicaCopies setting member dst (replicaOptions options declared) schedules 0 replicas w

/-- Reading a catalogue raises what its server does. -/
def Source.Outside : Source → Prop
  | .metalink _ _ _ (some e) => e.isRefusal = false
  | _ => True

theorem isRefusal_of_isReported {e : Fault} (h : e.isReported = true) : e.isRefusal = false := by
  cases e <;> first | rfl | cases h

section Any

variable {setting : Setting} {dst : Option Scheme} {schedules : Nat → Schedule}

theorem replicas_report_iff {member : Option Text} {options : Options}
    (hresume : options.resume = false) (hout : ∀ i, (schedules i).Outside) (index : Nat)
    (replicas : List Url) (w : World) :
    Reports (copyMetalinkReplicas setting member dst options schedules index replicas w).1
        (replicaCopies setting member dst options schedules index replicas w) ↔
      ∀ c ∈ replicaCopies setting member dst options schedules index replicas w,
        c.Continuable setting := by
  induction replicas generalizing index w with
  | nil =>
    have hnone : replicaCopies setting member dst options schedules index [] w = [] := by
      rw [replicaCopies]
    rw [hnone]
    refine iff_of_true ?_ fun c hc => absurd hc List.not_mem_nil
    intro e he hrefusal
    rw [copyMetalinkReplicas] at he
    cases he
    cases hrefusal
  | cons replica replicas ih =>
    have hone : Reports (copyOne setting (some (metalinkEndpoint replica member)) dst
          (attemptOptions options index) (schedules index) w).1
          [made setting (some (metalinkEndpoint replica member)) dst (attemptOptions options index)
            (schedules index) w] ↔
        (made setting (some (metalinkEndpoint replica member)) dst (attemptOptions options index)
          (schedules index) w).Continuable setting := copyOne_reports_iff hresume (hout index)
    rw [copyMetalinkReplicas, replicaCopies]
    rcases hcopy : copyOne setting (some (metalinkEndpoint replica member)) dst
        (attemptOptions options index) (schedules index) w with ⟨result, w'⟩
    rw [hcopy] at hone
    cases result with
    | ok n =>
      simp only [List.forall_mem_singleton]
      exact hone
    | error e =>
      simp only
      cases hreported : e.isReported with
      | false =>
        simp only [Bool.false_eq_true, if_false, List.forall_mem_singleton]
        exact hone
      | true =>
        simp only [if_true, List.forall_mem_cons]
        -- a replica that was given up raised what its ends did, so its last attempt was made
        have hthis : (made setting (some (metalinkEndpoint replica member)) dst
            (attemptOptions options index) (schedules index) w).Continuable setting := by
          refine hone.mp ?_
          rintro _ ⟨⟩ hrefusal
          rw [isRefusal_of_isReported hreported] at hrefusal
          cases hrefusal
        rw [and_iff_right hthis, ← ih (index + 1) w']
        refine forall_congr' fun e' => imp_congr_right fun he' => imp_congr_right fun hrefusal => ?_
        cases replicas with
        | nil =>
          rw [copyMetalinkReplicas] at he'
          cases he'
          cases hrefusal
        | cons next replicas =>
          rw [replicaCopies, List.getLast?_cons_cons]

theorem replicaCopies_attempts {member : Option Text} {options : Options} (index : Nat)
    (replicas : List Url) (w : World) :
    ∀ c ∈ replicaCopies setting member dst options schedules index replicas w,
      c.last.attempts ≤ options.config.retries := by
  induction replicas generalizing index w with
  | nil =>
    intro c hc
    rw [replicaCopies] at hc
    cases hc
  | cons replica replicas ih =>
    intro c hc
    rw [replicaCopies] at hc
    rcases List.mem_cons.mp hc with rfl | hc
    · exact made_attempts
    · split at hc
      · cases hc
      · split at hc
        · exact ih _ _ c hc
        · cases hc

end Any

/-- A copy is tried at most once more than there are retries, if these are not less than none. -/
theorem Made.tried_iff {c : Made} {config : Config} (h : c.last.attempts ≤ config.retries) :
    (c.last.attempts : Int) + 1 ≤ 1 + config.connectRetries ↔ 0 ≤ config.connectRetries := by
  unfold Config.retries at h
  omega

theorem copiesMade_attempts (setting : Setting) (source : Source) (dst : Option Scheme)
    (options : Options) (schedules : Nat → Schedule) (w : World) :
    ∀ c ∈ copiesMade setting source dst options schedules w, c.last.attempts ≤ options.config.retries := by
  intro c hc
  cases source with
  | stream => exact List.mem_singleton.mp hc ▸ made_attempts
  | url url => exact List.mem_singleton.mp hc ▸ made_attempts
  | metalink replicas member declared unread =>
    cases unread with
    | some e => cases hc
    | none =>
      have hle : c.last.attempts ≤ (replicaOptions options declared).config.retries :=
        replicaCopies_attempts 0 replicas w c hc
      exact hle

theorem copy_reports_iff (setting : Setting) (source : Source) (dst : Option Scheme)
    (options : Options) (schedules : Nat → Schedule) (w : World) (hresume : options.resume = false)
    (hsource : source.Outside) (hout : ∀ i, (schedules i).Outside) :
    Reports (copy setting source dst options schedules w).1
        (copiesMade setting source dst options schedules w) ↔
      ∀ c ∈ copiesMade setting source dst options schedules w, c.Continuable setting := by
  cases source with
  | stream =>
    simp only [copy, copiesMade, List.forall_mem_singleton]
    exact copyOne_reports_iff hresume (hout 0)
  | url url =>
    simp only [copy, copiesMade, List.forall_mem_singleton]
    exact copyOne_reports_iff hresume (hout 0)
  | metalink replicas member declared unread =>
    cases unread with
    | some e =>
      simp only [copy, copiesMade]
      refine iff_of_true ?_ fun c hc => absurd hc List.not_mem_nil
      intro e' he' hrefusal
      cases he'
      rw [show e.isRefusal = false from hsource] at hrefusal
      cases hrefusal
    | none =>
      have hno : (replicaOptions options declared).resume = false := hresume
      exact replicas_report_iff hno hout 0 replicas w

/-- **A copy that lost its link.**  It is reported as what one of its ends raised, and each
concrete copy is tried at most once more than there are retries, exactly when for every concrete
copy these are not less than none, and its last attempt, if a drop made it resume, was one that
can be resumed. -/
theorem drops_reported_iff (setting : Setting) (source : Source) (dst : Option Scheme)
    (options : Options) (schedules : Nat → Schedule) (w : World) (hresume : options.resume = false)
    (hsource : source.Outside) (hout : ∀ i, (schedules i).Outside) :
    (Reports (copy setting source dst options schedules w).1
          (copiesMade setting source dst options schedules w) ∧
        ∀ c ∈ copiesMade setting source dst options schedules w,
          (c.last.attempts : Int) + 1 ≤ 1 + options.config.connectRetries) ↔
      ∀ c ∈ copiesMade setting source dst options schedules w,
        0 ≤ options.config.connectRetries ∧ c.Continuable setting := by
  have hattempts := copiesMade_attempts setting source dst options schedules w
  rw [copy_reports_iff setting source dst options schedules w hresume hsource hout]
  constructor
  · rintro ⟨hcontinuable, htried⟩ c hc
    exact ⟨(Made.tried_iff (hattempts c hc)).mp (htried c hc), hcontinuable c hc⟩
  · intro h
    exact ⟨fun c hc => (h c hc).2, fun c hc => (Made.tried_iff (hattempts c hc)).mpr (h c hc).1⟩

theorem cutStream_outside : cutStream.Outside := by
  refine ⟨nofun, fun i => ?_, nofun, nofun, nofun⟩
  refine ⟨nofun, nofun, nofun, nofun, ⟨nofun, nofun, nofun, nofun⟩, ?_⟩
  simp only [cutStream]
  split
  · refine ⟨nofun, nofun, nofun, ?_⟩
    intro e he
    cases he
    rfl
  · exact ⟨nofun, nofun, nofun, nofun⟩

/-- A local file on its way to a server survives the drop. -/
theorem drops_reported_iff_continued :
    (Reports (copy threeBytes (.url { scheme := .file }) (some .root) unverified (fun _ => cutStream) {}).1
          (copiesMade threeBytes (.url { scheme := .file }) (some .root) unverified (fun _ => cutStream) {}) ∧
        ∀ c ∈ copiesMade threeBytes (.url { scheme := .file }) (some .root) unverified
            (fun _ => cutStream) {},
          (c.last.attempts : Int) + 1 ≤ 1 + unverified.config.connectRetries) ∧
      (copy threeBytes (.url { scheme := .file }) (some .root) unverified (fun _ => cutStream) {}).1 =
        .ok 1 := by
  refine ⟨(drops_reported_iff threeBytes (.url { scheme := .file }) (some .root) unverified
    (fun _ => cutStream) {} rfl trivial fun _ => cutStream_outside).mpr ?_, rfl⟩
  intro c hc
  obtain rfl := List.mem_singleton.mp hc
  refine ⟨by decide, fun _ => ⟨by decide, rfl, ?_⟩⟩
  rintro size known hsize hknown
  have hsize' : some 2 = some size := Except.ok.inj hsize
  have hknown' : some 3 = some known := Except.ok.inj hknown
  simp only [Option.some.injEq] at hsize' hknown'
  omega

/-- The same drop under an open stream is reported as a resume that a stream cannot make. -/
theorem dropped_stream_refused :
    ¬ Reports (copy threeBytes .stream (some .root) unverified (fun _ => cutStream)
        { rest := [1, 2, 3] }).1
      (copiesMade threeBytes .stream (some .root) unverified (fun _ => cutStream)
        { rest := [1, 2, 3] }) := by
  intro h
  obtain ⟨hwhy, -⟩ := h (.value .stream) rfl rfl
  cases hwhy

end XrdClient.Copy
