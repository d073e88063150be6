/-
  Copy/Success.lean --- when a copy that returns has copied its source.

  A retry of a dropped transfer resumes a target that can be written at an
  offset, and takes the target's length for how much of the source is there.
  What an attempt leaves behind is not always a prefix of the source: a download
  sizes its file before a byte is in it, spans are filled in any order, and an
  attempt that is cut before it opens the target leaves whatever was there.

  `copied_iff` is the exact condition.  It is on the state in which the attempt
  that returned began: if that attempt resumed, it found a prefix of the source.
-/
import XrdClient.Copy.Landed

set_option autoImplicit false

namespace XrdClient.Copy

open XrdClient.Lib

variable {setting : Setting} {job : Job} {options : Options} {algorithm : Text}
  {schedule : Schedule} {round : Round} {t : Try} {w w' : World} {n left : Nat} {p : Plan}
  {check : Check}

/-! ## The attempt that returned -/

/-- An attempt that returns had a plan, and the plan's move returned. -/
theorem attempt_returned
    (h : attempt setting job options algorithm round t = (.returned n p check, w')) :
    planOf setting job options round t = .ok p ∧
      move setting job p round.bulk round.general t.world.undigested = (.ok n, w') := by
  unfold attempt at h
  split at h
  · cases h
  next hplan =>
  split at h
  · cases h
  split at h
  · cases h
  split at h
  · next hmove =>
    cases h
    exact ⟨hplan, hmove⟩
  · cases h
  · split at h <;> cases h

/-- **The loop ends in the attempt that returned.** -/
theorem transfer_ok
    (h : transfer setting job options algorithm schedule left t = (.ok (n, p, check), w')) :
    attempt setting job options algorithm
        (schedule.round (lastTry setting job options algorithm schedule left t).attempts)
        (lastTry setting job options algorithm schedule left t) = (.returned n p check, w') := by
  -- the loop and `lastTry` split alike, so the induction is on the retries left
  induction left generalizing t with
  | zero =>
    unfold transfer at h
    unfold lastTry
    split at h
    · next hreturned =>
      cases h
      simp only [hreturned]
    · cases h
    · cases h
  | succ left ih =>
    unfold transfer at h
    unfold lastTry
    split at h
    · next hreturned =>
      cases h
      simp only [hreturned]
    · cases h
    · next e w₁ hcut =>
      simp only at h
      split at h
      · next hretry =>
        simp only [hretry, if_true]
        exact ih h
      · cases h

/-! ## The condition -/

/-- The attempt that begins in this state, if it resumes, finds a prefix of the
source at the target. -/
def Continues (setting : Setting) (schedule : Schedule) (t : Try) : Prop :=
  t.resumeNow = true → (schedule.round t.attempts).target = .seen →
    ∀ file, t.world.file = some file → file <+: setting.content

/-- What was there and the rest of the source are the source just when what was
there is a prefix of it. -/
theorem append_drop_eq_iff {α : Type} (file source : List α) :
    file ++ source.drop file.length = source ↔ file <+: source := by
  constructor
  · intro h
    exact ⟨_, h⟩
  · rintro ⟨rest, rfl⟩
    simp

theorem probe_some {sight : Sight} {size : Option Nat} {k : Nat}
    (h : probe sight size = .ok (some k)) : sight = .seen ∧ size = some k := by
  cases sight with
  | seen => exact ⟨rfl, Except.ok.inj h⟩
  | unseen => cases h
  | failed e => cases h

/-- An attempt from a state that does not resume a file there starts afresh. -/
theorem Planned.resumes {there here : Except Fault (Option Nat)} {resume : Bool} {sources k : Nat}
    (h : Planned job resume sources there here p) (hresume : resume = true)
    (hthere : there = .ok (some k)) (hk : 0 < k) : p.resuming = some k := by
  have hnot : ¬ (there = .ok none ∨ there = .ok (some 0)) := by
    rw [hthere]
    simp only [Except.ok.injEq, reduceCtorEq, Option.some.injEq, false_or]
    omega
  cases h with
  | several _ _ _ _ _ hno => simp [hresume] at hno
  | resumed _ _ _ _ hsame _ =>
    rw [hthere] at hsame
    simpa using hsame.symm
  | oneStream hfresh => exact absurd (hfresh hresume) hnot
  | bulk hfresh _ => exact absurd (hfresh hresume) hnot
  | spans hfresh _ _ _ _ _ => exact absurd (hfresh hresume) hnot

/-- The last attempt of a copy that returned. -/
theorem copyOne_ok {src : Option Url} {dst : Option Scheme}
    (h : copyOne setting src dst options schedule w = (.ok n, w')) :
    ∃ p check,
      transfer setting (jobOf src dst options) options (algorithmOf options) schedule
          options.config.retries (firstTry options w) = (.ok (n, p, check), w') ∧
        syncLocalTarget (jobOf src dst options) schedule (p.offset + n) w' = .ok () := by
  simp only [copyOne] at h
  split at h
  · cases h
  split at h
  · cases h
  next htransfer =>
  split at h
  · cases h
  next hsync =>
  split at h
  · cases h
  · cases h
    exact ⟨_, _, htransfer, hsync⟩

theorem syncLocalTarget_ok {dst : Scheme} {expected : Nat} {u : Unit} (hdst : job.dst = some dst)
    (hlocal : dst.isLocal = true) (h : syncLocalTarget job schedule expected w = .ok u) :
    w.file.map List.length = some expected := by
  simp only [syncLocalTarget, hdst, Option.any_some, hlocal, if_true] at h
  split at h
  · cases h
  · split at h
    · assumption
    · cases h

/-- **When a copy that returned has copied its source.**  It has, exactly when the
attempt that returned did not resume over bytes that are no prefix of it. -/
theorem copied_iff {src : Url} {dst : Scheme}
    (h : copyOne setting (some src) (some dst) options schedule w = (.ok n, w')) :
    w'.file = some setting.content ↔
      Continues setting schedule
        (lastTry setting (jobOf (some src) (some dst) options) options (algorithmOf options)
          schedule options.config.retries (firstTry options w)) := by
  obtain ⟨p, check, htransfer, hsync⟩ := copyOne_ok h
  obtain ⟨hplan, hmove⟩ := attempt_returned (transfer_ok htransfer)
  replace hplan := planned_of_plan hplan
  generalize lastTry setting (jobOf (some src) (some dst) options) options (algorithmOf options)
    schedule options.config.retries (firstTry options w) = t at *
  have hsrc : (jobOf (some src) (some dst) options).src ≠ none := by simp [jobOf]
  cases hresuming : p.resuming with
  | none =>
    obtain ⟨hn, file, hfile, hcontent⟩ := move_arrived hsrc rfl hplan hresuming
      (fun size hsize => (Option.some.inj (probe_some hsize).2).symm) hmove
    have hwhole : w'.file = some setting.content := by
      rcases hcontent with rfl | ⟨hlocal, hagree⟩
      · exact hfile
      · have hlength := syncLocalTarget_ok rfl hlocal hsync
        simp only [hfile, Option.map_some, Option.some.injEq, Plan.offset, hresuming,
          Option.getD_none] at hlength
        rw [hfile, eq_of_agree (by omega) hagree]
    refine iff_of_true hwhole ?_
    intro hresume hseen file hfile
    cases file with
    | nil => exact List.nil_prefix
    | cons b bs =>
      -- bytes at the target would have been resumed
      have := hplan.resumes hresume (by rw [hseen, hfile]; rfl) (Nat.succ_pos bs.length)
      rw [hresuming] at this
      cases this
  | some offset =>
    have hthere : t.resumeNow = true ∧
        probe (schedule.round t.attempts).target (t.world.file.map List.length)
          = .ok (some offset) := by
      cases hplan with
      | resumed hresume _ _ _ hthere _ =>
        cases hresuming
        exact ⟨hresume, hthere⟩
      | _ => cases hresuming
    obtain ⟨hresume, hprobe⟩ := hthere
    obtain ⟨hseen, hsize⟩ := probe_some hprobe
    obtain ⟨file, hfile, rfl⟩ := Option.map_eq_some_iff.mp hsize
    have hthere : t.world.undigested.file = some file := hfile
    have hleft := move_resumed hsrc hplan hresuming hthere hmove
    rw [hleft, Option.some.injEq, append_drop_eq_iff]
    constructor
    · intro hbegins _ _ found hfound
      rw [hfile] at hfound
      cases hfound
      exact hbegins
    · intro hcontinues
      exact hcontinues hresume hseen file hfile

/-! ## Two runs -/

/-- Three bytes, and a checksum library that the runs below do not consult. -/
def threeBytes : Setting := { content := [1, 2, 3], hash := fun _ _ => [] }

/-- No verification asked for. -/
def unverified : Options := { verify := some false }

/-- A bulk download is cut when one byte has landed in its sized file.  The retry
resumes at the length of the file and has nothing to move. -/
def cutDownload : Schedule :=
  { round := fun k =>
      if k = 0 then { bulk := { pieces := [.landed 0 1], ended := some .dropped } } else {} }

/-- The copy returns, and the target is one byte of the source and two of nothing. -/
theorem cut_download_reported_whole :
    (∃ n w', copyOne threeBytes (some { scheme := .root }) (some .file) unverified cutDownload {}
        = (.ok n, w') ∧ w'.file ≠ some threeBytes.content) ∧
      (copyOne threeBytes (some { scheme := .root }) (some .file) unverified cutDownload {}).2.file
        = some [1, 0, 0] := by
  refine ⟨⟨0, { file := some [1, 0, 0], made := true }, rfl, by decide⟩, rfl⟩

/-- One stream, cut after two bytes, and continued. -/
def cutStream : Schedule :=
  { round := fun k =>
      { general :=
          if k = 0 then { pieces := [.landed 0 2], ended := some .dropped }
          else { pieces := [.landed 0 9] } } }

/-- A stream leaves a prefix, so its retry brings the rest. -/
theorem cut_stream_continued :
    ∃ w', copyOne threeBytes (some { scheme := .file }) (some .root) unverified cutStream {}
        = (.ok 1, w') ∧
      (w'.file = some threeBytes.content ↔
        Continues threeBytes cutStream
          (lastTry threeBytes (jobOf (some { scheme := .file }) (some .root) unverified) unverified
            (algorithmOf unverified) cutStream unverified.config.retries
            (firstTry unverified {}))) ∧
      w'.file = some threeBytes.content :=
  ⟨{ file := some [1, 2, 3], digested := [3], made := true }, rfl, copied_iff rfl, rfl⟩

end XrdClient.Copy
