/-
  Copy/Targets.lean --- which targets a copy may destroy.

  Two slips, and nothing else.  The clean-up of a failed copy asks after the
  failure whether the target is empty, and removes one on a server that was there
  and empty before.  The failover of a catalogue takes the refusal of an
  exclusive create for a replica that failed, and every later attempt overwrites.

  `targets_kept_iff` says so: a copy keeps its promises for every schedule exactly
  when it is neither `Exposed` nor one that `Clobbers`.
-/
import XrdClient.Copy.ThirdParty
import XrdClient.Copy.Success

set_option autoImplicit false

namespace XrdClient.Copy

open XrdClient.Lib

variable {setting : Setting} {job : Job} {options : Options} {schedule : Schedule}
  {script : Script} {w : World} {dst : Scheme} {file : Bytes} {src : Url} {t : Try}

/-! ## Replica by replica -/

theorem scheme_metalinkEndpoint (replica : Url) (member : Option Text) :
    (metalinkEndpoint replica member).scheme = replica.scheme := by
  cases member <;> rfl

/-- **What every attempt preserves, a failover preserves.** -/
theorem copyMetalinkReplicas_preserves (setting : Setting) (options : Options)
    (I : World → Prop) (member : Option Text) (schedules : Nat → Schedule)
    (target : Option Scheme) (replicas : List Url) (index : Nat)
    (hone : ∀ replica ∈ replicas, ∀ i, index ≤ i → ∀ w, I w →
      I (copyOne setting (some (metalinkEndpoint replica member)) target (attemptOptions options i)
        (schedules i) w).2) (w : World) (h : I w) :
    I (copyMetalinkReplicas setting member target options schedules index replicas w).2 := by
  induction replicas generalizing index w with
  | nil => exact h
  | cons replica replicas ih =>
    have hfirst := hone replica (by simp) index (Nat.le_refl _) w h
    unfold copyMetalinkReplicas
    split
    · next heq =>
      rw [heq] at hfirst
      exact hfirst
    · next heq =>
      rw [heq] at hfirst
      split
      · refine ih (index + 1) ?_ _ hfirst
        intro r hr i hi
        exact hone r (by simp [hr]) i (by omega)
      · exact hfirst

/-- Resuming and exclusive contradict each other, and no failover follows. -/
theorem copyOne_contradiction (setting : Setting) (source : Option Url) (options : Options)
    (schedule : Schedule) (w : World) (hresume : options.resume = true)
    (hover : options.overwrite = false) (hhttp : dst ≠ .http) :
    ∃ e, e.isReported = false ∧
      copyOne setting source (some dst) options schedule w = (.error e, w) := by
  have hplan : ∃ e, e.isReported = false ∧
      planOf setting (jobOf source (some dst) options) options (schedule.round 0)
        (firstTry options w) = .error e := by
    simp only [planOf, plan, firstTry, hresume, if_true]
    split
    · next e heq =>
      refine ⟨e, ?_, rfl⟩
      unfold several at heq
      split at heq
      · split at heq
        · cases heq
        · simp only [if_true] at heq
          cases heq
          rfl
      · cases heq
    · next heq =>
      exfalso
      unfold several at heq
      split at heq
      · split at heq <;> cases heq
      · cases heq
    · simp only [continueFrom, jobOf, hover]
      exact ⟨_, rfl, rfl⟩
  obtain ⟨e, hreported, hplan⟩ := hplan
  refine ⟨e, hreported, ?_⟩
  have hattempt : attempt setting (jobOf source (some dst) options) options (algorithmOf options)
      (schedule.round 0) (firstTry options w) = (.raised e, w) := by
    simp only [attempt, hplan]
    rfl
  have htransfer : transfer setting (jobOf source (some dst) options) options (algorithmOf options)
      schedule options.config.retries (firstTry options w) = (.error e, w) := by
    unfold transfer
    rw [show (firstTry options w).attempts = 0 from rfl, hattempt]
  have hnohttp : (some dst).any (·.isHttp) = false := by
    simpa [Scheme.isHttp] using hhttp
  simp only [copyOne, hnohttp, htransfer, cleanedOnFailure, hresume]
  rfl

/-! ## Schedules that show the slips -/

/-- Both ends are refused. -/
def refusal (e : Fault) : Script := { source := some e, target := some e }

/-- Every attempt is refused. -/
def refusing (e : Fault) : Round := { bulk := refusal e, general := refusal e }

theorem writer_refusal (e : Fault) (hdst : job.dst = some dst) :
    writer job (refusal e) w = (.error e, w) := by
  unfold writer
  rw [hdst]
  cases dst with
  | other => rfl
  | _ =>
    simp only
    split <;> rfl

theorem move_refusal {p : Plan} {e : Fault} (hdst : job.dst = some dst)
    (he : e ≠ .bulkUnsupported) :
    move setting job p (refusal e) (refusal e) w = (.error e, w) := by
  have hgeneral : moveGeneral setting job p (refusal e) w = (.error e, w) := by
    unfold moveGeneral
    split
    · rfl
    split
    · simp only [inParallel, writer_refusal e hdst]
    · rfl
  have hbulk : bulk setting job (refusal e) w = (.error e, w) := by
    have hto : bulkToFile setting job (refusal e) w = (.error e, w) := rfl
    unfold bulk
    simp only [hdst, Option.isSome_some, if_true, hto]
  unfold move
  split
  · rw [hbulk]
  · exact hgeneral

/-- A copy that is not to resume has a plan. -/
theorem planOf_ok (setting : Setting) (job : Job) (options : Options) (round : Round) (t : Try)
    (hresume : t.resumeNow = false) (hseen : round.source = .seen) :
    ∃ p, planOf setting job options round t = .ok p := by
  simp only [planOf, plan, hresume, hseen, probe]
  have hseveral : ∃ p, several job options.sources false = .ok p := by
    unfold several
    split
    · split
      · exact ⟨_, rfl⟩
      · exact ⟨_, rfl⟩
    · exact ⟨_, rfl⟩
  obtain ⟨p, hp⟩ := hseveral
  rw [hp]
  cases p with
  | some p => exact ⟨p, rfl⟩
  | none =>
    simp only [Bool.false_eq_true, if_false]
    split
    · exact ⟨_, rfl⟩
    split
    · exact ⟨_, rfl⟩
    have hspread : ∃ s, spread job (.ok (some setting.content.length)) = .ok s := by
      unfold spread
      split
      · split
        · exact ⟨_, rfl⟩
        · exact ⟨_, rfl⟩
      · exact ⟨_, rfl⟩
    obtain ⟨s, hs⟩ := hspread
    rw [hs]
    exact ⟨_, rfl⟩

/-- A copy with a server at one end, or a URL at both, can be verified. -/
theorem verification_ok (ends : Bool) (algorithm value : Text) (verify : Option Bool)
    (declared : Option (Text × Text)) (hdst : job.dst = some dst)
    (h : job.src ≠ none ∨ dst.isLocal = false) :
    ∃ check, verification job ends algorithm verify declared (.ok value) = .ok check := by
  have hends : ∃ ends', strictEnds job ends verify = .ok ends' := by
    unfold strictEnds
    split
    · exact ⟨_, rfl⟩
    next hstrict =>
    rcases h with hsrc | hremote
    · obtain ⟨src, hsrc⟩ := Option.ne_none_iff_exists'.mp hsrc
      simp only [hsrc, hdst, Option.isNone_some, Bool.or_self, Bool.false_eq_true, if_false]
      exact ⟨_, rfl⟩
    · simp [checkable, hdst, hremote] at hstrict
  obtain ⟨ends', hends'⟩ := hends
  simp only [verification, hends']
  split
  · exact ⟨_, rfl⟩
  split
  · split
    · unfold sourceFirst
      split
      · exact ⟨_, rfl⟩
      · exact ⟨_, rfl⟩
    · exact ⟨_, rfl⟩
  · exact ⟨_, rfl⟩

/-- A move that raises anything but a lost connection or a limit ends the copy. -/
theorem copyOne_raised {source : Option Url} {e : Fault} {w' : World} {p : Plan}
    (hend : source ≠ none ∨ dst.isLocal = false)
    (hparents : dst = .http → schedule.parents = none)
    (hround : (schedule.round 0).pace = none ∧ ∃ value, (schedule.round 0).answer = .ok value)
    (hplan : planOf setting (jobOf source (some dst) options) options (schedule.round 0)
      (firstTry options w) = .ok p)
    (hmove : move setting (jobOf source (some dst) options) p (schedule.round 0).bulk
      (schedule.round 0).general w.undigested = (.error e, w'))
    (he : e = .os ∨ e = .interrupted) :
    copyOne setting source (some dst) options schedule w
      = (.error e, cleanedOnFailure setting (jobOf source (some dst) options) options
          (existedBefore (some dst) w) schedule e w') := by
  obtain ⟨hpace, value, hanswer⟩ := hround
  obtain ⟨check, hcheck⟩ := verification_ok p.ends (algorithmOf options) value options.verify
    options.declared (show (jobOf source (some dst) options).dst = some dst from rfl) hend
  have hattempt : attempt setting (jobOf source (some dst) options) options (algorithmOf options)
      (schedule.round 0) (firstTry options w) = (.raised e, w') := by
    simp only [attempt, hplan, hanswer, hcheck, hpace]
    rw [show (firstTry options w).world = w from rfl, hmove]
    rcases he with rfl | rfl <;> rfl
  have htransfer : transfer setting (jobOf source (some dst) options) options (algorithmOf options)
      schedule options.config.retries (firstTry options w) = (.error e, w') := by
    unfold transfer
    rw [show (firstTry options w).attempts = 0 from rfl, hattempt]
  have hnone : (if (some dst).any (·.isHttp) then schedule.parents else none) = none := by
    split
    · next hhttp => exact hparents (by simpa [Scheme.isHttp] using hhttp)
    · rfl
  simp only [copyOne, hnone, htransfer]

/-- A clean-up whose removal fails leaves everything as it was. -/
theorem cleaned_of_keeps {existed : Bool} {e : Fault} (h : schedule.removes = false) :
    cleanedOnFailure setting job options existed schedule e w = w := by
  unfold cleanedOnFailure
  split
  · unfold discardEmptyTarget
    split
    · split
      · rfl
      · rfl
      · simp [h]
    · rfl
  · rfl

/-- A replica that does not answer at all. -/
def silent : Schedule :=
  { parents := some .os, round := fun _ => refusing .os, removes := false }

theorem copyOne_silent (setting : Setting) (src : Url) (options : Options) (w : World)
    (hresume : options.resume = false ∨ dst = .http) :
    ∃ w', copyOne setting (some src) (some dst) options silent w = (.error .os, w') ∧
      w'.file = w.file := by
  by_cases hhttp : dst = .http
  · subst hhttp
    exact ⟨w, rfl, rfl⟩
  · obtain ⟨p, hp⟩ := planOf_ok setting (jobOf (some src) (some dst) options) options
      (silent.round 0) (firstTry options w) (hresume.resolve_right hhttp) rfl
    have hmove : move setting (jobOf (some src) (some dst) options) p (silent.round 0).bulk
        (silent.round 0).general w.undigested = (.error .os, w.undigested) :=
      move_refusal rfl (by decide)
    rw [copyOne_raised (Or.inl (by simp)) (fun h => absurd h hhttp) ⟨rfl, _, rfl⟩ hp hmove
      (Or.inl rfl), cleaned_of_keeps rfl]
    exact ⟨_, rfl, rfl⟩

/-- A replica that is opened, lands its pieces and is interrupted. -/
def spoiling (pieces : List Piece) : Schedule :=
  { round := fun _ =>
      { target := .unseen
        bulk := { ended := some .bulkUnsupported }
        general := { pieces, ended := some .interrupted, commits := true } }
    removes := false }

/-- The first stripe of what is divided is not empty. -/
theorem divide_cons {size width : Nat} (hsize : 0 < size) (hwidth : 0 < width) :
    ∃ m rest, divide size width = { start := 0, length := m + 1 } :: rest := by
  have hcount : 0 < (size + width - 1) / width := Nat.div_pos (by omega) hwidth
  obtain ⟨count, hc⟩ := Nat.exists_eq_succ_of_ne_zero (Nat.pos_iff_ne_zero.mp hcount)
  have hlength : min width (size - 0 * width) = min width size - 1 + 1 := by
    rw [Nat.zero_mul]
    omega
  rw [divide, hc, List.range_succ_eq_map, List.map_cons, hlength, Nat.zero_mul]
  exact ⟨_, _, rfl⟩

/-- Something of a source that is not empty lands in its first stripe. -/
theorem run_first {content : Bytes} (hcontent : content ≠ []) (m : Nat) (rest : List Stripe) :
    (Landing.run 0 content ⟨[], { start := 0, length := m + 1 } :: rest⟩ [.landed 0 1]).file ≠ [] := by
  intro hnil
  have hlength := congrArg List.length hnil
  obtain ⟨b, bs, rfl⟩ := List.exists_cons_of_ne_nil hcontent
  simp [Landing.run, Landing.step, Landing.next, slice, writeAt, resize] at hlength

/-- What a spoiled pass leaves: its pieces, in a target that was cut to nothing. -/
def Spoiled (content : Bytes) (pieces : List Piece) (w : World) : Prop :=
  ∃ stripes, w.file = some (Landing.run 0 content ⟨[], stripes⟩ pieces).file ∧
    (content ≠ [] → ∃ m rest, stripes = { start := 0, length := m + 1 } :: rest)

theorem writer_over (hdst : job.dst = some dst) (hother : dst ≠ .other)
    (hover : job.overwrite = true) (htarget : script.target = none) :
    writer job script w = (.ok (), if dst.writesAtOffset then w.truncate else w) := by
  unfold writer
  rw [hdst]
  cases dst with
  | other => contradiction
  | _ => simp [hover, htarget]

theorem fanOut_spoiled {size width : Nat} (hsize : size = setting.content.length)
    (hwidth : setting.content ≠ [] → 0 < width) (hended : script.ended = some .interrupted) :
    ∃ w', fanOut setting size width script w.truncate = (.error .interrupted, w') ∧
      Spoiled setting.content script.pieces w' := by
  simp only [fanOut, hended]
  refine ⟨_, rfl, divide size width, rfl, fun hcontent => ?_⟩
  exact divide_cons (by have := List.length_pos_iff.mpr hcontent; omega) (hwidth hcontent)

theorem oneStream_spoiled (hsrc : job.src = some src) (hread : src.scheme ≠ .other)
    (hdst : job.dst = some dst) (hother : dst ≠ .other) (hover : job.overwrite = true)
    (hsource : script.source = none) (htarget : script.target = none)
    (hended : script.ended = some .interrupted) (hcommits : script.commits = true) :
    ∃ w', oneStream setting job none script w = (.error .interrupted, w') ∧
      Spoiled setting.content script.pieces w' := by
  have hreadable : readable job = true := by simp [readable, hsrc, hread]
  have hstreamed : ∀ offset sized, streamed setting.content [] offset sized script
      = Landing.run 0 setting.content
          ⟨[], [{ start := offset, length := setting.content.length - offset }]⟩ script.pieces := by
    intro offset sized
    simp [streamed, hended]
  have hstripes : setting.content ≠ [] → ∃ m rest,
      ([{ start := 0, length := setting.content.length - 0 }] : List Stripe)
        = { start := 0, length := m + 1 } :: rest := by
    intro hcontent
    have hpos := List.length_pos_iff.mpr hcontent
    refine ⟨setting.content.length - 1, [], ?_⟩
    rw [show setting.content.length - 0 = setting.content.length - 1 + 1 by omega]
  have hcontentOf : ∀ w, contentOf setting job w = setting.content := by
    intro w
    simp [contentOf, hsrc]
  simp only [oneStream, hsource, hreadable, Bool.not_true, Bool.false_eq_true, if_false,
    Option.isSome_none, writer_over hdst hother hover htarget, Option.getD_none]
  have hbase : baseOf job (if dst.writesAtOffset then w.truncate else w) = [] := by
    by_cases hoffset : dst.writesAtOffset = true
    · simp [baseOf, hdst, hoffset, World.truncate]
    · simp [baseOf, hdst, hoffset]
  simp only [pump, hcontentOf, hbase, hstreamed, hended]
  refine ⟨_, rfl, _, ?_, hstripes⟩
  by_cases hoffset : dst.writesAtOffset = true
  · simp [settle, hdst, hoffset]
  · simp [settle, hdst, hoffset, hended, hcommits]

/-- A fresh plan that overwrites can be spoiled, whichever way it goes. -/
theorem move_spoiled {p : Plan} {resume : Bool} {sources : Nat}
    {there here : Except Fault (Option Nat)} (pieces : List Piece)
    (hplan : Planned job resume sources there here p) (hfresh : p.resuming = none)
    (hhere : ∀ size, here = .ok (some size) → size = setting.content.length)
    (hsrc : job.src = some src) (hread : src.scheme ≠ .other)
    (hdst : job.dst = some dst) (hother : dst ≠ .other) (hover : job.overwrite = true)
    (hchunk : 0 < job.chunk) (h : Holds file w) :
    ∃ w', move setting job p ((spoiling pieces).round 0).bulk ((spoiling pieces).round 0).general w
        = (.error .interrupted, w') ∧ Spoiled setting.content pieces w' := by
  have hstream : ∀ w, ∃ w', oneStream setting job none ((spoiling pieces).round 0).general w
      = (.error .interrupted, w') ∧ Spoiled setting.content pieces w' := fun w =>
    oneStream_spoiled hsrc hread hdst hother hover rfl rfl rfl rfl
  cases hplan with
  | several _ hdst' _ hoffset hsources =>
    rw [hdst] at hdst'
    cases hdst'
    have hne : sources ≠ 0 := by omega
    simp only [move, moveGeneral, fromReplicas, Bool.false_eq_true, if_false, hne, ne_eq,
      not_false_eq_true, if_true]
    rw [show ((spoiling pieces).round 0).general.source = none from rfl]
    simp only [writer_over hdst hother hover
      (show ((spoiling pieces).round 0).general.target = none from rfl), hoffset, if_true]
    rw [if_neg (show ((spoiling pieces).round 0).general.replicas ≠ 0 from Nat.one_ne_zero)]
    exact fanOut_spoiled rfl (fun _ => by omega) rfl
  | resumed => cases hfresh
  | oneStream => exact hstream w
  | bulk _ husable =>
    -- the bulk plane declines, and leaves a file that the pump then cuts to nothing
    have hbulk : ∃ w₁, bulk setting job ((spoiling pieces).round 0).bulk w = (.ok none, w₁) := by
      have hto : ∃ w₁, bulkToFile setting job ((spoiling pieces).round 0).bulk w
          = (.error .bulkUnsupported, w₁) := by
        rw [Holds] at h
        simp only [bulkToFile, create, h, hover, if_true]
        exact ⟨_, rfl⟩
      obtain ⟨w₁, hto⟩ := hto
      exact ⟨w₁, by simp only [bulk, hdst, Option.isSome_some, if_true, hto]⟩
    obtain ⟨w₁, hbulk⟩ := hbulk
    simp only [move, if_true, hbulk]
    exact hstream w₁
  | @spans src' dst' s _ _ hdst' hdiv hsize hworkers =>
    rw [hdst] at hdst'
    cases hdst'
    have hoffset : dst.writesAtOffset = true := by
      simp only [divisible, Bool.and_eq_true] at hdiv
      simp [Scheme.writesAtOffset, hdiv.1]
    simp only [move, moveGeneral, inParallel, Bool.false_eq_true, if_false, ne_eq,
      not_true_eq_false, writer_over hdst hother hover
      (show ((spoiling pieces).round 0).general.target = none from rfl), hoffset, if_true]
    refine fanOut_spoiled (hhere _ hsize) (fun hcontent => ?_) rfl
    have hpos := List.length_pos_iff.mpr hcontent
    rw [← hhere _ hsize] at hpos
    exact Nat.div_pos (by omega) (by omega)

/-- A replica that is opened can leave nothing of the target as it was. -/
theorem copyOne_spoiled (setting : Setting) (src : Url) (pieces : List Piece) (hread : src.scheme ≠ .other)
    (hother : dst ≠ .other) (hover : options.overwrite = true)
    (hresume : options.resume = false ∨ dst = .http) (h : Holds file w) :
    ∃ w', copyOne setting (some src) (some dst) options (spoiling pieces) w
        = (.error .interrupted, w') ∧ Spoiled setting.content pieces w' := by
  have hplan : ∃ p, planOf setting (jobOf (some src) (some dst) options) options
      ((spoiling pieces).round 0) (firstTry options w) = .ok p ∧ p.resuming = none := by
    rcases hresume with hresume | rfl
    · obtain ⟨p, hp⟩ := planOf_ok setting (jobOf (some src) (some dst) options) options
        ((spoiling pieces).round 0) (firstTry options w) hresume rfl
      refine ⟨p, hp, ?_⟩
      cases planned_of_plan hp with
      | resumed hyes => simp [firstTry, hresume] at hyes
      | _ => rfl
    · refine ⟨{}, ?_, rfl⟩
      have hseveral : ∀ resume,
          several (jobOf (some src) (some .http) options) options.sources resume = .ok none := by
        intro resume
        simp [several, jobOf, Scheme.writesAtOffset, Scheme.isLocal, Scheme.isRoot]
      have hcontinue : ∀ here,
          continueFrom (jobOf (some src) (some .http) options) (.ok none) here = .ok none := by
        intro here
        simp [continueFrom, jobOf, hover]
      have hbulk : bulkUsable (jobOf (some src) (some .http) options) = false := by
        simp [bulkUsable, jobOf, Scheme.isLocal]
      have hspread : ∀ here,
          spread (jobOf (some src) (some .http) options) here = .ok none := by
        intro here
        simp [spread, jobOf, divisible, Scheme.isLocal]
      simp only [planOf, plan, hseveral, hbulk, hspread]
      rw [show probe ((spoiling pieces).round 0).target
        (Option.map List.length (firstTry options w).world.file) = .ok none from rfl]
      simp only [hcontinue, ite_self]
      split <;> rfl
  obtain ⟨p, hp, hfresh⟩ := hplan
  have hchunk : 0 < (jobOf (some src) (some dst) options).chunk := by
    have hpos := options.config.chunkSize_pos
    simp only [jobOf]
    split <;> omega
  have hholds : Holds file w.undigested := h
  obtain ⟨w', hmove, hspoiled⟩ := move_spoiled pieces (planned_of_plan hp) hfresh
    (fun size hsize => (Option.some.inj (probe_some hsize).2).symm) rfl hread rfl hother hover
    hchunk hholds
  refine ⟨w', ?_, hspoiled⟩
  rw [copyOne_raised (Or.inl (by simp)) (fun _ => rfl) ⟨rfl, _, rfl⟩ hp hmove (Or.inr rfl),
    cleaned_of_keeps rfl]

/-! ## The two conditions -/

/-- The source gives the copy something to attempt. -/
def Source.tries : Source → Bool
  | .metalink _ _ _ (some _) => false
  | .metalink [] _ _ none => false
  | _ => true

/-- An empty target on a server, which a failed copy's clean-up takes for its own. -/
def Exposed (source : Source) (dst : Scheme) (options : Options) (w : World) : Prop :=
  source.tries = true ∧ dst.isRemote = true ∧ options.resume = false ∧ w.file = some []

/-- A catalogue with a readable replica to fail over to, after the first was refused
(or, over HTTP, after its target's parent could not be made). -/
def Clobbers (setting : Setting) (source : Source) (dst : Scheme) (options : Options)
    (w : World) : Prop :=
  options.overwrite = false ∧ dst ≠ .other ∧ (options.resume = false ∨ dst = .http) ∧
    ∃ replica later member declared file,
      source = .metalink (replica :: later) member declared none ∧ w.file = some file ∧
        (∃ r ∈ later, r.scheme ≠ .other) ∧ (file ≠ [] ∨ setting.content ≠ [])

/-! ### What a copy keeps -/

theorem spared_of_not_exposed {source : Source} (htries : source.tries = true)
    (h : ¬ Exposed source dst options w) (hfile : Holds file w) : Spared dst options file := by
  rw [Holds] at hfile
  by_cases hresume : options.resume = true
  · exact Or.inl hresume
  by_cases hremote : dst.isRemote = true
  · refine Or.inr (Or.inr fun hnil => h ⟨htries, hremote, by simpa using hresume, ?_⟩)
    rw [hfile, hnil]
  · exact Or.inr (Or.inl (by simpa using hremote))

/-- An exclusive copy of one source keeps what is at the target. -/
theorem copyOne_exclusive {source : Option Url} (hover : options.overwrite = false)
    (hspared : Spared dst options file) (h : Holds file w) :
    Holds file (copyOne setting source (some dst) options schedule w).2 :=
  copyOne_keeps (move_refused (refused_of_exclusive rfl hover file)) hspared h

/-- A later attempt that does not change the target: it cannot be written, cannot
be read, or holds nothing and is given nothing. -/
theorem copyOne_later (hwhy : dst = .other ∨ src.scheme = .other ∨
      file = [] ∧ setting.content = []) (hspared : Spared dst options file) (h : Holds file w) :
    Holds file (copyOne setting (some src) (some dst) options schedule w).2 := by
  refine copyOne_keeps ?_ hspared h
  rcases hwhy with rfl | hother | ⟨rfl, hcontent⟩
  · exact move_refused (refused_of_other rfl file)
  · exact move_unreadable rfl hother
  · exact move_empty (by simp [jobOf]) (by simp [jobOf]) hcontent

/-- **An exclusive copy keeps a target that is there**, unless it is exposed or clobbers. -/
theorem copy_keeps {source : Source} (schedules : Nat → Schedule)
    (hover : options.overwrite = false) (hexposed : ¬ Exposed source dst options w)
    (hclobbers : ¬ Clobbers setting source dst options w) (h : Holds file w) :
    Holds file (copy setting source (some dst) options schedules w).2 := by
  cases source with
  | stream => exact copyOne_exclusive hover (spared_of_not_exposed rfl hexposed h) h
  | url url => exact copyOne_exclusive hover (spared_of_not_exposed rfl hexposed h) h
  | metalink replicas member declared unread =>
    cases unread with
    | some e => exact h
    | none =>
      cases replicas with
      | nil => exact h
      | cons replica later =>
        have hspared := spared_of_not_exposed rfl hexposed h
        simp only [copy]
        by_cases hmay : options.resume = false ∨ dst = .http
        · -- the first attempt is exclusive, and none of the later ones can write
          have hfirst : Holds file (copyOne setting (some (metalinkEndpoint replica member))
              (some dst) (attemptOptions (replicaOptions options declared) 0) (schedules 0) w).2 :=
            copyOne_exclusive hover hspared h
          unfold copyMetalinkReplicas
          split
          · next heq =>
            rw [heq] at hfirst
            exact hfirst
          next heq =>
          rw [heq] at hfirst
          split
          · refine copyMetalinkReplicas_preserves setting (replicaOptions options declared)
              (Holds file) member schedules (some dst) later 1
              (fun r hr i _ w' hw' => copyOne_later ?_ hspared hw') _ hfirst
            by_cases hother : dst = .other
            · exact Or.inl hother
            by_cases hread : r.scheme = .other
            · exact Or.inr (Or.inl (by rwa [scheme_metalinkEndpoint]))
            refine Or.inr (Or.inr ?_)
            by_contra hsome
            refine hclobbers ⟨hover, hother, hmay, replica, later, member, declared, file, rfl, h,
              ⟨r, hr, hread⟩, ?_⟩
            by_cases hnil : file = []
            · exact Or.inr fun hcontent => hsome ⟨hnil, hcontent⟩
            · exact Or.inl hnil
          · exact hfirst
        · have hresume : options.resume = true := by
            simpa using fun hno => hmay (Or.inl hno)
          obtain ⟨e, hreported, heq⟩ := copyOne_contradiction setting
            (some (metalinkEndpoint replica member))
            (attemptOptions (replicaOptions options declared) 0) (schedules 0) w hresume hover
            fun hhttp => hmay (Or.inr hhttp)
          simp only [copyMetalinkReplicas, heq, hreported]
          exact h

/-- **The clean-up removes only what this copy made**, unless it is exposed. -/
theorem copy_own {source : Source} (schedules : Nat → Schedule)
    (hexposed : ¬ Exposed source dst options w) (h : OwnRemovals w) :
    OwnRemovals (copy setting source (some dst) options schedules w).2 := by
  have hguarded : source.tries = true → Guarded dst options w := by
    intro htries hremote hresume hempty
    exact absurd ⟨htries, hremote, hresume, hempty⟩ hexposed
  cases source with
  | stream => exact (copyOne_own (hguarded rfl) h).1
  | url url => exact (copyOne_own (hguarded rfl) h).1
  | metalink replicas member declared unread =>
    cases unread with
    | some e => exact h
    | none =>
      cases replicas with
      | nil => exact h
      | cons replica later =>
        have hboth := copyMetalinkReplicas_preserves setting (replicaOptions options declared)
          (fun w => OwnRemovals w ∧ Guarded dst options w) member schedules (some dst)
          (replica :: later) 0 (fun r _ i _ w' hw' => copyOne_own hw'.2 hw'.1) w
          ⟨h, hguarded rfl⟩
        exact hboth.1

/-! ### What a schedule can do otherwise -/

/-- Every attempt is interrupted at the source, and the clean-up does not see it. -/
def sweeping : Schedule := { round := fun _ => refusing .interrupted, source := .unseen }

/-- The clean-up of an interrupted copy removes an empty target on a server. -/
theorem copyOne_sweeping (setting : Setting) (source : Option Url) (options : Options)
    (hremote : dst.isRemote = true)
    (hresume : options.resume = false) (hempty : w.file = some []) :
    copyOne setting source (some dst) options sweeping w
      = (.error .interrupted, w.undigested.clear []) := by
  have hlocal : dst.isLocal = false := by
    cases dst <;> simp_all [Scheme.isRemote, Scheme.isRoot, Scheme.isHttp, Scheme.isS3,
      Scheme.isLocal]
  obtain ⟨p, hp⟩ := planOf_ok setting (jobOf source (some dst) options) options
    (sweeping.round 0) (firstTry options w) hresume rfl
  have hmove : move setting (jobOf source (some dst) options) p (sweeping.round 0).bulk
      (sweeping.round 0).general w.undigested = (.error .interrupted, w.undigested) :=
    move_refusal rfl (by decide)
  rw [copyOne_raised (Or.inr hlocal) (fun _ => rfl) ⟨rfl, _, rfl⟩ hp hmove (Or.inr rfl)]
  have hdiscard : discardEmptyTarget setting (jobOf source (some dst) options) sweeping
      w.undigested = w.undigested.clear [] := by
    simp only [discardEmptyTarget, World.undigested_file, hempty]
    cases source <;> rfl
  have hdst : (jobOf source (some dst) options).dst = some dst := rfl
  simp only [cleanedOnFailure, hresume, hdst, mayClean, Fault.isUnreachable, hlocal, hremote,
    Bool.not_false, Bool.true_and, Bool.false_eq_true, if_false, if_true, hdiscard]

theorem not_own_of_exposed {source : Source} (hexposed : Exposed source dst options w)
    (hmade : w.made = false) :
    ¬ OwnRemovals (copy setting source (some dst) options (fun _ => sweeping) w).2 := by
  obtain ⟨htries, hremote, hresume, hempty⟩ := hexposed
  have hlog : ∀ (source : Option Url) (o : Options), o.resume = false →
      ¬ OwnRemovals (copyOne setting source (some dst) o sweeping w).2 := by
    intro source o ho hown
    rw [copyOne_sweeping setting source o hremote ho hempty] at hown
    have := hown ([], w.made) (by simp [World.clear])
    simp [hmade] at this
  cases source with
  | stream => exact hlog none options hresume
  | url url => exact hlog (some url) options hresume
  | metalink replicas member declared unread =>
    cases unread with
    | some e => cases htries
    | none =>
      cases replicas with
      | nil => cases htries
      | cons replica later =>
        have hone := hlog (some (metalinkEndpoint replica member))
          (attemptOptions (replicaOptions options declared) 0) hresume
        have heq := copyOne_sweeping setting (some (metalinkEndpoint replica member))
          (attemptOptions (replicaOptions options declared) 0) hremote hresume hempty
        simp only [copy, copyMetalinkReplicas, heq, Fault.isReported, Fault.isOSError,
          Bool.false_eq_true, if_false]
        rw [heq] at hone
        exact hone

/-- Silent replicas, and then one that spoils. -/
def failover (silentReplicas : Nat) (pieces : List Piece) (i : Nat) : Schedule :=
  if i < silentReplicas then silent else spoiling pieces

theorem replicas_spoiled (setting : Setting) (options : Options) (member : Option Text)
    (pieces : List Piece) (before after : List Url)
    (replica : Url) (hread : replica.scheme ≠ .other) (hother : dst ≠ .other)
    (hresume : options.resume = false ∨ dst = .http) (index : Nat) (hindex : 0 < index + before.length)
    (h : Holds file w) :
    Spoiled setting.content pieces
      (copyMetalinkReplicas setting member (some dst) options
        (failover (index + before.length) pieces) index (before ++ replica :: after) w).2 := by
  induction before generalizing index w with
  | nil =>
    have hover : (attemptOptions options index).overwrite = true := by
      have : index ≠ 0 := by
        simp only [List.length_nil] at hindex
        omega
      simp [attemptOptions, this]
    obtain ⟨w', heq, hspoiled⟩ := copyOne_spoiled setting
      (metalinkEndpoint replica member) pieces (by rwa [scheme_metalinkEndpoint]) hother
      hover hresume h
    have hschedule : failover (index + 0) pieces index = spoiling pieces := by simp [failover]
    simp only [List.nil_append, List.length_nil, copyMetalinkReplicas, hschedule, heq,
      Fault.isReported, Fault.isOSError, Bool.false_eq_true, if_false]
    exact hspoiled
  | cons first before ih =>
    obtain ⟨w', heq, hfile⟩ := copyOne_silent setting (metalinkEndpoint first member)
      (attemptOptions options index) w hresume
    have hschedule : failover (index + (first :: before).length) pieces index = silent := by
      simp [failover]
    have hlength : index + (first :: before).length = index + 1 + before.length := by
      simp only [List.length_cons]
      omega
    simp only [List.cons_append, copyMetalinkReplicas, hschedule, heq, Fault.isReported,
      Fault.isOSError, if_true]
    rw [hlength]
    exact ih (index + 1) (by omega) (by rw [Holds, hfile]; exact h)

theorem not_kept_of_clobbers {source : Source} (h : Clobbers setting source dst options w) :
    ∃ file schedules, w.file = some file ∧
      (copy setting source (some dst) options schedules w).2.file ≠ some file := by
  obtain ⟨-, hother, hresume, replica, later, member, declared, file, rfl, hfile, ⟨r, hr, hread⟩,
    hbytes⟩ := h
  obtain ⟨before, after, rfl⟩ := List.append_of_mem hr
  have hspoiled : ∀ pieces, Spoiled setting.content pieces
      (copy setting (.metalink (replica :: (before ++ r :: after)) member declared none) (some dst)
        options (failover (0 + (replica :: before).length) pieces) w).2 := fun pieces =>
    replicas_spoiled setting (replicaOptions options declared) member pieces (replica :: before) after r hread hother hresume 0 (by simp) hfile
  by_cases hnil : file = []
  · -- a piece in a target that held nothing
    have hcontent : setting.content ≠ [] := hbytes.resolve_left fun hne => hne hnil
    obtain ⟨stripes, hleft, hfirst⟩ := hspoiled [.landed 0 1]
    obtain ⟨m, rest, rfl⟩ := hfirst hcontent
    refine ⟨file, failover (0 + (replica :: before).length) [.landed 0 1], hfile, fun hsame =>
      run_first hcontent m rest ?_⟩
    rw [hleft, Option.some.injEq] at hsame
    rw [hsame, hnil]
  · -- nothing in a target that held bytes
    obtain ⟨stripes, hleft, -⟩ := hspoiled []
    refine ⟨file, failover (0 + (replica :: before).length) [], hfile, fun hsame => hnil ?_⟩
    rw [hleft, Option.some.injEq] at hsame
    exact hsame.symm

/-- **Which targets a copy keeps.**  An exclusive copy leaves a target that is there
as it was, and no clean-up of a copy or of a third-party copy removes anything but
an empty target of its own, for every schedule, exactly when the copy is neither
exposed nor one that clobbers. -/
theorem targets_kept_iff (setting : Setting) (source : Source) (dst : Scheme) (options : Options)
    (w : World) (hbegins : w.made = false ∧ w.cleared = []) :
    ((options.overwrite = false → ∀ file, w.file = some file → ∀ schedules,
        (copy setting source (some dst) options schedules w).2.file = some file) ∧
      (∀ schedules, OwnRemovals (copy setting source (some dst) options schedules w).2) ∧
      (∀ overwrite cleanup script, OwnRemovals (rootTransfer overwrite cleanup script w).2 ∧
        ∀ file, overwrite = false → w.file = some file →
          (rootTransfer overwrite cleanup script w).2.file = some file)) ↔
      ¬ Exposed source dst options w ∧ ¬ Clobbers setting source dst options w := by
  have hown : OwnRemovals w := by
    intro c hc
    rw [hbegins.2] at hc
    cases hc
  constructor
  · rintro ⟨hkeeps, hclean, -⟩
    constructor
    · intro hexposed
      exact not_own_of_exposed hexposed hbegins.1 (hclean _)
    · intro hclobbers
      obtain ⟨file, schedules, hfile, hlost⟩ := not_kept_of_clobbers hclobbers
      exact hlost (hkeeps hclobbers.1 file hfile schedules)
  · rintro ⟨hexposed, hclobbers⟩
    refine ⟨?_, ?_, ?_⟩
    · intro hover file hfile schedules
      exact copy_keeps schedules hover hexposed hclobbers hfile
    · intro schedules
      exact copy_own schedules hexposed hown
    · intro overwrite cleanup script
      refine ⟨rootTransfer_own overwrite cleanup script hown, ?_⟩
      rintro file rfl hfile
      exact rootTransfer_keeps cleanup script hfile

/-! ## Runs -/

/-- Not to overwrite anything. -/
def cautious : Options := { unverified with overwrite := false }

/-- A copy on which everything goes well. -/
def smooth : Schedule :=
  { round := fun _ => { bulk := { pieces := [.landed 0 3] }
                        general := { pieces := [.landed 0 3] } } }

/-- Both copies are told not to overwrite.  The second replica of a catalogue takes
the place of the file that refused the first, and the copy that an empty file on a
server refused removes that file. -/
theorem exclusive_copies_destroy_targets :
    (copy threeBytes (.metalink [{ scheme := .root }, { scheme := .root }] none none none)
        (some .file) cautious (fun _ => smooth) { file := some [9] }).2.file = some [1, 2, 3] ∧
      (copy threeBytes (.url { scheme := .root }) (some .root) cautious (fun _ => smooth)
        { file := some [] }).2.file = none :=
  ⟨rfl, rfl⟩

/-- One source and a file that holds something: the file stays. -/
theorem exclusive_copy_keeps_file :
    (∀ schedules, (copy threeBytes (.url { scheme := .root }) (some .root) cautious schedules
      { file := some [9] }).2.file = some [9]) ∧
    ¬ Exposed (.url { scheme := .root }) .root cautious { file := some [9] } := by
  have hexposed : ¬ Exposed (.url { scheme := .root }) .root cautious { file := some [9] } := by
    simp [Exposed]
  have hclobbers : ¬ Clobbers threeBytes (.url { scheme := .root }) .root cautious
      { file := some [9] } := by
    simp [Clobbers]
  have hkept := (targets_kept_iff threeBytes (.url { scheme := .root }) .root cautious
    { file := some [9] } ⟨rfl, rfl⟩).mpr ⟨hexposed, hclobbers⟩
  exact ⟨hkept.1 rfl [9] rfl, hexposed⟩

end XrdClient.Copy
