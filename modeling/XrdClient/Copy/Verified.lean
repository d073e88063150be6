/-
  Copy/Verified.lean --- a demanded verification, and the removal that comes after it.

  Source: `copy/engine.py`, `_copy_one`, `_verification`, `_checked`, `CopyResult`;
  `copy/_metalink.py`, `_copy_metalink`, `_metalink_checksum`, `_copy_metalink_replicas`.

  `copyOne` says what a copy moves; here is what it returns: the checksum the ends agreed on,
  and, for a move, when the source goes.  `deeds` is the order in which things are done.

  A digest taken in flight covers what it has seen.  It has seen the whole of what reached
  the target (`Covers.passing`) because a plan that resumes, fills a file in any order or
  reads several replicas compares the two files instead.
-/
import XrdClient.Copy.Dropped
import XrdClient.Copy.OpenStream
import XrdClient.Lib.Steps

set_option autoImplicit false

namespace XrdClient.Copy

open XrdClient.Lib

/-! ## What a copy returns -/

/-- `CopyResult`, less its names and times. -/
structure CopyResult where
  size : Nat
  checksum : Option Text
  resumedAt : Nat
  deriving DecidableEq

/-- What is done to the ends, in order. -/
inductive Deed where
  /-- Every byte was moved and, for a local target, is on disk. -/
  | transferred
  /-- `_checked` returned. -/
  | checked (checksum : Option Text)
  /-- The source was removed. -/
  | removed
  deriving DecidableEq

/-- What a copy comes to, the world it leaves, and what it did. -/
structure Account where
  result : Except Fault CopyResult
  world : World
  deeds : List Deed

/-- `_remove` of the source of a move that has got this far. -/
def Account.remove (a : Account) (outcome : Outcome) : Account :=
  match a.result, outcome with
  | .error _, _ => a
  | .ok _, .done => { a with deeds := a.deeds ++ [.removed] }
  | .ok _, .lost => { a with result := .error .os, deeds := a.deeds ++ [.removed] }
  | .ok _, .refused => { a with result := .error .os }

/-- `_copy_one`, as far as the checksum. -/
def copyOneChecked (setting : Setting) (src : Option Url) (dst : Option Scheme) (options : Options)
    (schedule : Schedule) (w : World) : Account :=
  let job := jobOf src dst options
  let clean := cleanedOnFailure setting job options (existedBefore dst w) schedule
  match (if dst.any (·.isHttp) then schedule.parents else none) with
  | some e => ⟨.error e, w, []⟩
  | none =>
    match transfer setting job options (algorithmOf options) schedule
        options.config.retries (firstTry options w) with
    | (.error e, w) => ⟨.error e, clean e w, []⟩
    | (.ok (size, p, check), w) =>
      match syncLocalTarget job schedule (p.offset + size) w with
      | .error e => ⟨.error e, clean e w, []⟩
      | .ok _ =>
        match checked setting job check schedule.sourceSum schedule.targetSum w.digested
            (w.file.getD []) with
        | .error e => ⟨.error e, w, [.transferred]⟩
        | .ok checksum =>
          ⟨.ok { size, checksum, resumedAt := p.offset }, w, [.transferred, .checked checksum]⟩

/-- `_copy_one`. -/
def copyOneMoved (setting : Setting) (src : Option Url) (dst : Option Scheme) (options : Options)
    (removeSource : Option Outcome) (schedule : Schedule) (w : World) : Account :=
  match removeSource, src with
  | some outcome, some _ => (copyOneChecked setting src dst options schedule w).remove outcome
  | _, _ => copyOneChecked setting src dst options schedule w

/-- The copy of the model proper is this one, less the checksum. -/
theorem copyOne_eq_checked (setting : Setting) (src : Option Url) (dst : Option Scheme)
    (options : Options) (schedule : Schedule) (w : World) :
    copyOne setting src dst options schedule w =
      ((copyOneChecked setting src dst options schedule w).result.map CopyResult.size,
        (copyOneChecked setting src dst options schedule w).world) := by
  simp only [copyOne, copyOneChecked]
  cases (if dst.any (·.isHttp) then schedule.parents else none) with
  | some e => rfl
  | none =>
    rcases transfer setting (jobOf src dst options) options (algorithmOf options) schedule
      options.config.retries (firstTry options w) with ⟨result, w'⟩
    cases result with
    | error e => rfl
    | ok moved =>
      obtain ⟨size, p, check⟩ := moved
      simp only
      cases syncLocalTarget (jobOf src dst options) schedule (p.offset + size) w' with
      | error e => rfl
      | ok u =>
        simp only
        cases checked setting (jobOf src dst options) check schedule.sourceSum schedule.targetSum
          w'.digested (w'.file.getD []) <;> rfl

/-! ## Catalogues -/

/-- What a descriptor says of its file: the replicas, the checksums, and the first of them that
this library can compute. -/
structure Descriptor where
  replicas : List Url
  checksums : List (Text × Text) := []
  checksum : Option (Text × Text) := none

/-- `_metalink_checksum`. -/
def metalinkChecksum (d : Descriptor) (member : Option Text) (algorithm : Option Text)
    (zipMetalinkChecksum : Bool) : Option (Text × Text) :=
  if !(member.isNone || zipMetalinkChecksum) then none
  else match algorithm with
    | none => d.checksum
    | some name => d.checksums.find? fun item => item.1 = (lower name).filter (· != '-')

/-- `_copy_metalink_replicas`, from replica number `index` on. -/
def copyReplicasChecked (setting : Setting) (member : Option Text) (dst : Option Scheme)
    (options : Options) (schedules : Nat → Schedule) : Nat → List Url → World → Account
  | _, [], w => ⟨.error .xrootd, w, []⟩
  | index, replica :: replicas, w =>
    let a := copyOneChecked setting (some (metalinkEndpoint replica member)) dst
      (attemptOptions options index) (schedules index) w
    match a.result with
    | .ok _ => a
    | .error e =>
      if e.isReported then
        copyReplicasChecked setting member dst options schedules (index + 1) replicas a.world
      else a

/-- What a copy is given to read, a catalogue with all it declares. -/
inductive Origin where
  | stream
  | url (url : Url)
  | metalink (descriptor : Descriptor) (member : Option Text) (unread : Option Fault)

/-- `copy`, and with `removeSource` a move: what a catalogue's move removes is the catalogue. -/
def copyMoved (setting : Setting) (origin : Origin) (dst : Option Scheme) (options : Options)
    (zipMetalinkChecksum : Bool) (removeSource : Option Outcome) (schedules : Nat → Schedule)
    (w : World) : Account :=
  match origin with
  | .stream => copyOneMoved setting none dst options removeSource (schedules 0) w
  | .url url => copyOneMoved setting (some url) dst options removeSource (schedules 0) w
  | .metalink _ _ (some e) => ⟨.error e, w, []⟩
  | .metalink d member none =>
    let a := copyReplicasChecked setting member dst
      (replicaOptions options (metalinkChecksum d member options.algorithm zipMetalinkChecksum))
      schedules 0 d.replicas w
    match removeSource with
    | some outcome => a.remove outcome
    | none => a

/-- The source as the model proper names it. -/
def Origin.source (origin : Origin) (options : Options) (zipMetalinkChecksum : Bool) : Source :=
  match origin with
  | .stream => .stream
  | .url u => .url u
  | .metalink d member unread =>
    .metalink d.replicas member (metalinkChecksum d member options.algorithm zipMetalinkChecksum)
      unread

theorem copyReplicas_eq_checked (setting : Setting) (member : Option Text) (dst : Option Scheme)
    (options : Options) (schedules : Nat → Schedule) (index : Nat) (replicas : List Url) (w : World) :
    copyMetalinkReplicas setting member dst options schedules index replicas w =
      ((copyReplicasChecked setting member dst options schedules index replicas w).result.map
          CopyResult.size,
        (copyReplicasChecked setting member dst options schedules index replicas w).world) := by
  induction replicas generalizing index w with
  | nil => rfl
  | cons replica replicas ih =>
    rw [copyMetalinkReplicas, copyReplicasChecked, copyOne_eq_checked]
    rcases copyOneChecked setting (some (metalinkEndpoint replica member)) dst
      (attemptOptions options index) (schedules index) w with ⟨result, w', deeds⟩
    cases result with
    | ok r => rfl
    | error e =>
      simp only [Except.map]
      cases e.isReported with
      | true => exact ih (index + 1) w'
      | false => rfl

/-- A copy that is no move is the copy of the model proper, less the checksum. -/
theorem copy_eq_moved (setting : Setting) (origin : Origin) (dst : Option Scheme)
    (options : Options) (zipMetalinkChecksum : Bool) (schedules : Nat → Schedule) (w : World) :
    copy setting (origin.source options zipMetalinkChecksum) dst options schedules w =
      ((copyMoved setting origin dst options zipMetalinkChecksum none schedules w).result.map
          CopyResult.size,
        (copyMoved setting origin dst options zipMetalinkChecksum none schedules w).world) := by
  cases origin with
  | stream => exact copyOne_eq_checked setting none dst options (schedules 0) w
  | url url => exact copyOne_eq_checked setting (some url) dst options (schedules 0) w
  | metalink d member unread =>
    cases unread with
    | some e => rfl
    | none => exact copyReplicas_eq_checked _ _ _ _ _ _ _ _

/-! ## What a digest covers -/

/-- `ours` is a digest of everything that reached the target: of the file that is there, or of
what went past, which is all that is there. -/
inductive Covers (setting : Setting) (dst : Option Scheme) (algorithm : Text) (schedule : Schedule)
    (begun after : World) (ours : Text) : Prop
  | file {d : Scheme} (hdst : dst = some d)
      (hdigest : digestOf setting algorithm d.isLocal (after.file.getD []) schedule.targetSum = .ok ours)
  | passing (hdigest : ours = setting.hash algorithm after.digested)
      (hfile : dst ≠ none → after.file = some after.digested)
      (hstream : dst = none → after.written = begun.written ++ after.digested)

section Digests

variable {setting : Setting} {job : Job} {script : Script} {w w' : World} {n : Nat}

/-- A plan that leaves the ends uncompared is one stream, or the bulk plane onto a stream. -/
theorem Planned.inOrder {resume : Bool} {sources : Nat} {there here : Except Fault (Option Nat)}
    {p : Plan} (h : Planned job resume sources there here p) (hends : p.ends = false) :
    p.sources = 0 ∧ p.spread = none ∧ p.resuming = none ∧ (p.bulking = true → job.dst = none) := by
  cases h with
  | several _ _ _ _ _ _ => cases hends
  | resumed _ _ _ _ _ _ => cases hends
  | oneStream _ => exact ⟨rfl, rfl, rfl, nofun⟩
  | bulk _ husable =>
    refine ⟨rfl, rfl, rfl, fun _ => ?_⟩
    obtain ⟨src, hsrc, -⟩ := bulkUsable_src husable
    simpa [hsrc] using hends
  | spans _ _ _ _ _ _ => cases hends

end Digests

/-! ## What is compared -/

section Checks

variable {setting : Setting} {job : Job} {algorithm : Text} {declared : Option (Text × Text)}
  {answer : Except Fault Text} {check : Check} {ends : Bool}

end Checks

/-! ## One copy -/

section One

variable {setting : Setting} {src : Option Url} {dst : Option Scheme} {options : Options}
  {schedule : Schedule} {w : World}

end One

/-! ## Any copy -/

section Any

variable {setting : Setting} {member : Option Text} {dst : Option Scheme} {options : Options}
  {schedules : Nat → Schedule}

/-- The result, when there is one, was compared; and the deeds are those of a copy. -/
structure Account.Sound (a : Account) (demanding : Prop) (upheld : World → Text → Prop) : Prop where
  compared : ∀ r, a.result = .ok r → demanding → ∃ value, r.checksum = some value ∧ upheld a.world value
  deeds : (∃ r, a.result = .ok r ∧ a.deeds = [.transferred, .checked r.checksum]) ∨
    ∃ e, a.result = .error e ∧ (a.deeds = [] ∨ a.deeds = [.transferred])

/-- A removal is the last thing done, after a comparison if one was demanded. -/
def Account.RemovesLast (a : Account) (demanding : Prop) (upheld : World → Text → Prop) : Prop :=
  (∀ r, a.result = .ok r → demanding → ∃ value, r.checksum = some value ∧ upheld a.world value) ∧
    (.removed ∈ a.deeds → ∃ c, a.deeds = [.transferred, .checked c, .removed] ∧
      (demanding → ∃ value, c = some value ∧ upheld a.world value))

theorem Account.Sound.kept {a : Account} {demanding : Prop} {upheld : World → Text → Prop}
    (h : a.Sound demanding upheld) : a.RemovesLast demanding upheld := by
  refine ⟨h.compared, fun hremoved => ?_⟩
  rcases h.deeds with ⟨r, -, hdeeds⟩ | ⟨e, -, hdeeds | hdeeds⟩ <;> simp [hdeeds] at hremoved

theorem Account.Sound.remove {a : Account} {demanding : Prop} {upheld : World → Text → Prop}
    (h : a.Sound demanding upheld) (outcome : Outcome) :
    (a.remove outcome).RemovesLast demanding upheld := by
  rcases h.deeds with ⟨r, hr, hdeeds⟩ | ⟨e, he, -⟩
  · have hcompared := h.compared r hr
    unfold Account.remove
    rw [hr]
    cases outcome with
    | done =>
      refine ⟨fun r' hr' => ?_, fun _ => ⟨r.checksum, by simp [hdeeds], hcompared⟩⟩
      obtain rfl : r = r' := Except.ok.inj hr'
      exact hcompared
    | lost => exact ⟨nofun, fun _ => ⟨r.checksum, by simp [hdeeds], hcompared⟩⟩
    | refused =>
      refine ⟨nofun, fun hremoved => ?_⟩
      simp [hdeeds] at hremoved
  · have hsame : a.remove outcome = a := by
      unfold Account.remove
      rw [he]
    rw [hsame]
    exact h.kept

end Any

end XrdClient.Copy
