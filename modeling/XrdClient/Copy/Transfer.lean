/-
  Copy/Transfer.lean --- the retry loop, the clean-up, and failover.

  Source: `copy/engine.py`, `_transfer`, `_retry_transfer`, `_copy_one`,
  `_cleaned_on_failure`, `_may_clean`, `_discard_empty_target`, `copy`;
  `copy/_local.py`, `_sync_local_target`; `copy/_metalink.py`, `_copy_metalink`,
  `_copy_metalink_replicas`, `_metalink_endpoint`.

  A schedule says how everything outside the copy goes, attempt by attempt.  The
  caller's limits (`_Stop`) reach a script as a fault; dry runs make no transfer
  and are not modelled, nor is the removal of the source after a move.
-/
import XrdClient.Copy.Move

set_option autoImplicit false

namespace XrdClient.Copy

open XrdClient.Lib

/-! ## Schedules -/

/-- How one attempt goes. -/
structure Round where
  /-- The probe of the target, and that of the source. -/
  target : Sight := .seen
  source : Sight := .seen
  /-- What the source says its checksum is, when it is asked first. -/
  answer : Except Fault Text := .ok []
  /-- What `pace.check` raises. -/
  pace : Option Fault := none
  bulk : Script := {}
  general : Script := {}
  /-- The deadline has passed when the attempt fails. -/
  late : Bool := false

/-- How one copy goes. -/
structure Schedule where
  /-- What making the target's parent collection raises. -/
  parents : Option Fault := none
  /-- Attempt by attempt. -/
  round : Nat → Round := fun _ => {}
  /-- What committing a local target to disk raises. -/
  sync : Option Fault := none
  /-- What the two ends say of their checksums afterwards. -/
  sourceSum : Except Fault Text := .ok []
  targetSum : Except Fault Text := .ok []
  /-- The clean-up's probes of the target and of the source, and its removal. -/
  target : Sight := .seen
  source : Sight := .seen
  removes : Bool := true

/-! ## One attempt -/

/-- `_transfer`'s own variables, and the world they are about. -/
structure Try where
  attempts : Nat := 0
  resumeNow : Bool
  world : World

/-- How an attempt ends.  Only what the move itself raises can be retried. -/
inductive Ended where
  | returned (moved : Nat) (plan : Plan) (check : Check)
  | raised (e : Fault)
  | cut (e : Fault)

/-- Every attempt takes a new digest. -/
def World.undigested (w : World) : World := { w with digested := [] }

@[simp] theorem World.undigested_file (w : World) : w.undigested.file = w.file := rfl
@[simp] theorem World.undigested_rest (w : World) : w.undigested.rest = w.rest := rfl
@[simp] theorem World.undigested_made (w : World) : w.undigested.made = w.made := rfl
@[simp] theorem World.undigested_cleared (w : World) : w.undigested.cleared = w.cleared := rfl

/-- The plan of an attempt. -/
def planOf (setting : Setting) (job : Job) (options : Options) (round : Round) (t : Try) :
    Except Fault Plan :=
  plan job t.resumeNow options.sources (probe round.target (t.world.file.map List.length))
    (probe round.source (some setting.content.length))

/-- One turn of `_transfer`'s loop, up to the retry. -/
def attempt (setting : Setting) (job : Job) (options : Options) (algorithm : Text) (round : Round)
    (t : Try) : Ended × World :=
  match planOf setting job options round t with
  | .error e => (.raised e, t.world)
  | .ok p =>
    match verification job p.ends algorithm options.verify options.declared round.answer with
    | .error e => (.raised e, t.world)
    | .ok check =>
      match round.pace with
      | some e => (.raised e, t.world)
      | none =>
        match move setting job p round.bulk round.general t.world.undigested with
        | (.ok n, w) => (.returned n p check, w)
        | (.error (.stop e), w) => (.raised e, w)
        | (.error e, w) => (if e.isConnection then .cut e else .raised e, w)

/-- `_retry_transfer` lets the transfer go on. -/
def mayRetry (job : Job) (options : Options) (round : Round) (e : Fault) : Bool :=
  e == .dropped && canRetry job options.resume && !round.late

/-- The state the next attempt starts from. -/
def Try.again (t : Try) (job : Job) (w : World) : Try :=
  { attempts := t.attempts + 1, resumeNow := job.dst.any (·.writesAtOffset), world := w }

/-- `_transfer`, with the retries that are `left` of `connect_retries`. -/
def transfer (setting : Setting) (job : Job) (options : Options) (algorithm : Text)
    (schedule : Schedule) (left : Nat) (t : Try) : Moved (Nat × Plan × Check) :=
  match attempt setting job options algorithm (schedule.round t.attempts) t with
  | (.returned n p check, w) => (.ok (n, p, check), w)
  | (.raised e, w) => (.error e, w)
  | (.cut e, w) =>
    match left with
    | 0 => (.error e, w)
    | left + 1 =>
      if mayRetry job options (schedule.round t.attempts) e then
        transfer setting job options algorithm schedule left (t.again job w)
      else (.error e, w)

/-- The state in which the attempt that ended the transfer began. -/
def lastTry (setting : Setting) (job : Job) (options : Options) (algorithm : Text)
    (schedule : Schedule) (left : Nat) (t : Try) : Try :=
  match attempt setting job options algorithm (schedule.round t.attempts) t with
  | (.returned _ _ _, _) => t
  | (.raised _, _) => t
  | (.cut e, w) =>
    match left with
    | 0 => t
    | left + 1 =>
      if mayRetry job options (schedule.round t.attempts) e then
        lastTry setting job options algorithm schedule left (t.again job w)
      else t

/-! ## Clean-up -/

/-- `_may_clean`. -/
def mayClean (target : Option Scheme) (existed : Bool) (e : Fault) : Bool :=
  match target with
  | none => false
  | some dst =>
    if e.isUnreachable then false
    else if dst.isLocal then !existed
    else dst.isRemote

/-- The clean-up's removal of the target, on record. -/
def World.clear (w : World) (file : Bytes) : World :=
  { w with file := none, cleared := w.cleared ++ [(file, w.made)] }

/-- `_discard_empty_target`.  Whatever it raises is suppressed. -/
def discardEmptyTarget (setting : Setting) (job : Job) (schedule : Schedule) (w : World) : World :=
  match probe schedule.target (w.file.map List.length), w.file with
  | .ok (some 0), some file =>
    match (if job.src.isSome then probe schedule.source (some setting.content.length)
      else .ok none) with
    | .error _ => w
    | .ok (some 0) => w
    | .ok _ => if schedule.removes then w.clear file else w
  | _, _ => w

/-- `_cleaned_on_failure`, once the transfer has raised. -/
def cleanedOnFailure (setting : Setting) (job : Job) (options : Options) (existed : Bool)
    (schedule : Schedule) (e : Fault) (w : World) : World :=
  if !options.resume && mayClean job.dst existed e then discardEmptyTarget setting job schedule w
  else w

/-! ## One copy -/

/-- `_sync_local_target`: a local target is as long as what was moved, and on disk. -/
def syncLocalTarget (job : Job) (schedule : Schedule) (expected : Nat) (w : World) :
    Except Fault Unit :=
  if job.dst.any (·.isLocal) then
    match schedule.sync with
    | some e => .error e
    | none => if (w.file.map List.length) = some expected then .ok () else .error .os
  else .ok ()

/-- The job that the options describe. -/
def jobOf (src : Option Url) (dst : Option Scheme) (options : Options) : Job :=
  { src, dst
    config := options.config
    chunk := if options.chunkSize = 0 then options.config.chunkSize else options.chunkSize
    overwrite := options.overwrite
    dynamic := options.dynamicSource
    paced := options.limited }

/-- The digest's name. -/
def algorithmOf (options : Options) : Text :=
  options.algorithm.getD options.config.preferredChecksum

/-- The local target was there before the transfer began. -/
def existedBefore (dst : Option Scheme) (w : World) : Bool :=
  dst.any (·.isLocal) && w.file.isSome

/-- The state the first attempt starts from. -/
def firstTry (options : Options) (w : World) : Try := { resumeNow := options.resume, world := w }

/-- `_copy_one`. -/
def copyOne (setting : Setting) (src : Option Url) (dst : Option Scheme) (options : Options)
    (schedule : Schedule) (w : World) : Moved Nat :=
  let job := jobOf src dst options
  let clean := cleanedOnFailure setting job options (existedBefore dst w) schedule
  match (if dst.any (·.isHttp) then schedule.parents else none) with
  | some e => (.error e, w)
  | none =>
    match transfer setting job options (algorithmOf options) schedule
        options.config.retries (firstTry options w) with
    | (.error e, w) => (.error e, clean e w)
    | (.ok (size, p, check), w) =>
      match syncLocalTarget job schedule (p.offset + size) w with
      | .error e => (.error e, clean e w)
      | .ok _ =>
        match checked setting job check schedule.sourceSum schedule.targetSum w.digested
            (w.file.getD []) with
        | .error e => (.error e, w)
        | .ok _ => (.ok size, w)

/-! ## Failover -/

/-- `_metalink_endpoint`. -/
def metalinkEndpoint (replica : Url) (member : Option Text) : Url :=
  match member with
  | none => replica
  | some m => { replica with member := some m }

/-- The options of one replica's attempt: only the first honours `overwrite=False`. -/
def attemptOptions (options : Options) (index : Nat) : Options :=
  { options with overwrite := if index = 0 then options.overwrite else true }

/-- `_copy_metalink_replicas`, from replica number `index` on. -/
def copyMetalinkReplicas (setting : Setting) (member : Option Text) (dst : Option Scheme)
    (options : Options) (schedules : Nat → Schedule) :
    Nat → List Url → World → Moved Nat
  | _, [], w => (.error .xrootd, w)
  | index, replica :: replicas, w =>
    match copyOne setting (some (metalinkEndpoint replica member)) dst
        (attemptOptions options index) (schedules index) w with
    | (.ok n, w) => (.ok n, w)
    | (.error e, w) =>
      if e.isReported then
        copyMetalinkReplicas setting member dst options schedules (index + 1) replicas w
      else (.error e, w)

/-- What a copy is given to read. -/
inductive Source where
  | stream
  | url (url : Url)
  /-- A catalogue: its replicas, the member selected of it, the checksum it
  declares, and what reading it raises. -/
  | metalink (replicas : List Url) (member : Option Text) (declared : Option (Text × Text))
      (unread : Option Fault)

/-- What every replica's attempt shares: a declared checksum is always verified. -/
def replicaOptions (options : Options) (declared : Option (Text × Text)) : Options :=
  { options with
    verify := if declared.isSome then some true else options.verify
    algorithm := (declared.map Prod.fst).or options.algorithm
    declared }

/-- `copy`. -/
def copy (setting : Setting) (source : Source) (dst : Option Scheme) (options : Options)
    (schedules : Nat → Schedule) (w : World) : Moved Nat :=
  match source with
  | .stream => copyOne setting none dst options (schedules 0) w
  | .url url => copyOne setting (some url) dst options (schedules 0) w
  | .metalink _ _ _ (some e) => (.error e, w)
  | .metalink replicas member declared none =>
    copyMetalinkReplicas setting member dst (replicaOptions options declared) schedules 0 replicas w

end XrdClient.Copy
