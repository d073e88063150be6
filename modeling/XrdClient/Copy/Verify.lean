/-
  Copy/Verify.lean --- how a copy is checked, before and after it moves.

  Source: `copy/engine.py`, `_Verify`, `_verification`, `_strict_ends`,
  `_declared_verification`, `_available_verification`, `_source_first`,
  `_ask_first`, `_checked`, `_compare_ends`, `_compare`, `_matched`, `_digest_of`.

  What a server says its checksum is, or what asking it raises, is the
  schedule's.  A file that this process reads itself is digested by the checksum
  library, which is a parameter of the setting.
-/
import XrdClient.Copy.Plan

set_option autoImplicit false

namespace XrdClient.Copy

open XrdClient.Lib

/-- The two ends of a copy, by side. -/
inductive Side where
  | source
  | target
  deriving DecidableEq

/-- `_Verify`.  `ends` compares the two files, `digest` digests the stream. -/
structure Check where
  ends : Bool
  wanted : Bool
  strict : Bool
  algorithm : Text
  checkable : Option Side
  digest : Bool := false
  expected : Option Text := none

/-- The first end, the target before the source, that a server can be asked about. -/
def checkable (job : Job) : Option Side :=
  if job.dst.any (!·.isLocal) then some .target
  else if job.src.any (fun u => !u.scheme.isLocal && u.member.isNone) then some .source
  else none

/-- `_strict_ends`. -/
def strictEnds (job : Job) (ends : Bool) (verify : Option Bool) : Except Fault Bool :=
  if verify ≠ some true || (checkable job).isSome || ends then .ok ends
  else if job.src.isNone || job.dst.isNone then .error (.value .unverifiable)
  else .ok true

/-- `_source_first` and `_ask_first`: ask the source, where it can answer. -/
def sourceFirst (job : Job) (check : Check) (answer : Except Fault Text) : Except Fault Check :=
  if !job.src.any (fun u => u.scheme.isRoot || u.scheme.isHttp) then .ok check
  else match answer with
    | .ok value => .ok { check with expected := some value }
    | .error e =>
      if e.isOSError && !check.strict then .ok { check with digest := false } else .error e

/-- `_verification`.  `answer` is what the source says when it is asked first. -/
def verification (job : Job) (ends : Bool) (algorithm : Text) (verify : Option Bool)
    (declared : Option (Text × Text)) (answer : Except Fault Text) : Except Fault Check :=
  match strictEnds job ends verify with
  | .error e => .error e
  | .ok ends =>
    let check : Check :=
      { ends
        wanted := verify.getD job.config.verifyChecksums
        strict := verify = some true
        algorithm
        checkable := checkable job }
    match declared with
    | some (name, value) =>
      .ok { check with
              wanted := true, strict := true, algorithm := name, expected := some value
              digest := !ends }
    | none =>
      if check.wanted && check.checkable.isSome && !ends then
        let check := { check with digest := true }
        if check.checkable = some .source then sourceFirst job check answer else .ok check
      else .ok check

/-- Checksums are compared without regard to case. -/
def lower (text : Text) : Text := text.map Char.toLower

/-- `_digest_of`, for an end with these bytes: the server's answer, or ours if the
end is read here. -/
def digestOf (setting : Setting) (algorithm : Text) (here : Bool) (bytes : Bytes)
    (answer : Except Fault Text) : Except Fault Text :=
  match answer with
  | .error e => .error e
  | .ok value => .ok (lower (if here then setting.hash algorithm bytes else value))

/-- `_matched`. -/
def matched (theirs ours : Text) : Except Fault (Option Text) :=
  if lower theirs = lower ours then .ok (some theirs) else .error .mismatch

/-- `_checked`: the checksum both ends agreed on, or nothing if none was asked for.
`digested` is what went past the stream's digest, `file` what the target holds. -/
def checked (setting : Setting) (job : Job) (check : Check)
    (source target : Except Fault Text) (digested file : Bytes) : Except Fault (Option Text) :=
  let theirs := digestOf setting check.algorithm (job.dst.any (·.isLocal)) file target
  let ours := digestOf setting check.algorithm
    (job.src.any fun u => u.scheme.isLocal || u.member.isSome) setting.content source
  match check.expected, check.ends with
  | some expected, true =>
    match theirs with
    | .error e => .error e
    | .ok actual => matched expected actual
  | none, true =>
    if !check.wanted then .ok none
    else match ours, theirs with
      | .ok ours, .ok theirs => if ours = theirs then .ok (some theirs) else .error .mismatch
      | .error e, _ | .ok _, .error e =>
        if e.isOSError && !check.strict then .ok none else .error e
  | expected, false =>
    match check.digest, check.checkable with
    | true, some side =>
      let ours := setting.hash check.algorithm digested
      match expected with
      | some expected => matched expected ours
      | none =>
        match (if side = .target then target else source) with
        | .ok theirs => matched theirs ours
        | .error e => if e.isOSError && !check.strict then .ok none else .error e
    | _, _ => .ok none

end XrdClient.Copy
