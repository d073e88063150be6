/-
  Copy/Plan.lean --- one transfer, and which way its bytes go.

  Source: `copy/engine.py`, `_Job`, `_Plan`, `_plan`, `_several`,
  `_continue_from`, `_spread`, `_divisible`, `_can_retry`, `_writes_at_offset`;
  `copy/_endpoints.py`, `_probe`; `copy/_fastpath.py`, `_bulk_usable`;
  `errors.py` and `docs/errors.md` for the classes an `except` clause names.

  An end is named by a URL, of which the planner reads the scheme and, on the
  source's side, whether it selects a member of a ZIP archive; an end without
  one is an open stream.  A target is a file, never a member.

  What an end answers to a probe is the schedule's to say, not the model's.
-/
import XrdClient.Lib.Bytes

set_option autoImplicit false

namespace XrdClient.Copy

open XrdClient.Lib

/-! ## Failures -/

/-- Why a copy is refused before a byte moves: the `ValueError`s of the engine. -/
inductive Refusal where
  /-- resume continues a partial target, which overwrite=False forbids -/
  | exclusive
  /-- resume needs a URL on both sides, not an already-open stream -/
  | stream
  /-- the target is longer than the source, so it is not a partial copy of it -/
  | longer
  /-- verify=True, but there is nothing to verify against -/
  | unverifiable
  deriving DecidableEq

/-- What a step of a copy can raise, as far as an `except` clause can tell. -/
inductive Fault where
  /-- `ConnectionError` or `TransientError`: a link that dropped. -/
  | dropped
  /-- `TimeoutError`, the library's or the builtin. -/
  | timeout
  | waitLimit
  | unsupported
  /-- `FileExistsError`. -/
  | exists
  /-- Any other `OSError`. -/
  | os
  | bulkUnsupported
  /-- `ChecksumMismatchError`. -/
  | mismatch
  /-- Any other `XRootDError`: a short transfer, no more replicas, a failed login. -/
  | xrootd
  | value (why : Refusal)
  | notImplemented
  /-- `_Stop`: a limit of the caller's, wrapped so that no retry catches it. -/
  | stop (error : Fault)
  /-- A `BaseException` that is none of these, such as an interrupt. -/
  | interrupted
  deriving DecidableEq

namespace Fault

/-- `except XRDConnectionError`: timeouts and spent waits are subclasses of it. -/
def isConnection : Fault → Bool
  | .dropped | .timeout | .waitLimit => true
  | _ => false

/-- `except OSError`. -/
def isOSError : Fault → Bool
  | .dropped | .timeout | .waitLimit | .unsupported | .exists | .os => true
  | _ => false

/-- `except (OSError, XRootDError)`. -/
def isReported : Fault → Bool
  | .bulkUnsupported | .mismatch | .xrootd => true
  | e => e.isOSError

/-- `_UNREACHABLE`. -/
def isUnreachable : Fault → Bool
  | .dropped | .timeout | .waitLimit | .unsupported => true
  | _ => false

end Fault

/-! ## The two ends -/

inductive Scheme where
  | file
  | root
  | http
  | s3
  /-- A scheme this client does not speak. -/
  | other
  deriving DecidableEq

namespace Scheme

def isLocal (s : Scheme) : Bool := s == .file
def isRoot (s : Scheme) : Bool := s == .root
def isHttp (s : Scheme) : Bool := s == .http
def isS3 (s : Scheme) : Bool := s == .s3

/-- `_writes_at_offset`. -/
def writesAtOffset (s : Scheme) : Bool := s.isLocal || s.isRoot

/-- A server holds it, and this client can ask it: the last line of `_may_clean`. -/
def isRemote (s : Scheme) : Bool := s.isRoot || s.isHttp || s.isS3

end Scheme

/-- A URL, and the member it selects with `xrdcl.unzip`. -/
structure Url where
  scheme : Scheme
  member : Option Text := none
  deriving DecidableEq

/-- The settings a copy reads. -/
structure Config where
  bulk : Bool := true
  bulkWorkers : Nat := 2
  bulkChunk : Nat := 4194304
  chunkSize : Nat := 4194304
  chunkSize_pos : 0 < chunkSize := by decide
  parallelChunks : Nat := 4
  connectRetries : Int := 3
  verifyChecksums : Bool := true
  preferredChecksum : Text := "adler32".toList

/-- How often a transfer may be tried again. -/
def Config.retries (config : Config) : Nat := config.connectRetries.toNat

/-- `_CopyOptions`, less what only reports: `declared` is the algorithm and the
value a Metalink promised, and `limited` says that a rate or time limit is set. -/
structure Options where
  config : Config := {}
  chunkSize : Nat := 0
  verify : Option Bool := none
  algorithm : Option Text := none
  overwrite : Bool := true
  resume : Bool := false
  sources : Nat := 1
  dynamicSource : Bool := false
  limited : Bool := false
  declared : Option (Text × Text) := none

/-- `_Job`.  An end without a URL is an open stream. -/
structure Job where
  src : Option Url
  dst : Option Scheme
  config : Config
  chunk : Nat
  overwrite : Bool
  dynamic : Bool
  paced : Bool

/-- What the world holds fixed: the source's content, and the checksum library. -/
structure Setting where
  content : Bytes
  hash : Text → Bytes → Text

/-! ## Asking an end -/

/-- How a probe goes: answered, answered with nothing there (or not at all, which
`_probe` takes for the same), or failed with an error it does not catch. -/
inductive Sight where
  | seen
  | unseen
  | failed (error : Fault)
  deriving DecidableEq

/-- `_probe`: the size of what is there. -/
def probe (sight : Sight) (size : Option Nat) : Except Fault (Option Nat) :=
  match sight with
  | .seen => .ok size
  | .unseen => .ok none
  | .failed e => .error e

/-! ## Plans -/

/-- `_Spread`. -/
structure Spread where
  workers : Nat
  size : Nat
  deriving DecidableEq

/-- `_Plan`.  `ends` says that the two files are compared afterwards. -/
structure Plan where
  resuming : Option Nat := none
  bulking : Bool := false
  spread : Option Spread := none
  sources : Nat := 0
  ends : Bool := false
  deriving DecidableEq

/-- Where the bytes start. -/
def Plan.offset (p : Plan) : Nat := p.resuming.getD 0

/-- `_several`. -/
def several (job : Job) (sources : Nat) (resume : Bool) : Except Fault (Option Plan) :=
  match job.src, job.dst with
  | some src, some dst =>
    if sources < 2 || !src.scheme.isRoot || src.member.isSome || !dst.writesAtOffset then .ok none
    else if resume then .error .notImplemented
    else .ok (some { sources, ends := true })
  | _, _ => .ok none

/-- `_continue_from`: where to continue the target from, if there is anything to.
The probes are of the target and of the source. -/
def continueFrom (job : Job) (there here : Except Fault (Option Nat)) :
    Except Fault (Option Nat) :=
  if !job.overwrite then .error (.value .exclusive)
  else if job.src.isNone || job.dst.isNone then .error (.value .stream)
  else match there with
    | .error e => .error e
    | .ok none | .ok (some 0) => .ok none
    | .ok (some size) =>
      match here with
      | .error e => .error e
      | .ok (some known) => if known < size then .error (.value .longer) else .ok (some size)
      | .ok none => .ok (some size)

/-- `_divisible`. -/
def divisible (src : Url) (dst : Scheme) : Bool :=
  dst.isLocal && (src.scheme.isLocal || src.scheme.isRoot || src.scheme.isHttp)

/-- `_spread`. -/
def spread (job : Job) (here : Except Fault (Option Nat)) : Except Fault (Option Spread) :=
  match job.src, job.dst with
  | some src, some dst =>
    if src.member.isSome || !divisible src dst then .ok none
    else match here with
      | .error e => .error e
      | .ok none => .ok none
      | .ok (some size) =>
        let workers := min job.config.parallelChunks (size / job.chunk)
        .ok (if 1 < workers then some { workers, size } else none)
  | _, _ => .ok none

/-- `_bulk_usable`. -/
def bulkUsable (job : Job) : Bool :=
  job.config.bulk &&
    (match job.src with
     | some src => src.scheme.isRoot && src.member.isNone
     | none => false) &&
    (match job.dst with
     | some dst => dst.isLocal
     | none => true)

/-- `_plan`: several replicas, a resume, the bulk plane, spans, or one stream. -/
def plan (job : Job) (resume : Bool) (sources : Nat) (there here : Except Fault (Option Nat)) :
    Except Fault Plan :=
  match several job sources resume with
  | .error e => .error e
  | .ok (some p) => .ok p
  | .ok none =>
    match (if resume then continueFrom job there here else .ok none) with
    | .error e => .error e
    | .ok (some offset) => .ok { resuming := some offset, ends := true }
    | .ok none =>
      if job.dynamic || job.paced then .ok {}
      else if bulkUsable job then
        .ok { bulking := true, ends := job.src.isSome && job.dst.isSome }
      else match spread job here with
        | .error e => .error e
        | .ok s => .ok { spread := s, ends := s.isSome }

/-- `_can_retry`. -/
def canRetry (job : Job) (resume : Bool) : Bool :=
  match job.dst with
  | none => false
  | some _ => job.overwrite || resume

/-! ## What a plan says of its ends -/

/-- The plans there are, each with what was asked and answered to choose it. -/
inductive Planned (job : Job) (resume : Bool) (sources : Nat)
    (there here : Except Fault (Option Nat)) : Plan → Prop
  | several {src : Url} {dst : Scheme} (hsrc : job.src = some src) (hdst : job.dst = some dst)
      (hroot : src.scheme.isRoot = true) (hoffset : dst.writesAtOffset = true)
      (hsources : 2 ≤ sources) (hresume : resume = false) :
      Planned job resume sources there here { sources, ends := true }
  | resumed {offset : Nat} (hresume : resume = true) (hover : job.overwrite = true)
      (hsrc : job.src ≠ none) (hdst : job.dst ≠ none)
      (hthere : there = .ok (some offset)) (hpos : 0 < offset) :
      Planned job resume sources there here { resuming := some offset, ends := true }
  | oneStream (hfresh : resume = true → there = .ok none ∨ there = .ok (some 0)) :
      Planned job resume sources there here {}
  | bulk (hfresh : resume = true → there = .ok none ∨ there = .ok (some 0))
      (husable : bulkUsable job = true) :
      Planned job resume sources there here
        { bulking := true, ends := job.src.isSome && job.dst.isSome }
  | spans {src : Url} {dst : Scheme} {s : Spread}
      (hfresh : resume = true → there = .ok none ∨ there = .ok (some 0))
      (hsrc : job.src = some src) (hdst : job.dst = some dst) (hdivisible : divisible src dst = true)
      (hhere : here = .ok (some s.size)) (hworkers : 1 < s.workers) :
      Planned job resume sources there here { spread := some s, ends := true }

theorem several_some {job : Job} {sources : Nat} {resume : Bool} {p : Plan}
    (h : several job sources resume = .ok (some p)) (there here : Except Fault (Option Nat)) :
    Planned job resume sources there here p := by
  unfold several at h
  split at h
  · next src dst hsrc hdst =>
    split at h
    · cases h
    · next hno =>
      split at h
      · cases h
      · next hresume =>
        cases h
        simp only [Bool.or_eq_true, decide_eq_true_eq, Bool.not_eq_true', not_or] at hno
        obtain ⟨⟨⟨hsources, hroot⟩, -⟩, hoffset⟩ := hno
        exact .several hsrc hdst (by simpa using hroot) (by simpa using hoffset) (by omega)
          (by simpa using hresume)
  · cases h

theorem continueFrom_some {job : Job} {there here : Except Fault (Option Nat)} {offset : Nat}
    (h : continueFrom job there here = .ok (some offset)) :
    job.overwrite = true ∧ job.src ≠ none ∧ job.dst ≠ none ∧
      there = .ok (some offset) ∧ 0 < offset := by
  unfold continueFrom at h
  split at h
  · cases h
  next hover =>
  split at h
  · cases h
  next hends =>
  simp only [Bool.or_eq_true, Option.isNone_iff_eq_none, not_or] at hends
  refine ⟨by simpa using hover, hends.1, hends.2, ?_⟩
  split at h
  · cases h
  · cases h
  · cases h
  · next size hne =>
    have hsize : size = offset := by
      split at h
      · cases h
      · split at h
        · cases h
        · simpa using h
      · simpa using h
    subst hsize
    refine ⟨rfl, Nat.pos_of_ne_zero ?_⟩
    rintro rfl
    exact hne rfl

/-- Nothing to continue: nothing was found at the target, or nothing in it. -/
theorem continueFrom_none {job : Job} {there here : Except Fault (Option Nat)}
    (h : continueFrom job there here = .ok none) :
    there = .ok none ∨ there = .ok (some 0) := by
  unfold continueFrom at h
  split at h
  · cases h
  split at h
  · cases h
  split at h
  · cases h
  · exact Or.inl rfl
  · exact Or.inr rfl
  · split at h
    · cases h
    · split at h <;> cases h
    · cases h

theorem spread_some {job : Job} {here : Except Fault (Option Nat)} {s : Spread}
    (h : spread job here = .ok (some s)) :
    ∃ src dst, job.src = some src ∧ job.dst = some dst ∧ divisible src dst = true ∧
      here = .ok (some s.size) ∧ 1 < s.workers := by
  unfold spread at h
  split at h
  · next src dst hsrc hdst =>
    split at h
    · cases h
    next hdiv =>
    simp only [Bool.or_eq_true, Bool.not_eq_true', not_or] at hdiv
    refine ⟨src, dst, hsrc, hdst, by simpa using hdiv.2, ?_⟩
    split at h
    · cases h
    · cases h
    · simp only [Except.ok.injEq, Option.ite_none_right_eq_some, Option.some.injEq] at h
      obtain ⟨hworkers, rfl⟩ := h
      exact ⟨rfl, hworkers⟩
  · cases h

theorem planned_of_plan {job : Job} {resume : Bool} {sources : Nat}
    {there here : Except Fault (Option Nat)} {p : Plan}
    (h : plan job resume sources there here = .ok p) :
    Planned job resume sources there here p := by
  unfold plan at h
  split at h
  · cases h
  · next hseveral =>
    cases h
    exact several_some hseveral there here
  split at h
  · cases h
  · next offset hcont =>
    cases h
    split at hcont
    · next hresume =>
      obtain ⟨hover, hsrc, hdst, hthere, hpos⟩ := continueFrom_some hcont
      exact .resumed hresume hover hsrc hdst hthere hpos
    · cases hcont
  next hcont =>
  have hfresh : resume = true → there = .ok none ∨ there = .ok (some 0) := by
    intro hresume
    rw [if_pos hresume] at hcont
    exact continueFrom_none hcont
  split at h
  · cases h
    exact .oneStream hfresh
  split at h
  · next husable =>
    cases h
    exact .bulk hfresh husable
  split at h
  · cases h
  · next s hspread =>
    cases h
    cases s with
    | none => exact .oneStream hfresh
    | some s =>
      obtain ⟨src, dst, hsrc, hdst, hdiv, hhere, hworkers⟩ := spread_some hspread
      exact .spans hfresh hsrc hdst hdiv hhere hworkers

/-- The bulk plane writes a local file or an open stream. -/
theorem bulkUsable_dst {job : Job} (h : bulkUsable job = true) :
    job.dst = none ∨ job.dst = some .file := by
  unfold bulkUsable at h
  cases hdst : job.dst with
  | none => exact Or.inl rfl
  | some dst =>
    simp only [hdst, Bool.and_eq_true, Scheme.isLocal, beq_iff_eq] at h
    exact Or.inr (congrArg some h.2)

theorem bulkUsable_src {job : Job} (h : bulkUsable job = true) :
    ∃ src, job.src = some src ∧ src.scheme = .root := by
  unfold bulkUsable at h
  cases hsrc : job.src with
  | none => simp [hsrc] at h
  | some src =>
    simp only [hsrc, Bool.and_eq_true, Scheme.isRoot, beq_iff_eq] at h
    exact ⟨src, rfl, h.1.2.1⟩

end XrdClient.Copy
