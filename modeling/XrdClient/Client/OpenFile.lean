/-
  Client/OpenFile.lean --- an open file: what its handle keeps, and the requests that name it.

  Source: `client/_handle.py`, `_execute`, `_bulk`, `_reopen`, `stat` and `size`.

  `File` is what the handle keeps, and with it what the server has of the file.  One
  thread uses the handle, and nobody aborts it.  Which data paths a file has is not kept:
  what goes down one of them is part of what a request meets.

  What a request meets is given from outside: a `Meeting` for each attempt, a `Way` for a
  request that may go down a data path.
-/
import XrdClient.Lib.Act
import XrdClient.Session.Into

set_option autoImplicit false

namespace XrdClient.Client

open XrdClient.Lib

/-- What is raised by a call on a file. -/
inductive FileError where
  /-- `ValueError`: "I/O operation on closed file". -/
  | closed
  /-- `TooLargeError`. -/
  | tooLarge (size : Nat) (limit : Int)
  /-- `TransientError`: a lost connection. -/
  | transient
  /-- `OperationExpiredError`. -/
  | expired
  /-- `WaitLimitError`. -/
  | waitLimit
  | zeroDivision
  /-- `ValueError`: a size below 0, or what a bulk reader cannot be made with. -/
  | value
  /-- `struct.error`: a number is past its field. -/
  | field
  | protocol
  /-- `PageIntegrityError`. -/
  | pageIntegrity (offset : Int)
  | unsupported
  /-- `BulkUnsupported`. -/
  | bulkUnsupported
  /-- What the server answers in place of an answer. -/
  | server (code : Nat)
  /-- `io.UnsupportedOperation`. -/
  | mode
  /-- `OSError`. -/
  | os (errno : Nat)
  /-- What a callback of the caller raised. -/
  | caller
  /-- A loop that never ends. -/
  | never
  deriving DecidableEq

/-- The options of an open that say what the handle may do. -/
structure OpenFlags where
  write : Bool := false
  update : Bool := false
  new : Bool := false
  delete : Bool := false
  append : Bool := false
  deriving DecidableEq

/-- `_flags & _WRITING`. -/
def OpenFlags.writing (f : OpenFlags) : Bool := f.write || f.update || f.new || f.delete || f.append

/-- What of `Config` a file reads. -/
structure FileConfig where
  bulk : Bool := true
  readahead : Int := 1048576
  chunkSize : Int := 4194304
  bulkChunk : Int := 4194304
  bulkDepth : Int := 4
  maxReadSize : Int := 1073741824
  connectRetries : Int := 3
  recoverHandles : Bool := true
  deriving DecidableEq

/-- An open file, and what the server has of it. -/
structure File where
  config : FileConfig
  flags : OpenFlags
  /-- `_handle` is there. -/
  isOpen : Bool := true
  /-- `_stat`, for its size. -/
  stat : Option Nat := none
  sizeHint : Nat := 0
  checkpoint : Bool := false
  pathid : Nat := 0
  ahead : Nat × Bytes := (0, [])
  sequel : Int := -1
  window : Int := config.readahead
  recoveries : Nat := 0
  /-- `recover_handles`, of this one file. -/
  recoverHandles : Option Bool := none
  /-- The file on the server. -/
  server : Bytes
  /-- The file as it was when the checkpoint began. -/
  journal : Bytes := []
  deriving DecidableEq

/-- What a re-open meets. -/
inductive Reopening where
  | refused (e : FileError)
  /-- The server may tell what it has of the file. -/
  | opened (told : Bool)
  deriving DecidableEq

/-- What one attempt at a request meets: a re-open, if there is one before it, and what is
raised in place of an answer. -/
structure Meeting where
  reopening : Reopening := .opened true
  raised : Option FileError := none
  deriving DecidableEq

/-- What an attempt raises on a file that is open, or is opened again first. -/
def Meeting.comes (m : Meeting) (again : Bool) : Option FileError :=
  match again, m.reopening with
  | true, .refused e => some e
  | _, _ => m.raised

/-- How a request for bytes is run: down a data path that answers it there, split over one,
or over the control link. -/
structure Way where
  arrives : Bool := false
  split : Option (Nat → Meeting) := none
  control : Nat → Meeting := fun _ => {}

namespace File

abbrev Op (α : Type) : Type := Act File FileError α

/-- `recoverable`. -/
def recoverable (f : File) : Bool := f.recoverHandles.getD f.config.recoverHandles && !f.flags.writing

/-- `handle`. -/
def handle : Op Unit := do
  let f ← Act.get
  if f.isOpen then pure () else Act.throw .closed

/-- The server says how long the file is. -/
def told (f : File) : File := { f with stat := some f.server.length, sizeHint := f.server.length }

/-- What a re-open forgets. -/
def forgotten (f : File) : File :=
  { f with stat := none, pathid := 0, ahead := (0, []), sequel := -1, recoveries := f.recoveries + 1 }

/-- `_reopen`. -/
def reopen : Reopening → Op Unit
  | .refused e => do
      Act.modify fun f => { f.forgotten with isOpen := false }
      Act.throw e
  | .opened tells =>
      Act.modify fun f => { (if tells then f.forgotten.told else f.forgotten) with isOpen := true }

/-- What `_execute` meets with a re-open: a lost connection, on a handle that can be had again. -/
def survives (f : File) : FileError → Bool
  | .transient => f.recoverable
  | _ => false

/-- One attempt of `_execute`. -/
def attempt (m : Meeting) (again : Bool) : Op Unit := do
  if again then reopen m.reopening
  handle
  match m.raised with
  | none => pure ()
  | some e => Act.throw e

/-- `_execute`: the attempts that are left, and the number of this one. -/
def execute (meets : Nat → Meeting) : Nat → Nat → Bool → Op Unit
  | 0, i, again => attempt (meets i) again
  | left + 1, i, again =>
      Act.tryExcept (attempt (meets i) again) fun e => do
        let f ← Act.get
        if f.survives e then execute meets left (i + 1) true else Act.throw e

/-- A request that names the handle. -/
def request (meets : Nat → Meeting) : Op Unit := do
  let f ← Act.get
  execute meets f.config.connectRetries.toNat 0 false

/-- `stat`. -/
def askStat (refresh : Bool) (meets : Nat → Meeting) : Op Nat := do
  let f ← Act.get
  match f.stat, refresh with
  | some size, false => pure size
  | _, _ => do
      request meets
      Act.modify told
      let f ← Act.get
      pure f.server.length

/-- `size`. -/
def size (meets : Nat → Meeting) : Op Nat := do
  let f ← Act.get
  match f.stat with
  | some _ => pure f.sizeHint
  | none => askStat false meets

/-- `_bulk`, of a read. -/
def bulkRead (way : Way) : Op Unit := do
  let f ← Act.get
  if way.arrives && f.isOpen then pure ()
  else match way.split with
    | none => request way.control
    | some split =>
        Act.tryExcept (request split) fun e => do
          let f ← Act.get
          if f.isOpen then request way.control else Act.throw e

/-! ## A file that a call leaves as it is -/

section

-- what is kept of the file ahead of the reads
variable (A : Nat × Bytes → Int → Int → Prop)

/-- `s` is the file `b`, whatever was asked of it: what the server has is the same, and what the
handle knows of that is right. -/
structure Steady (b s : File) : Prop where
  config : s.config = b.config
  flags : s.flags = b.flags
  recoverHandles : s.recoverHandles = b.recoverHandles
  checkpoint : s.checkpoint = b.checkpoint
  journal : s.journal = b.journal
  server : s.server = b.server
  told : ∀ n, s.stat = some n → n = b.server.length ∧ s.sizeHint = b.server.length
  ahead : A s.ahead s.sequel s.window

/-- Nothing that is kept ahead outlives a re-open. -/
def Resets : Prop := ∀ ahead sequel window, A ahead sequel window → A (0, []) (-1) window

variable {A} {b s : File}

theorem Steady.recoverable (h : Steady A b s) : s.recoverable = b.recoverable := by
  rw [File.recoverable, h.recoverHandles, h.config, h.flags]
  rfl

theorem Steady.survives (h : Steady A b s) (e : FileError) : s.survives e = b.survives e := by
  cases e <;> first | rfl | exact h.recoverable

theorem Steady.of_told (h : Steady A b s) : Steady A b s.told :=
  ⟨h.config, h.flags, h.recoverHandles, h.checkpoint, h.journal, h.server,
    fun _ hn => ⟨(Option.some.inj hn).symm.trans (congrArg List.length h.server),
      congrArg List.length h.server⟩, h.ahead⟩

theorem Steady.of_forgotten (hreset : Resets A) (h : Steady A b s) : Steady A b s.forgotten :=
  ⟨h.config, h.flags, h.recoverHandles, h.checkpoint, h.journal, h.server, nofun,
    hreset _ _ _ h.ahead⟩

theorem Steady.withOpen (h : Steady A b s) (isOpen : Bool) :
    Steady A b { s with isOpen := isOpen } :=
  ⟨h.config, h.flags, h.recoverHandles, h.checkpoint, h.journal, h.server, h.told, h.ahead⟩

variable {o : Prop}

/-- Steady, and open if `o` says so. -/
def Standing (A : Nat × Bytes → Int → Int → Prop) (o : Prop) (b s : File) : Prop :=
  Steady A b s ∧ (o → s.isOpen = true)

theorem handle_spec : Act.Spec (Standing A o b) handle
    (fun _ s => Steady A b s ∧ s.isOpen = true) (fun _ s => Steady A b s ∧ ¬ o) := by
  refine Act.Spec.of_each fun f hf => Act.Spec.get_bind (Act.Spec.ite (fun hin => ?_) fun hno => ?_)
  · exact Act.Spec.pure _ fun s hs => hs ▸ ⟨hf.1, hin⟩
  · exact Act.Spec.throw _ fun s hs => hs ▸ ⟨hf.1, fun ho => hno (hf.2 ho)⟩

theorem reopen_spec (hreset : Resets A) (r : Reopening) : Act.Spec (Steady A b) (reopen r)
    (fun _ s => (∃ told, r = .opened told) ∧ Steady A b s ∧ s.isOpen = true)
    (fun e s => r = .refused e ∧ Steady A b s) := by
  intro s hs
  cases r with
  | refused e => exact ⟨rfl, (hs.of_forgotten hreset).withOpen false⟩
  | opened told =>
    refine ⟨⟨told, rfl⟩, ?_, rfl⟩
    cases told
    · exact (hs.of_forgotten hreset).withOpen true
    · exact (hs.of_forgotten hreset).of_told.withOpen true

theorem attempt_spec (hreset : Resets A) (m : Meeting) (again : Bool) :
    Act.Spec (Standing A (o ∧ again = false) b) (attempt m again)
      (fun _ s => Steady A b s ∧ s.isOpen = true)
      (fun e s => Steady A b s ∧ (o → m.comes again = some e)) := by
  have hraises : ∀ {again : Bool}, m.comes again = m.raised →
      Act.Spec (fun s => Steady A b s ∧ s.isOpen = true)
        (match m.raised with
          | none => pure ()
          | some e => Act.throw e) (fun _ s => Steady A b s ∧ s.isOpen = true)
        (fun e s => Steady A b s ∧ (o → m.comes again = some e)) := by
    intro again hcomes
    cases hraised : m.raised with
    | none => exact Act.Spec.pure _ fun s hs => hs
    | some e => exact Act.Spec.throw _ fun s hs => ⟨hs.1, fun _ => by rw [hcomes, hraised]⟩
  cases again with
  | false =>
    refine Act.Spec.bind (Q := fun _ s => Steady A b s ∧ s.isOpen = true)
      (handle_spec.conseq (fun s hs => hs) (fun _ s hs => hs) fun e s hs => ?_) fun _ => hraises rfl
    exact ⟨hs.1, fun ho => absurd ⟨ho, rfl⟩ hs.2⟩
  | true =>
    refine Act.Spec.bind (Q := fun _ s => (∃ told, m.reopening = .opened told) ∧
        Steady A b s ∧ s.isOpen = true)
      ((reopen_spec hreset m.reopening).conseq (fun s hs => hs.1) (fun _ s hs => hs) fun e s hs => ?_)
      fun _ => ?_
    · refine ⟨hs.2, fun _ => ?_⟩
      simp only [Meeting.comes, hs.1]
    refine Act.Spec.of_each fun f hf => ?_
    obtain ⟨⟨told, htold⟩, hsteady, hopen⟩ := hf
    refine Act.Spec.bind (Q := fun _ s => Steady A b s ∧ s.isOpen = true)
      ((handle_spec (o := True)).conseq (fun s hs => hs ▸ ⟨hsteady, fun _ => hopen⟩)
        (fun _ s hs => hs) fun e s hs => absurd trivial hs.2) fun _ => hraises ?_
    simp only [Meeting.comes, htold]

/-- A request is answered, after as many re-opens as there may be. -/
def AnsweredFrom (b : File) (meets : Nat → Meeting) : Nat → Nat → Bool → Prop
  | 0, i, again => (meets i).comes again = none
  | left + 1, i, again =>
      match (meets i).comes again with
      | none => True
      | some e => b.survives e = true ∧ AnsweredFrom b meets left (i + 1) true

def Answered (b : File) (meets : Nat → Meeting) : Prop :=
  AnsweredFrom b meets b.config.connectRetries.toNat 0 false

theorem execute_spec (hreset : Resets A) (meets : Nat → Meeting) (left : Nat) : ∀ (i : Nat) (again : Bool),
    (o → AnsweredFrom b meets left i again) →
    Act.Spec (Standing A (o ∧ again = false) b) (execute meets left i again)
      (fun _ s => Steady A b s ∧ s.isOpen = true) (fun _ s => Steady A b s ∧ ¬ o) := by
  induction left with
  | zero =>
    intro i again hfair
    refine (attempt_spec hreset (meets i) again).conseq (fun _ hs => hs) (fun _ _ hs => hs)
      fun e s hs => ⟨hs.1, fun ho => ?_⟩
    have hanswered : (meets i).comes again = none := hfair ho
    rw [hs.2 ho] at hanswered
    cases hanswered
  | succ left ih =>
    intro i again hfair
    refine Act.Spec.tryExcept (attempt_spec hreset (meets i) again) fun e =>
      Act.Spec.of_each fun f hf => Act.Spec.get_bind ?_
    have hnext : o → b.survives e = true ∧ AnsweredFrom b meets left (i + 1) true := fun ho => by
      have hanswered := hfair ho
      rwa [AnsweredFrom, hf.2 ho] at hanswered
    rw [hf.1.survives e]
    refine Act.Spec.ite (fun _ => ?_) fun hno => ?_
    · refine (ih (i + 1) true fun ho => (hnext ho).2).conseq (fun s hs => ?_) (fun _ s hs => hs)
        fun _ s hs => hs
      exact hs ▸ ⟨hf.1, fun h => absurd h.2 (by decide)⟩
    · exact Act.Spec.throw _ fun s hs => hs ▸ ⟨hf.1, fun ho => hno (hnext ho).1⟩

theorem request_spec (hreset : Resets A) {meets : Nat → Meeting} (hfair : o → Answered b meets) :
    Act.Spec (Standing A o b) (request meets) (fun _ s => Steady A b s ∧ s.isOpen = true)
      (fun _ s => Steady A b s ∧ ¬ o) := by
  refine Act.Spec.of_each fun f hf => Act.Spec.get_bind ?_
  have hretries : f.config.connectRetries.toNat = b.config.connectRetries.toNat := by
    rw [hf.1.config]
  rw [hretries]
  exact (execute_spec hreset meets _ 0 false hfair).conseq
    (fun s hs => hs ▸ ⟨hf.1, fun ho => hf.2 ho.1⟩) (fun _ s hs => hs) fun _ s hs => hs

/-- What a handle is told of the size is what the server has. -/
theorem askStat_spec (hreset : Resets A) {meets : Nat → Meeting} (hfair : o → Answered b meets)
    (refresh : Bool) : Act.Spec (Standing A o b) (askStat refresh meets)
      (fun n s => n = b.server.length ∧ Standing A o b s) (fun _ s => Steady A b s ∧ ¬ o) := by
  refine Act.Spec.of_each fun f hf => Act.Spec.get_bind ?_
  have hasked : Act.Spec (fun s => s = f)
      (do
        request meets
        Act.modify told
        let f ← Act.get
        pure f.server.length)
      (fun n s => n = b.server.length ∧ Standing A o b s) (fun _ s => Steady A b s ∧ ¬ o) := by
    refine Act.Spec.bind ((request_spec hreset hfair).conseq (fun s hs => hs ▸ hf) (fun _ s hs => hs)
      fun _ s hs => hs) fun _ => Act.Spec.of_each fun f hf => Act.Spec.modify_bind (Act.Spec.get_bind
        (Act.Spec.pure _ fun s hs => ?_))
    subst hs
    exact ⟨congrArg List.length hf.1.server, hf.1.of_told, fun _ => hf.2⟩
  cases hstat : f.stat with
  | none => exact hasked
  | some n =>
    cases refresh with
    | true => exact hasked
    | false => exact Act.Spec.pure _ fun s hs => hs ▸ ⟨(hf.1.told n hstat).1, hf⟩

/-- The size that a handle gives is what the server has. -/
theorem size_spec (hreset : Resets A) {meets : Nat → Meeting} (hfair : o → Answered b meets) :
    Act.Spec (Standing A o b) (size meets)
      (fun n s => n = b.server.length ∧ Standing A o b s) (fun _ s => Steady A b s ∧ ¬ o) := by
  refine Act.Spec.of_each fun f hf => Act.Spec.get_bind ?_
  cases hstat : f.stat with
  | some n =>
    refine Act.Spec.pure _ fun s hs => ?_
    subst hs
    exact ⟨(hf.1.told n hstat).2, hf⟩
  | none =>
    exact (askStat_spec hreset hfair false).conseq (fun s hs => hs ▸ hf) (fun _ _ hs => hs)
      fun _ _ hs => hs

/-- A request for bytes is answered, on some path: one that is split over a data path may be
declined there. -/
def Serves (b : File) (way : Way) : Prop :=
  way.arrives = true ∨ match way.split with
    | none => Answered b way.control
    | some split => Answered b split ∨
        (∃ e, (split 0).comes false = some e ∧ b.survives e = false) ∧ Answered b way.control

/-- A request that is not tried again leaves the file as it was. -/
theorem request_declined {meets : Nat → Meeting} {e : FileError} {f : File} (hopen : f.isOpen = true)
    (hcomes : (meets 0).comes false = some e) (hdeclined : f.survives e = false) :
    request meets f = (.error e, f) := by
  have hattempt : attempt (meets 0) false f = (.error e, f) := by
    have hhandle : handle f = (.ok (), f) := by
      show (if f.isOpen = true then (pure () : Op Unit) else Act.throw .closed) f = _
      rw [if_pos hopen]
      rfl
    show (handle >>= fun _ => match (meets 0).raised with
      | none => pure ()
      | some e => Act.throw e) f = _
    rw [Act.bind_of_ok hhandle, show (meets 0).raised = some e from hcomes]
    rfl
  show execute meets f.config.connectRetries.toNat 0 false f = _
  cases f.config.connectRetries.toNat with
  | zero => exact hattempt
  | succ left =>
    simp only [execute, Act.tryExcept, hattempt, Act.bind_apply, Act.get, hdeclined]
    rfl

theorem bulkRead_spec (hreset : Resets A) {way : Way} (hfair : o → Serves b way) :
    Act.Spec (Standing A o b) (bulkRead way) (fun _ s => Steady A b s ∧ s.isOpen = true)
      (fun _ s => Steady A b s ∧ ¬ o) := by
  refine Act.Spec.of_each fun f hf => Act.Spec.get_bind (Act.Spec.ite (fun harrives => ?_) fun hno => ?_)
  · rw [Bool.and_eq_true] at harrives
    exact Act.Spec.pure _ fun s hs => hs ▸ ⟨hf.1, harrives.2⟩
  have hserved : o → match way.split with
      | none => Answered b way.control
      | some split => Answered b split ∨
          (∃ e, (split 0).comes false = some e ∧ b.survives e = false) ∧ Answered b way.control :=
    fun ho => (hfair ho).resolve_left fun harrives => hno (by rw [harrives, hf.2 ho]; rfl)
  cases hsplit : way.split with
  | none =>
    rw [hsplit] at hserved
    exact (request_spec hreset hserved).conseq (fun s hs => hs ▸ hf) (fun _ s hs => hs) fun _ s hs => hs
  | some split =>
    rw [hsplit] at hserved
    -- the control link takes what the path did not
    have hcontrol : ∀ {o' : Prop}, (o' → Answered b way.control) → ∀ e,
        Act.Spec (fun s => Steady A b s ∧ (o' → s.isOpen = true))
          (do
            let f ← Act.get
            if f.isOpen then request way.control else Act.throw e)
          (fun _ s => Steady A b s ∧ s.isOpen = true) (fun _ s => Steady A b s ∧ ¬ o') := by
      intro o' hanswered e
      refine Act.Spec.of_each fun g hg => Act.Spec.get_bind (Act.Spec.ite (fun _ => ?_) fun hclosed => ?_)
      · exact (request_spec hreset hanswered).conseq (fun s hs => hs ▸ hg) (fun _ s hs => hs)
          fun _ s hs => hs
      · exact Act.Spec.throw _ fun s hs => hs ▸ ⟨hg.1, fun ho => hclosed (hg.2 ho)⟩
    by_cases ho : o
    · obtain hanswered | ⟨⟨e, hcomes, hdeclined⟩, hanswered⟩ := hserved ho
      · exact Act.Spec.tryExcept ((request_spec hreset fun _ : o => hanswered).conseq
          (fun s hs => hs ▸ hf) (fun _ s hs => hs) fun _ s hs => hs) fun e =>
          Act.Spec.of_each fun g hg => absurd ho hg.2
      · have hfirst : Act.Spec (fun s => s = f) (request split) (fun _ s => Steady A b s ∧ s.isOpen = true)
            (fun _ s => Steady A b s ∧ (o → s.isOpen = true)) := by
          rintro s rfl
          rw [request_declined (hf.2 ho) hcomes ((hf.1.survives e).trans hdeclined)]
          exact hf
        exact Act.Spec.tryExcept hfirst (hcontrol fun _ => hanswered)
    · have hfirst : Act.Spec (fun s => s = f) (request split) (fun _ s => Steady A b s ∧ s.isOpen = true)
          (fun _ s => Steady A b s ∧ (False → s.isOpen = true)) :=
        (request_spec (o := False) hreset nofun).conseq (fun s hs => hs ▸ ⟨hf.1, nofun⟩)
          (fun _ s hs => hs) fun _ s hs => ⟨hs.1, nofun⟩
      exact (Act.Spec.tryExcept hfirst (hcontrol nofun)).conseq (fun s hs => hs) (fun _ s hs => hs)
        fun _ s hs => ⟨hs.1, ho⟩

end

end File

end XrdClient.Client
