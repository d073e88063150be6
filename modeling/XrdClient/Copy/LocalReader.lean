/-
  Copy/LocalReader.lean --- a local file that is opened again when the filesystem forgets it.

  Source: `copy/_local.py`, `_RecoveringLocalReader`.

  A handle is a descriptor of the operating system: it stays on the generation that it
  was opened on, and has a position of its own, which an operation that fails may have
  moved.  `content` says what the bytes of a generation are, by its identity.  What one
  attempt and the reopening behind it meet is a `Trial`.
-/
import XrdClient.Lib.Bytes
import XrdClient.Lib.Extent

set_option autoImplicit false

namespace XrdClient.Copy.LocalReader

open XrdClient.Lib

/-! ## The filesystem -/

inductive Errno where
  | EAGAIN | EBUSY | EINTR | ESTALE | ETIMEDOUT | EINVAL
  | other (number : Nat)
  deriving DecidableEq

/-- `_TRANSIENT_LOCAL_READ_ERRORS`. -/
def TRANSIENT : List Errno := [.EAGAIN, .EBUSY, .EINTR, .ESTALE, .ETIMEDOUT]

/-- `_file_identity`. -/
structure Identity where
  dev : Int
  ino : Int
  size : Int
  mtime : Int
  ctime : Int
  deriving DecidableEq

/-- An open descriptor. -/
structure Handle where
  generation : Identity
  position : Nat
  deriving DecidableEq

/-- What is asked of a handle. -/
inductive Operation where
  /-- So many bytes, or all. -/
  | read (wanted : Option Nat)
  | seek (offset : Int) (whence : Nat)
  deriving DecidableEq

/-- What comes back. -/
inductive Value where
  | bytes (data : Bytes)
  /-- `None`: there is nothing yet. -/
  | nothing
  | position (p : Nat)
  deriving DecidableEq

/-- What the filesystem makes of one attempt. -/
inductive Attempt where
  /-- It succeeds.  A read may come short of what was asked, not of everything. -/
  | done (short : Option Nat)
  | nothing
  /-- It fails, before or after it moved the handle, or halfway. -/
  | fails (e : Errno) (position : Nat)
  deriving DecidableEq

/-- What there is behind the name. -/
inductive Reopening where
  | refused (e : Errno)
  | opened (generation : Identity) (stat seek : Option Errno)
  deriving DecidableEq

structure Trial where
  attempt : Attempt
  reopening : Reopening
  deriving DecidableEq

section

variable (content : Identity → Bytes)

/-- Where a seek leads, if it leads anywhere. -/
def target (h : Handle) (offset : Int) (whence : Nat) : Option Nat :=
  let base : Option Int := match whence with
    | 0 => some 0
    | 1 => some h.position
    | 2 => some (content h.generation).length
    | _ => none
  base.bind fun b => if 0 ≤ b + offset then some (b + offset).toNat else none

def Handle.perform (h : Handle) (op : Operation) (a : Attempt) : Except Errno Value × Handle :=
  match a, op with
  | .fails e position, _ => (.error e, { h with position := position })
  | .nothing, .read _ => (.ok .nothing, h)
  | .done short, .read wanted =>
      let rest := (content h.generation).drop h.position
      let asked := wanted.getD rest.length
      let data := rest.take (match short with
        | none => asked
        | some k => min asked (k + 1))
      (.ok (.bytes data), { h with position := h.position + data.length })
  | _, .seek offset whence =>
      match target content h offset whence with
      | none => (.error .EINVAL, h)
      | some p => (.ok (.position p), { h with position := p })

/-! ## The reader -/

inductive Raised where
  | os (e : Errno)
  /-- `ValueError`: the handle is closed. -/
  | closed
  /-- `TypeError`: `None` has no length. -/
  | none
  deriving DecidableEq

structure Reader where
  /-- `_handle`, while it is open. -/
  handle : Option Handle
  identity : Identity
  position : Nat := 0
  /-- `_recovery_chunk` is set. -/
  recovering : Bool := false
  deriving DecidableEq

def RECOVERY_CHUNK : Nat := 4096

/-- The reopening in `_retry`. -/
def Reader.reopen (r : Reader) : Reopening → Except Errno Handle
  | .refused e => .error e
  | .opened _ (some e) _ => .error e
  | .opened _ none (some e) => .error e
  | .opened generation none none =>
      if generation = r.identity then .ok ⟨generation, r.position⟩ else .error .ESTALE

/-- `_retry`: how many attempts there were, and what came of the last. -/
def Reader.retry (operation : Bool → Operation) (trials : Nat → Trial) :
    Nat → Nat → Reader → Nat × Except Raised Value × Reader
  | left, i, r =>
      match r.handle with
      | none => (i + 1, .error .closed, r)
      | some h =>
          match h.perform content (operation r.recovering) (trials i).attempt with
          | (.ok value, h) => (i + 1, .ok value, { r with handle := some h })
          | (.error e, h) =>
              match left, decide (e ∈ TRANSIENT) with
              | left + 1, true =>
                  let r := { r with handle := none, recovering := true }
                  match r.reopen (trials i).reopening with
                  | .error e => (i + 1, .error (.os e), r)
                  | .ok h => Reader.retry operation trials left (i + 1) { r with handle := some h }
              | _, _ => (i + 1, .error (.os e), { r with handle := some h })

/-- A call on the reader. -/
inductive Call where
  | read (size : Int)
  | readinto (length : Nat)
  | seek (offset : Int) (whence : Nat)
  deriving DecidableEq

/-- What a call asks of the handle, while recovering or not. -/
def Call.operation : Call → Bool → Operation
  | .read size, recovering =>
      if recovering ∧ (size < 0 ∨ (RECOVERY_CHUNK : Int) < size) then .read (some RECOVERY_CHUNK)
      else .read (if size < 0 then none else some size.toNat)
  | .readinto length, recovering => .read (some (if recovering then min length RECOVERY_CHUNK else length))
  | .seek offset whence, _ => .seek offset whence

/-- `read`, `readinto` or `seek`; of `readinto` the bytes that land in the buffer. -/
def Reader.call (connectRetries : Int) (r : Reader) (call : Call) (trials : Nat → Trial) :
    Nat × Except Raised Value × Reader :=
  match r.retry content call.operation trials connectRetries.toNat 0 with
  | (attempts, .error e, r) => (attempts, .error e, r)
  | (attempts, .ok .nothing, r) => (attempts, .error .none, r)
  | (attempts, .ok (.bytes data), r) =>
      (attempts, .ok (.bytes data), { r with position := r.position + data.length })
  | (attempts, .ok (.position p), r) => (attempts, .ok (.position p), { r with position := p })

/-- `__init__`: the loop that opens the file. -/
def open_ (opens : Nat → Except Errno Identity) (stat : Option Errno) : Nat → Nat → Nat × Except Errno Reader
  | left, i =>
      match opens i with
      | .ok generation =>
          match stat with
          | some e => (i + 1, .error e)
          | none => (i + 1, .ok { handle := some ⟨generation, 0⟩, identity := generation })
      | .error e =>
          match left, decide (e ∈ TRANSIENT) with
          | left + 1, true => open_ opens stat left (i + 1)
          | _, _ => (i + 1, .error e)

/-- A call that was made: the reader before and after it, and what came of it. -/
structure Made where
  before : Reader
  call : Call
  attempts : Nat
  result : Except Raised Value
  after : Reader

/-- A sequence of calls. -/
def Reader.run (connectRetries : Int) : Reader → List (Call × (Nat → Trial)) → List Made
  | _, [] => []
  | r, (call, trials) :: rest =>
      let out := r.call content connectRetries call trials
      ⟨r, call, out.1, out.2.1, out.2.2⟩ :: Reader.run connectRetries out.2.2 rest

/-! ## What an attempt leaves -/

@[simp] theorem Handle.perform_fails (h : Handle) (op : Operation) (e : Errno) (p : Nat) :
    h.perform content op (.fails e p) = (.error e, { h with position := p }) := by
  cases op <;> rfl

/-- What an attempt that succeeded did. -/
inductive Handle.Performed (h : Handle) : Operation → Value → Handle → Prop where
  | read (wanted : Option Nat) (count : Nat)
      (hcount : count = 0 → wanted = some 0 ∨ (content h.generation).length ≤ h.position) :
      Handle.Performed h (.read wanted)
        (.bytes (((content h.generation).drop h.position).take count))
        { h with position := h.position
            + (((content h.generation).drop h.position).take count).length }
  | nothing (wanted : Option Nat) : Handle.Performed h (.read wanted) .nothing h
  | seek (offset : Int) (whence p : Nat) (htarget : target content h offset whence = some p) :
      Handle.Performed h (.seek offset whence) (.position p) { h with position := p }

theorem Handle.performed_of_ok {h h' : Handle} {op : Operation} {a : Attempt} {value : Value}
    (hok : h.perform content op a = (.ok value, h')) : h.Performed content op value h' := by
  match a, op with
  | .fails e p, op => simp at hok
  | .nothing, .read wanted =>
      simp only [Handle.perform, Prod.mk.injEq, Except.ok.injEq] at hok
      obtain ⟨rfl, rfl⟩ := hok
      exact .nothing wanted
  | .done short, .read wanted =>
      simp only [Handle.perform, Prod.mk.injEq, Except.ok.injEq] at hok
      obtain ⟨rfl, rfl⟩ := hok
      refine .read wanted _ fun hzero => ?_
      cases short <;> cases wanted <;>
        simp only [Option.getD_none, Option.getD_some, List.length_drop, Option.some.injEq,
          reduceCtorEq, false_or] at hzero ⊢ <;> omega
  | .nothing, .seek offset whence | .done _, .seek offset whence =>
      cases htarget : target content h offset whence with
      | none => simp [Handle.perform, htarget] at hok
      | some p =>
          simp only [Handle.perform, htarget, Prod.mk.injEq, Except.ok.injEq] at hok
          obtain ⟨rfl, rfl⟩ := hok
          exact .seek offset whence p htarget

/-! ## The handle and the position -/

/-- The handle, while there is one, stands at the position in the first generation. -/
def Reader.Level (r : Reader) : Prop :=
  r.handle = none ∨ r.handle = some ⟨r.identity, r.position⟩

/-- The attempt at which the operation gives up, if it does, leaves the handle at the
position. -/
def Reader.Stays (operation : Bool → Operation) (trials : Nat → Trial) :
    Nat → Nat → Reader → Prop
  | left, i, r =>
      match r.handle with
      | none => True
      | some h =>
          match h.perform content (operation r.recovering) (trials i).attempt with
          | (.ok _, _) => True
          | (.error e, h) =>
              match left, decide (e ∈ TRANSIENT) with
              | left + 1, true =>
                  let r := { r with handle := none, recovering := true }
                  match r.reopen (trials i).reopening with
                  | .error _ => True
                  | .ok h => Reader.Stays operation trials left (i + 1) { r with handle := some h }
              | _, _ => h.position = r.position

/-- Along a sequence of calls. -/
def Reader.EachStays (connectRetries : Int) : Reader → List (Call × (Nat → Trial)) → Prop
  | _, [] => True
  | r, (call, trials) :: rest =>
      r.Stays content call.operation trials connectRetries.toNat 0
        ∧ Reader.EachStays connectRetries (r.call content connectRetries call trials).2.2 rest

theorem Reader.reopen_ok {r : Reader} {reopening : Reopening} {h : Handle}
    (hok : r.reopen reopening = .ok h) : h = ⟨r.identity, r.position⟩ := by
  match reopening with
  | .refused e | .opened _ (some e) _ | .opened _ none (some e) => simp [Reader.reopen] at hok
  | .opened generation none none =>
      simp only [Reader.reopen] at hok
      split at hok
      · rename_i hsame
        rw [← hsame]
        exact (Except.ok.inj hok).symm
      · simp at hok

/-- What a retried operation leaves: the position and the generation, and either the
reader still level or one attempt that succeeded from the position. -/
structure Retried (operation : Bool → Operation) (most : Nat) (r : Reader)
    (out : Nat × Except Raised Value × Reader) : Prop where
  attempts : out.1 ≤ most
  identity : out.2.2.identity = r.identity
  position : out.2.2.position = r.position
  raised : ∀ e, out.2.1 = .error e → out.2.2.Level
  done : ∀ value, out.2.1 = .ok value → ∃ recovering h,
    Handle.Performed content ⟨r.identity, r.position⟩ (operation recovering) value h
      ∧ out.2.2.handle = some h

theorem Handle.perform_generation (h : Handle) (op : Operation) (a : Attempt) :
    (h.perform content op a).2.generation = h.generation := by
  fun_cases Handle.perform <;> rfl

theorem Reader.Level.handle_eq {r : Reader} (hlevel : r.Level) {h : Handle}
    (hhandle : r.handle = some h) : h = ⟨r.identity, r.position⟩ := by
  obtain hnone | hsome := hlevel
  · simp [hnone] at hhandle
  · exact Option.some.inj (hhandle.symm.trans hsome)

theorem Reader.retry_retried (operation : Bool → Operation) (trials : Nat → Trial)
    (left i : Nat) (r : Reader) (hlevel : r.Level)
    (hstays : r.Stays content operation trials left i) :
    Retried content operation (i + left + 1) r (r.retry content operation trials left i) := by
  fun_induction Reader.retry content operation trials left i r with
  | case1 left i r hhandle =>
      -- the handle was closed by a reopening that failed
      exact ⟨by simp, rfl, rfl, fun _ _ => hlevel, fun _ h => by simp at h⟩
  | case2 left i r h hhandle value h' hperform =>
      refine ⟨by simp, rfl, rfl, fun _ he => by simp at he, fun v hv => ?_⟩
      obtain rfl := Except.ok.inj hv
      have hperformed := Handle.performed_of_ok content hperform
      rw [hlevel.handle_eq hhandle] at hperformed
      exact ⟨r.recovering, h', hperformed, rfl⟩
  | case3 i r h hhandle e h' hperform left htransient r' e' hreopen =>
      exact ⟨by simp, rfl, rfl, fun _ _ => .inl rfl, fun _ hv => by simp at hv⟩
  | case4 i r h hhandle e h' hperform left htransient r' again hreopen ih =>
      have hagain : again = ⟨r.identity, r.position⟩ := r'.reopen_ok hreopen
      have hrest : Reader.Stays content operation trials left (i + 1)
          { r' with handle := some again } := by
        rw [Reader.Stays, hhandle] at hstays
        simpa only [hperform, htransient, hreopen, r'] using hstays
      have out := ih (.inr (congrArg some hagain)) hrest
      exact ⟨by have := out.attempts; omega, out.identity, out.position, out.raised, out.done⟩
  | case5 left i r h hhandle e h' hperform hgives =>
      refine ⟨by simp, rfl, rfl, fun _ _ => .inr ?_, fun _ hv => by simp at hv⟩
      have hgeneration := Handle.perform_generation content h (operation r.recovering)
        (trials i).attempt
      rw [hperform, hlevel.handle_eq hhandle] at hgeneration
      have hposition : h'.position = r.position := by
        rw [Reader.Stays.eq_def] at hstays
        simpa only [hhandle, hperform] using hstays
      obtain ⟨generation, position⟩ := h'
      exact congrArg some (congrArg₂ Handle.mk hgeneration hposition)

/-! ## Calls -/

/-- The call asks for bytes. -/
def Call.Asks : Call → Prop
  | .read size => size ≠ 0
  | .readinto length => length ≠ 0
  | .seek _ _ => False

/-- What is promised of a call made on the generation `first`. -/
structure Made.Sound (connectRetries : Int) (first : Identity) (m : Made) : Prop where
  attempts : (m.attempts : Int) ≤ connectRetries + 1
  /-- The bytes of that generation at the position, which moves past them. -/
  bytes : ∀ data, m.result = .ok (.bytes data) →
    data = ((content first).drop m.before.position).take data.length
      ∧ m.after.position = m.before.position + data.length
  /-- Nothing only at its end. -/
  ended : m.result = .ok (.bytes []) → m.call.Asks →
    (content first).length ≤ m.before.position
  /-- A seek leads where it leads in that generation. -/
  sought : ∀ p, m.result = .ok (.position p) →
    m.after.position = p ∧ ∃ offset whence, m.call = .seek offset whence
      ∧ target content ⟨first, m.before.position⟩ offset whence = some p
  /-- Bytes, a position, or an error. -/
  answered : m.result ≠ .ok .nothing
  raised : ∀ e, m.result = .error e → m.after.position = m.before.position

theorem Call.Asks.operation {call : Call} (hasks : call.Asks) (recovering : Bool) :
    call.operation recovering ≠ .read (some 0) := by
  cases call with
  | read size =>
      simp only [Call.Asks] at hasks
      simp only [Call.operation]
      split
      · simp [RECOVERY_CHUNK]
      · split
        · simp
        · simp only [ne_eq, Operation.read.injEq, Option.some.injEq]
          omega
  | readinto length =>
      simp only [Call.Asks] at hasks
      simp only [Call.operation, RECOVERY_CHUNK, ne_eq, Operation.read.injEq, Option.some.injEq]
      split <;> omega
  | seek offset whence => exact hasks.elim

theorem Reader.call_sound (connectRetries : Int) (hretries : 0 ≤ connectRetries) (r : Reader)
    (hlevel : r.Level) (call : Call) (trials : Nat → Trial)
    (hstays : r.Stays content call.operation trials connectRetries.toNat 0) :
    let out := r.call content connectRetries call trials
    Made.Sound content connectRetries r.identity ⟨r, call, out.1, out.2.1, out.2.2⟩
      ∧ out.2.2.Level ∧ out.2.2.identity = r.identity := by
  have hretried := r.retry_retried content call.operation trials connectRetries.toNat 0 hlevel hstays
  have hattempts : ((r.retry content call.operation trials connectRetries.toNat 0).1 : Int)
      ≤ connectRetries + 1 := by
    have := hretried.attempts
    omega
  simp only [Reader.call]
  generalize r.retry content call.operation trials connectRetries.toNat 0 = out at *
  obtain ⟨attempts, result, after⟩ := out
  cases result with
  | error e =>
      refine ⟨⟨hattempts, ?_, ?_, ?_, ?_, fun _ _ => hretried.position⟩, hretried.raised e rfl,
        hretried.identity⟩ <;> simp
  | ok value =>
      obtain ⟨recovering, h, hperformed, hafter⟩ := hretried.done value rfl
      have hidentity : after.identity = r.identity := hretried.identity
      have hposition : after.position = r.position := hretried.position
      generalize hop : call.operation recovering = op at hperformed
      cases hperformed with
      | read wanted count hcount =>
          refine ⟨⟨hattempts, fun data hdata => ?_, fun hempty hasks => ?_, by simp, by simp, by simp⟩,
            .inr ?_, hidentity⟩
          · obtain rfl := Value.bytes.inj (Except.ok.inj hdata)
            exact ⟨by simp, by simp [hposition]⟩
          · have hdata := Value.bytes.inj (Except.ok.inj hempty)
            rw [List.take_eq_nil_iff, List.drop_eq_nil_iff] at hdata
            obtain hzero | hend := hdata
            · exact (hcount hzero).resolve_left fun h => hasks.operation recovering (h ▸ hop)
            · exact hend
          · simpa only [hidentity, hposition] using hafter
      | nothing wanted =>
          exact ⟨⟨hattempts, by simp, by simp, by simp, by simp, fun _ _ => hposition⟩,
            .inr (by simpa only [hidentity, hposition] using hafter), hidentity⟩
      | seek offset whence p htarget =>
          refine ⟨⟨hattempts, by simp, by simp, fun q hq => ?_, by simp, by simp⟩,
            .inr (by simpa only [hidentity] using hafter), hidentity⟩
          obtain rfl := Value.position.inj (Except.ok.inj hq)
          cases call with
          | seek offset' whence' =>
              simp only [Call.operation, Operation.seek.injEq] at hop
              obtain ⟨rfl, rfl⟩ := hop
              exact ⟨rfl, _, _, rfl, htarget⟩
          | read size =>
              simp only [Call.operation] at hop
              split at hop <;> simp at hop
          | readinto length => simp [Call.operation] at hop

theorem Reader.run_sound (connectRetries : Int) (hretries : 0 ≤ connectRetries)
    (calls : List (Call × (Nat → Trial))) (r : Reader) (hlevel : r.Level)
    (hstays : r.EachStays content connectRetries calls) :
    ∀ m ∈ r.run content connectRetries calls, m.Sound content connectRetries r.identity := by
  induction calls generalizing r with
  | nil => simp [Reader.run]
  | cons first rest ih =>
      obtain ⟨call, trials⟩ := first
      obtain ⟨hfirst, hrest⟩ := hstays
      obtain ⟨hsound, hafter, hidentity⟩ :=
        r.call_sound content connectRetries hretries hlevel call trials hfirst
      have hruns := ih _ hafter hrest
      rw [hidentity] at hruns
      exact List.forall_mem_cons.2 ⟨hsound, hruns⟩

/-! ## Opening -/

theorem open_attempts (opens : Nat → Except Errno Identity) (stat : Option Errno) (left i : Nat) :
    (open_ opens stat left i).1 ≤ i + left + 1 := by
  fun_induction open_ opens stat left i with
  | case3 i e hfails left htransient ih => omega
  | case1 | case2 | case4 => simp

/-- A reader that was opened is at the start of what was opened. -/
theorem open_ok {opens : Nat → Except Errno Identity} {stat : Option Errno} {left i : Nat}
    {r : Reader} (hopen : (open_ opens stat left i).2 = .ok r) :
    ∃ j, opens j = .ok r.identity ∧ r = { handle := some ⟨r.identity, 0⟩, identity := r.identity } := by
  fun_induction open_ opens stat left i with
  | case1 | case4 => simp at hopen
  | case2 left i generation hgeneration =>
      obtain rfl := Except.ok.inj hopen
      exact ⟨i, hgeneration, rfl⟩
  | case3 i e hfails left htransient ih => exact ih hopen

/-- The reader reads one generation.  With retries to spare, and every call that gives up
leaving the handle at the position, each call of any sequence on a reader that was opened
returns the bytes of the generation it was opened on at its position, or raises. -/
theorem recovered_reads (connectRetries : Int) (hretries : 0 ≤ connectRetries)
    (opens : Nat → Except Errno Identity) (stat : Option Errno) :
    ((open_ opens stat connectRetries.toNat 0).1 : Int) ≤ connectRetries + 1
      ∧ ∀ r, (open_ opens stat connectRetries.toNat 0).2 = .ok r →
        (∃ i, opens i = .ok r.identity) ∧ r.position = 0
          ∧ ∀ calls, r.EachStays content connectRetries calls →
            ∀ m ∈ r.run content connectRetries calls, m.Sound content connectRetries r.identity := by
  refine ⟨?_, fun r hopen => ?_⟩
  · have := open_attempts opens stat connectRetries.toNat 0
    omega
  · obtain ⟨i, hgeneration, hr⟩ := open_ok hopen
    have hposition : r.position = 0 := congrArg Reader.position hr
    have hlevel : r.Level := .inr (by rw [hposition]; exact congrArg Reader.handle hr)
    exact ⟨⟨i, hgeneration⟩, hposition, fun calls hstays =>
      r.run_sound content connectRetries hretries calls hlevel hstays⟩

end

/-! ## A failure that moved the handle -/

/-- Five bytes, whatever the generation. -/
def five : Identity → Bytes := fun _ => [1, 2, 3, 4, 5]

def first : Identity := ⟨1, 7, 5, 100, 100⟩

/-- One attempt comes to this; nothing is opened behind the name. -/
def meets (attempt : Attempt) : Nat → Trial := fun _ => ⟨attempt, .refused .EINVAL⟩

/-- A stale handle, once, and the same file behind the name. -/
def recovers : Nat → Trial
  | 0 => ⟨.fails .ESTALE 3, .opened first none none⟩
  | _ => ⟨.done none, .refused .EINVAL⟩

/-- A read that recovers, a step back, and a read. -/
def readTwice : List (Call × (Nat → Trial)) :=
  [(.read (-1), recovers), (.seek 1 0, meets (.done none)), (.readinto 2, meets (.done none))]

theorem recovered_reads_twice : readTwice.length = 3 ∧
    ∀ m ∈ Reader.run five 1 { handle := some ⟨first, 0⟩, identity := first } readTwice,
      m.Sound five 1 first :=
  ⟨rfl, ((recovered_reads five 1 (by decide) (fun _ => .ok first) none).2 _ rfl).2.2 _
    ⟨trivial, trivial, trivial, trivial⟩⟩

/-- Three of the five bytes were read when the disk failed: the next read goes on from
there, not from the start. -/
theorem read_from_moved_handle :
    ((Reader.run five 3 { handle := some ⟨first, 0⟩, identity := first }
        [(.read (-1), meets (.fails (.other 5) 3)), (.read 2, meets (.done none))]).map
      fun m => (m.before.position, m.result))
        = [(0, .error (.os (.other 5))), (0, .ok (.bytes [4, 5]))]
    ∧ ¬ ∀ m ∈ Reader.run five 3 { handle := some ⟨first, 0⟩, identity := first }
        [(.read (-1), meets (.fails (.other 5) 3)), (.read 2, meets (.done none))],
      m.Sound five 3 first := by
  refine ⟨by decide, fun h => ?_⟩
  have hsound := h _ (List.mem_cons_of_mem _ (List.mem_singleton.2 rfl))
  exact absurd (hsound.bytes [4, 5] (by decide)).1 (by decide)

end XrdClient.Copy.LocalReader
