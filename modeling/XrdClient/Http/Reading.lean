/-
  Http/Reading.lean --- the reading half of a raw HTTP file.

  Source: `size`, `_stream`, `readinto`, `_read_live`, `readall`, `seek` and `_drop_stream` of
  `http/file.py`.

  A reader keeps a response open and reads on in it; a seek gives it up, and so does a body
  that breaks off, which is asked for again from where the reader has got to.  Beside its
  position it remembers a size and an end, which a `HEAD` declares or a read that found nothing
  has come to.

  What the reader is to be compared with is a local file, whose raw reads may be short
  (`LocalStep`).  It is one, but for a server that does not know ranges: such a server sends the
  whole body for a range behind the end, and where the reader finds nothing behind that it takes
  its own position for the size.
-/
import XrdClient.Lib.Act
import XrdClient.Lib.Bytes

set_option autoImplicit false

namespace XrdClient.Http

open XrdClient.Lib

/-! ## The code -/

/-- A fault of a request or of its connection. -/
inductive RemoteFault where
  /-- `TransientError`: the connection dropped. -/
  | transient
  /-- `TimeoutError` -/
  | timeout
  /-- `WaitLimitError` -/
  | waitLimit
  /-- Any other `ConnectionError`. -/
  | connection
  /-- Any other error. -/
  | request
  deriving DecidableEq

/-- Whether `readinto` resumes behind it. -/
def RemoteFault.resumes : RemoteFault → Bool
  | .transient | .connection => true
  | _ => false

/-- What a call of a reader raises. -/
inductive ReadFault where
  | remote (fault : RemoteFault)
  /-- `UnsupportedOperation`: the mode does not read. -/
  | unsupported
  /-- `TooLargeError` -/
  | tooLarge (size : Nat)
  /-- `OSError`: a seek to a negative place. -/
  | negative (target : Int)
  /-- `ValueError`: a whence that is none. -/
  | whence (whence : Int)
  /-- A loop that is cut off. -/
  | spent
  deriving DecidableEq

/-- Whether `readinto` resumes behind it. -/
def ReadFault.resumes : ReadFault → Bool
  | .remote fault => fault.resumes
  | _ => false

structure Response where
  status : Nat
  body : Bytes

/-- What becomes of one attempt to read. -/
structure Attempt where
  /-- What a `GET` from a position is answered. -/
  opened : Nat → Except RemoteFault Response
  /-- What the read over the front of a whole body raises, if it does. -/
  skipped : Option RemoteFault
  /-- What the read raises, or how many bytes beyond one it gives where there are more. -/
  got : Except RemoteFault Nat

/-- What a `HEAD` is answered: the declared length, if there is one. -/
abbrev Head : Type := Except RemoteFault (Option Nat)

/-- `HTTPRawIO`, opened for reading. -/
structure RawReader where
  readable : Bool
  /-- `config.connect_retries` -/
  retries : Nat
  /-- `config.chunk_size` -/
  chunkSize : Nat
  /-- `config.max_read_size` -/
  maxReadSize : Nat
  pos : Nat
  size : Option Nat
  eofAt : Option Nat
  /-- What is left of the live response. -/
  body : Option Bytes

namespace RawReader

abbrev Op (α : Type) : Type := Act RawReader ReadFault α

/-- `HTTPRawIO.__init__` -/
def new (readable : Bool) (retries chunkSize maxReadSize : Nat) : RawReader :=
  { readable, retries, chunkSize, maxReadSize, pos := 0, size := none, eofAt := none, body := none }

/-- `_drop_stream` -/
def dropStream : Op Unit := Act.modify fun s => { s with body := none }

/-- `size` -/
def sizeOf (head : Head) : Op Nat := do
  let s ← Act.get
  match s.size with
  | some n => pure n
  | none => do
    dropStream
    let contentLength ← Act.ofExcept (head.mapError .remote)
    Act.modify fun s =>
      { s with size := some (contentLength.getD 0), eofAt := if contentLength.isSome then contentLength else s.eofAt }
    pure (contentLength.getD 0)

/-- What a response holds from the position on; a server that ignored the range is read over. -/
def skipTo (pos : Nat) (response : Response) (skipped : Option RemoteFault) : Op Bytes :=
  if pos ≠ 0 ∧ response.status = 200 then
    match skipped with
    | some fault => Act.throw (.remote fault)
    | none => pure (response.body.drop pos)
  else pure response.body

/-- `_stream`: what is left of the live response, or nothing where there is none. -/
def stream (a : Attempt) : Op (Option Bytes) := do
  let s ← Act.get
  match s.body with
  | some rest => pure (some rest)
  | none => do
    let response ← Act.ofExcept ((a.opened s.pos).mapError .remote)
    if response.status = 416 then pure none
    else do
      let rest ← skipTo s.pos response a.skipped
      Act.modify fun s => { s with body := some rest }
      pure (some rest)

/-- The end of `_read_live`: a read into `room` that gave `data` of what was left. -/
def advance (room : Nat) (data rest : Bytes) (s : RawReader) : RawReader :=
  if data = [] ∧ room ≠ 0 then { s with body := none, size := some s.pos, eofAt := some s.pos }
  else { s with body := some (rest.drop data.length), pos := s.pos + data.length }

/-- `_read_live` -/
def readLive (room : Nat) (a : Attempt) : Op Bytes := do
  match ← stream a with
  | none => pure []
  | some rest =>
    match a.got with
    | .error .transient | .error .waitLimit => do
      dropStream
      Act.throw (.remote .transient)
    | .error fault => Act.throw (.remote fault)
    | .ok n => do
      let data := rest.take (min room (n + 1))
      Act.modify (advance room data rest)
      pure data

/-- The loop of `readinto`, from the attempt `number` on. -/
def resume (room : Nat) (attempts : Nat → Attempt) : Nat → Nat → Op Bytes
  | 0, number => readLive room (attempts number)
  | left + 1, number => Act.tryExcept (readLive room (attempts number)) fun e =>
    if e.resumes then resume room attempts left (number + 1) else Act.throw e

/-- `readinto`, into a buffer of `room` bytes: the bytes it puts there. -/
def readinto (room : Nat) (attempts : Nat → Attempt) : Op Bytes := do
  let s ← Act.get
  if s.readable = false then Act.throw .unsupported
  else if s.eofAt.any (· ≤ s.pos) then pure []
  else resume room attempts s.retries 0

/-- `check_whole_read` -/
def checkWholeRead (total : Nat) : Op Unit := do
  let s ← Act.get
  if s.maxReadSize ≠ 0 ∧ s.maxReadSize < total then Act.throw (.tooLarge total) else pure ()

/-- The loop of `readall`, which has `out` already; the reads are numbered. -/
def readallFrom (attempts : Nat → Nat → Attempt) : Nat → Nat → Bytes → Op Bytes
  | 0, _, _ => Act.throw .spent
  | fuel + 1, number, out => do
    let s ← Act.get
    let data ← readinto s.chunkSize (attempts number)
    if data = [] then pure out
    else do
      checkWholeRead (out.length + data.length)
      readallFrom attempts fuel (number + 1) (out ++ data)

/-- `readall` -/
def readall (fuel : Nat) (attempts : Nat → Nat → Attempt) : Op Bytes := readallFrom attempts fuel 0 []

/-- What a `seek` counts from. -/
def base (whence : Int) (head : Head) : Op Nat := do
  let s ← Act.get
  if whence = 0 then pure 0
  else if whence = 1 then pure s.pos
  else if whence = 2 then sizeOf head
  else Act.throw (.whence whence)

/-- `seek` -/
def seek (offset whence : Int) (head : Head) : Op Nat := do
  let s ← Act.get
  if s.readable = false then Act.throw .unsupported
  else do
    let base ← base whence head
    let target := base + offset
    if target < 0 then Act.throw (.negative target)
    else do
      let s ← Act.get
      if target.toNat ≠ s.pos then do
        dropStream
        Act.modify fun s => { s with pos := target.toNat }
        pure target.toNat
      else pure target.toNat

end RawReader

/-! ## Runs -/

/-- A call on a reader. -/
inductive ReaderCall where
  | readinto (room : Nat)
  | readall
  | seek (offset whence : Int)
  | tell
  /-- `size`, on its own. -/
  | size
  deriving DecidableEq

/-- What a call returns. -/
inductive ReaderValue where
  | bytes (data : Bytes)
  | place (n : Nat)
  deriving DecidableEq

/-- What becomes of the requests of a call: of the attempts of each of its reads, and of a
`HEAD`; and how many reads it may take. -/
structure ReaderWeather where
  attempts : Nat → Nat → Attempt
  head : Head
  fuel : Nat

namespace RawReader

def step (call : ReaderCall) (w : ReaderWeather) : Op ReaderValue :=
  match call with
  | .readinto room => do
    let data ← readinto room (w.attempts 0)
    pure (.bytes data)
  | .readall => do
    let data ← readall w.fuel w.attempts
    pure (.bytes data)
  | .seek offset whence => do
    let target ← seek offset whence w.head
    pure (.place target)
  | .tell => do
    let s ← Act.get
    pure (.place s.pos)
  | .size => do
    let n ← sizeOf w.head
    pure (.place n)

/-- Some calls one after another, whether or not those before returned. -/
def run (s : RawReader) : List (ReaderCall × ReaderWeather) → List (Except ReadFault ReaderValue) × RawReader
  | [] => ([], s)
  | (call, w) :: calls =>
    let (outcome, s) := step call w s
    let (outcomes, s) := run s calls
    (outcome :: outcomes, s)

end RawReader

/-! ## An honest server -/

/-- An answer to a `GET` from a position: the whole body, the body from there on, or none from
there on.  A server that knows ranges sends the whole body only where that was asked for. -/
inductive Response.Honest (content : Bytes) (ranges : Bool) (pos : Nat) : Response → Prop where
  | whole : (ranges = true → pos = 0) → Response.Honest content ranges pos ⟨200, content⟩
  | part : pos < content.length → Response.Honest content ranges pos ⟨206, content.drop pos⟩
  | none (body : Bytes) : content.length ≤ pos → pos ≠ 0 → Response.Honest content ranges pos ⟨416, body⟩

def Attempt.Honest (content : Bytes) (ranges : Bool) (a : Attempt) : Prop :=
  ∀ pos response, a.opened pos = .ok response → response.Honest content ranges pos

structure ReaderWeather.Honest (content : Bytes) (ranges : Bool) (w : ReaderWeather) : Prop where
  attempts : ∀ number attempt, (w.attempts number attempt).Honest content ranges
  head : ∀ declared, w.head = .ok declared → declared = some content.length
  fuel : content.length < w.fuel

/-- An attempt that fails only as a connection that drops. -/
structure Attempt.Drops (a : Attempt) : Prop where
  opened : ∀ pos fault, a.opened pos = .error fault → fault.resumes = true
  skipped : ∀ fault, a.skipped = some fault → fault.resumes = true
  got : ∀ fault, a.got = .error fault → fault.resumes = true

/-- An attempt that does not fail. -/
structure Attempt.Clear (a : Attempt) : Prop where
  opened : ∀ pos, ∃ response, a.opened pos = .ok response
  skipped : a.skipped = none
  got : ∃ n, a.got = .ok n

/-- Attempts of which the connections drop no more often than the reader resumes. -/
def WithinBudget (retries : Nat) (attempts : Nat → Attempt) : Prop :=
  ∃ k ≤ retries, (∀ i < k, (attempts i).Drops) ∧ (attempts k).Clear

/-- A call whose requests fail no more often than the reader makes up for. -/
structure ReaderWeather.Calm (retries : Nat) (w : ReaderWeather) : Prop where
  attempts : ∀ number, WithinBudget retries (w.attempts number)
  head : ∃ declared, w.head = .ok declared

/-! ## A local file -/

/-- What a `seek` counts from.  The end is where the content ends, or behind that where the
server does not know ranges. -/
def Based (content : Bytes) (ranges : Bool) (pos : Nat) (whence : Int) (base : Nat) : Prop :=
  whence = 0 ∧ base = 0 ∨ whence = 1 ∧ base = pos ∨
    whence = 2 ∧ content.length ≤ base ∧ (ranges = true → base = content.length)

section

variable (content : Bytes) (ranges readable : Bool) (maxReadSize : Nat)

/-- What a call comes to on a local file of this content, from a position to another. -/
inductive LocalStep : Nat → ReaderCall → Except ReadFault ReaderValue → Nat → Prop where
  /-- A raw read may be short, but is not empty where there is something to read. -/
  | readinto {pos room : Nat} {data : Bytes} : readable = true → data <+: content.drop pos → data.length ≤ room →
      (data = [] → room = 0 ∨ content.length ≤ pos) →
      LocalStep pos (.readinto room) (.ok (.bytes data)) (pos + data.length)
  | readall {pos : Nat} : readable = true → (maxReadSize ≠ 0 → (content.drop pos).length ≤ maxReadSize) →
      LocalStep pos .readall (.ok (.bytes (content.drop pos))) (pos + (content.drop pos).length)
  | tooLarge {pos size : Nat} : maxReadSize ≠ 0 → maxReadSize < size → size ≤ (content.drop pos).length →
      LocalStep pos .readall (.error (.tooLarge size)) (pos + size)
  | seek {pos base target : Nat} {offset whence : Int} : readable = true → Based content ranges pos whence base →
      base + offset = target → LocalStep pos (.seek offset whence) (.ok (.place target)) target
  | negative {pos base : Nat} {offset whence : Int} : Based content ranges pos whence base → base + offset < 0 →
      LocalStep pos (.seek offset whence) (.error (.negative (base + offset))) pos
  | whence {pos : Nat} {offset whence : Int} : whence ≠ 0 → whence ≠ 1 → whence ≠ 2 →
      LocalStep pos (.seek offset whence) (.error (.whence whence)) pos
  | tell {pos : Nat} : LocalStep pos .tell (.ok (.place pos)) pos
  | size {pos n : Nat} : Based content ranges pos 2 n → LocalStep pos .size (.ok (.place n)) pos
  | unsupported {pos : Nat} {call : ReaderCall} : readable = false → call ≠ .tell → call ≠ .size →
      LocalStep pos call (.error .unsupported) pos

/-- What some calls come to.  A call that was not calm may raise a fault of its requests, and
leaves the position then; only a `readall` has gone on by what it had read. -/
inductive LocalRun (retries : Nat) :
    Nat → List (ReaderCall × ReaderWeather) → List (Except ReadFault ReaderValue) → Nat → Prop where
  | nil (pos : Nat) : LocalRun retries pos [] [] pos
  | step {pos pos' pos'' : Nat} {call : ReaderCall} {w : ReaderWeather} {calls : List (ReaderCall × ReaderWeather)}
      {outcome : Except ReadFault ReaderValue} {outcomes : List (Except ReadFault ReaderValue)} :
      LocalStep content ranges readable maxReadSize pos call outcome pos' →
      LocalRun retries pos' calls outcomes pos'' →
      LocalRun retries pos ((call, w) :: calls) (outcome :: outcomes) pos''
  | failed {pos pos' pos'' : Nat} {call : ReaderCall} {w : ReaderWeather} {calls : List (ReaderCall × ReaderWeather)}
      {fault : RemoteFault} {outcomes : List (Except ReadFault ReaderValue)} :
      ¬ w.Calm retries →
      (pos' = pos ∨ call = .readall ∧ pos ≤ pos' ∧ pos' ≤ pos + (content.drop pos).length) →
      LocalRun retries pos' calls outcomes pos'' →
      LocalRun retries pos ((call, w) :: calls) (.error (.remote fault) :: outcomes) pos''

end

namespace RawReader

section

variable {content : Bytes} {ranges : Bool} {s s' s'' : RawReader}

/-- What a reader knows of the content is so. -/
structure Knows (content : Bytes) (ranges : Bool) (s : RawReader) : Prop where
  body : ∀ rest, s.body = some rest → rest = content.drop s.pos ∧ (ranges = true → s.pos ≤ content.length)
  size : ∀ n, s.size = some n → content.length ≤ n ∧ (ranges = true → n = content.length)
  eofAt : ∀ n, s.eofAt = some n → content.length ≤ n

/-- A reader of the same file, at a position. -/
structure At (content : Bytes) (ranges : Bool) (s : RawReader) (pos : Nat) (s' : RawReader) : Prop where
  knows : Knows content ranges s'
  pos : s'.pos = pos
  readable : s'.readable = s.readable
  retries : s'.retries = s.retries
  chunkSize : s'.chunkSize = s.chunkSize
  maxReadSize : s'.maxReadSize = s.maxReadSize

theorem At.refl (h : Knows content ranges s) : At content ranges s s.pos s := ⟨h, rfl, rfl, rfl, rfl, rfl⟩

theorem At.trans {pos pos' : Nat} (h : At content ranges s pos s') (h' : At content ranges s' pos' s'') :
    At content ranges s pos' s'' :=
  ⟨h'.knows, h'.pos, h'.readable.trans h.readable, h'.retries.trans h.retries, h'.chunkSize.trans h.chunkSize,
    h'.maxReadSize.trans h.maxReadSize⟩

/-- Giving up the response loses nothing that is known. -/
theorem Knows.dropped (h : Knows content ranges s) : Knows content ranges { s with body := none } :=
  ⟨fun _ hbody => (by cases hbody), h.size, h.eofAt⟩

/-- Where the live response is given up, the reader may move. -/
theorem Knows.moved (h : Knows content ranges s) (pos : Nat) : Knows content ranges { s with body := none, pos := pos } :=
  ⟨fun _ hbody => (by cases hbody), h.size, h.eofAt⟩

/-! ### One attempt -/

/-- What an attempt raises is a fault of its requests. -/
structure Fails (a : Attempt) (e : ReadFault) : Prop where
  remote : ∃ fault, e = .remote fault
  drops : a.Drops → e.resumes = true
  unclear : ¬ a.Clear

theorem skipTo_spec {a : Attempt} {response : Response} (hhonest : response.Honest content ranges s.pos)
    (hsome : response.status ≠ 416) :
    Act.Spec (fun t => t = s) (skipTo s.pos response a.skipped)
      (fun rest t => t = s ∧ rest = content.drop s.pos ∧ (ranges = true → s.pos ≤ content.length))
      fun e t => t = s ∧ Fails a e := by
  unfold skipTo
  cases hhonest with
  | whole hwhole =>
    by_cases hpos : s.pos = 0
    · rw [if_neg fun h => h.1 hpos]
      refine Act.Spec.pure _ ?_
      rintro t rfl
      rw [hpos]
      exact ⟨rfl, rfl, fun _ => Nat.zero_le _⟩
    · rw [if_pos ⟨hpos, rfl⟩]
      rcases hskipped : a.skipped with _ | fault
      · refine Act.Spec.pure _ ?_
        rintro t rfl
        exact ⟨rfl, rfl, fun hranges => absurd (hwhole hranges) hpos⟩
      · refine Act.Spec.throw _ ?_
        rintro t rfl
        exact ⟨rfl, ⟨fault, rfl⟩, fun hdrops => hdrops.skipped fault hskipped,
          fun hclear => by rw [hclear.skipped] at hskipped; cases hskipped⟩
  | part hpart =>
    rw [if_neg fun h => absurd h.2 (show ¬ (206 : Nat) = 200 by decide)]
    refine Act.Spec.pure _ ?_
    rintro t rfl
    exact ⟨rfl, rfl, fun _ => Nat.le_of_lt hpart⟩
  | none body hend hpos => exact absurd rfl hsome

theorem stream_spec {a : Attempt} (hs : Knows content ranges s) (hhonest : a.Honest content ranges) :
    Act.Spec (fun t => t = s) (stream a)
      (fun rest t => At content ranges s s.pos t ∧ (rest = none → content.length ≤ s.pos) ∧
        ∀ left, rest = some left → t.body = some left)
      fun e t => At content ranges s s.pos t ∧ Fails a e := by
  unfold stream
  refine Act.Spec.get_bind ?_
  rcases hbody : s.body with _ | left
  · simp only
    rcases hopened : a.opened s.pos with fault | response
    · rintro t rfl
      exact ⟨.refl hs, ⟨fault, rfl⟩, fun hdrops => hdrops.opened _ fault hopened, fun hclear => by
        obtain ⟨response, hresponse⟩ := hclear.opened t.pos
        rw [hresponse] at hopened
        cases hopened⟩
    · have hgiven := hhonest s.pos response hopened
      refine Act.Spec.bind (Q := fun r t => t = s ∧ r = response) ?_ fun r => ?_
      · rintro t rfl
        exact ⟨rfl, rfl⟩
      by_cases hr : r = response
      · subst hr
        by_cases hstatus : r.status = 416
        · rw [if_pos hstatus]
          refine Act.Spec.pure _ ?_
          rintro t ⟨rfl, -⟩
          refine ⟨.refl hs, fun _ => ?_, fun left h => (by cases h)⟩
          cases hgiven with
          | whole h => cases hstatus
          | part h => cases hstatus
          | none body hend hpos => exact hend
        · rw [if_neg hstatus]
          refine Act.Spec.bind (Act.Spec.conseq (skipTo_spec (a := a) hgiven hstatus) (fun t ht => ht.1)
            (fun _ _ h => h) fun e t h => ?_) fun rest => ?_
          · obtain ⟨rfl, hfails⟩ := h
            exact ⟨.refl hs, hfails⟩
          · rintro t ⟨rfl, hrest, hinside⟩
            refine ⟨⟨⟨fun left h => ?_, hs.size, hs.eofAt⟩, rfl, rfl, rfl, rfl, rfl⟩, fun h => (by cases h), fun left h => h⟩
            cases h
            exact ⟨hrest, hinside⟩
      · rintro t ⟨-, h⟩
        exact absurd h hr
  · refine Act.Spec.pure _ ?_
    rintro t rfl
    exact ⟨.refl hs, fun h => (by cases h), fun left' h => hbody.trans h⟩

/-- A read into `room` that gave `data`. -/
structure Gave (content : Bytes) (ranges : Bool) (s : RawReader) (room : Nat) (data : Bytes) (s' : RawReader) : Prop where
  at_ : At content ranges s (s.pos + data.length) s'
  prefix_ : data <+: content.drop s.pos
  fits : data.length ≤ room
  ends : data = [] → room = 0 ∨ content.length ≤ s.pos

theorem Gave.of_at {room : Nat} {data : Bytes} (h : Gave content ranges s' room data s'')
    (hat : At content ranges s s.pos s') : Gave content ranges s room data s'' := by
  obtain ⟨hmoved, hprefix, hfits, hends⟩ := h
  rw [hat.pos] at hmoved hprefix hends
  exact ⟨hat.trans hmoved, hprefix, hfits, hends⟩

/-- The part of the response that is read is the content behind the position. -/
theorem gave_of_body (hs : Knows content ranges s) {rest : Bytes} (hbody : s.body = some rest) (room n : Nat) :
    Gave content ranges s room (rest.take (min room (n + 1))) (advance room (rest.take (min room (n + 1))) rest s) := by
  obtain ⟨hrest, hinside⟩ := hs.body rest hbody
  have hlen : rest.length = content.length - s.pos := by rw [hrest, List.length_drop]
  generalize hdata : rest.take (min room (n + 1)) = data
  have hcount : data.length = min (min room (n + 1)) rest.length := by rw [← hdata, List.length_take]
  have hempty : data = [] → room = 0 ∨ content.length ≤ s.pos := fun h => by
    rw [h, List.length_nil] at hcount
    omega
  refine ⟨?_, hrest ▸ hdata ▸ List.take_prefix _ _, by omega, hempty⟩
  unfold advance
  split
  · next hend =>
    have hbehind : content.length ≤ s.pos := (hempty hend.1).resolve_left hend.2
    rw [hend.1, List.length_nil, Nat.add_zero]
    refine ⟨⟨fun _ h => (by cases h), fun m h => ?_, fun m h => ?_⟩, rfl, rfl, rfl, rfl, rfl⟩
    · obtain rfl := Option.some.inj h
      exact ⟨hbehind, fun hranges => Nat.le_antisymm (hinside hranges) hbehind⟩
    · obtain rfl := Option.some.inj h
      exact hbehind
  · refine ⟨⟨fun left h => ?_, hs.size, hs.eofAt⟩, rfl, rfl, rfl, rfl, rfl⟩
    obtain rfl := Option.some.inj h
    refine ⟨by rw [hrest, List.drop_drop], fun hranges => ?_⟩
    have := hinside hranges
    simp only
    omega

theorem readLive_spec {a : Attempt} (hs : Knows content ranges s) (hhonest : a.Honest content ranges) (room : Nat) :
    Act.Spec (fun t => t = s) (readLive room a) (Gave content ranges s room)
      fun e t => At content ranges s s.pos t ∧ Fails a e := by
  unfold readLive
  refine Act.Spec.bind (stream_spec hs hhonest) fun rest => ?_
  rintro t ⟨hat, hend, hlive⟩
  cases rest with
  | none => exact ⟨hat, List.nil_prefix, Nat.zero_le _, fun _ => .inr (hend rfl)⟩
  | some rest =>
    have hbody := hlive rest rfl
    have hunclear : ∀ fault, a.got = .error fault → ¬ a.Clear := fun fault h hclear => by
      obtain ⟨n, hn⟩ := hclear.got
      rw [hn] at h
      cases h
    rcases hgot : a.got with fault | n
    · have hdropped : At content ranges s s.pos { t with body := none } :=
        hat.trans ⟨hat.knows.dropped, hat.pos, rfl, rfl, rfl, rfl⟩
      have hfails : At content ranges s s.pos t ∧ Fails a (.remote fault) :=
        ⟨hat, ⟨fault, rfl⟩, fun hdrops => hdrops.got fault hgot, hunclear fault hgot⟩
      have hbroken : At content ranges s s.pos { t with body := none } ∧ Fails a (.remote .transient) :=
        ⟨hdropped, ⟨_, rfl⟩, fun _ => rfl, hunclear fault hgot⟩
      cases fault with
      | transient => exact hbroken
      | waitLimit => exact hbroken
      | timeout => exact hfails
      | connection => exact hfails
      | request => exact hfails
    · exact (gave_of_body hat.knows hbody room n).of_at hat

/-! ### A read, resumed -/

/-- Attempts that go on failing from one on, of which the reader makes up for so many. -/
def Exhausted (attempts : Nat → Attempt) (number left : Nat) : Prop :=
  ¬ ∃ k, number ≤ k ∧ k ≤ number + left ∧ (∀ i, number ≤ i → i < k → (attempts i).Drops) ∧ (attempts k).Clear

theorem resume_spec {attempts : Nat → Attempt} (hhonest : ∀ i, (attempts i).Honest content ranges) (room left : Nat) :
    ∀ (number : Nat) {s : RawReader}, Knows content ranges s →
    Act.Spec (fun t => t = s) (resume room attempts left number) (Gave content ranges s room)
      fun e t => At content ranges s s.pos t ∧ (∃ fault, e = .remote fault) ∧ Exhausted attempts number left := by
  induction left with
  | zero =>
    intro number s hs
    refine Act.Spec.conseq (readLive_spec hs (hhonest number) room) (fun t ht => ht) (fun _ _ h => h) fun e t h => ?_
    refine ⟨h.1, h.2.remote, ?_⟩
    rintro ⟨k, hle, hge, -, hclear⟩
    obtain rfl : k = number := by omega
    exact h.2.unclear hclear
  | succ left ih =>
    intro number s hs
    refine Act.Spec.tryExcept (readLive_spec hs (hhonest number) room) fun e => ?_
    rintro t ⟨hat, hfails⟩
    by_cases hresumes : e.resumes = true
    · rw [if_pos hresumes]
      have hnext := ih (number + 1) hat.knows t rfl
      rcases hrun : resume room attempts left (number + 1) t with ⟨e' | data, t'⟩
      · rw [hrun] at hnext
        obtain ⟨hat', hremote, hspent⟩ := hnext
        rw [hat.pos] at hat'
        refine ⟨hat.trans hat', hremote, ?_⟩
        rintro ⟨k, hle, hge, hdrops, hclear⟩
        by_cases hk : k = number
        · rw [hk] at hclear
          exact hfails.unclear hclear
        · exact hspent ⟨k, by omega, by omega, fun i hi hik => hdrops i (by omega) hik, hclear⟩
      · rw [hrun] at hnext
        exact hnext.of_at hat
    · rw [if_neg hresumes]
      refine ⟨hat, hfails.remote, ?_⟩
      rintro ⟨k, hle, hge, hdrops, hclear⟩
      by_cases hk : k = number
      · rw [hk] at hclear
        exact hfails.unclear hclear
      · exact hresumes (hfails.drops (hdrops number (Nat.le_refl _) (by omega)))

theorem readinto_spec {attempts : Nat → Attempt} (hhonest : ∀ i, (attempts i).Honest content ranges)
    (hs : Knows content ranges s) (room : Nat) :
    Act.Spec (fun t => t = s) (readinto room attempts)
      (fun data t => s.readable = true ∧ Gave content ranges s room data t)
      fun e t => At content ranges s s.pos t ∧ (e = .unsupported ∧ s.readable = false ∨
        s.readable = true ∧ (∃ fault, e = .remote fault) ∧ ¬ WithinBudget s.retries attempts) := by
  unfold readinto
  refine Act.Spec.get_bind ?_
  refine Act.Spec.ite (fun hno => ?_) fun hyes => ?_
  · refine Act.Spec.throw _ ?_
    rintro t rfl
    exact ⟨.refl hs, .inl ⟨rfl, hno⟩⟩
  have hreadable : s.readable = true := by simpa using hyes
  refine Act.Spec.ite (fun hknown => ?_) fun _ => ?_
  · refine Act.Spec.pure _ ?_
    rintro t rfl
    refine ⟨hreadable, .refl hs, List.nil_prefix, Nat.zero_le _, fun _ => .inr ?_⟩
    obtain ⟨n, hn, hle⟩ := Option.any_eq_true _ _ |>.mp hknown
    exact Nat.le_trans (hs.eofAt n hn) (by simpa using hle)
  · refine Act.Spec.conseq (resume_spec hhonest room s.retries 0 hs) (fun t ht => ht) (fun _ _ h => ⟨hreadable, h⟩)
      fun e t h => ⟨h.1, .inr ⟨hreadable, h.2.1, ?_⟩⟩
    rintro ⟨k, hk, hdrops, hclear⟩
    exact h.2.2 ⟨k, Nat.zero_le _, by omega, fun i _ hi => hdrops i hi, hclear⟩

/-! ### The other calls -/

theorem sizeOf_spec {head : Head} (hhonest : ∀ declared, head = .ok declared → declared = some content.length)
    (hs : Knows content ranges s) :
    Act.Spec (fun t => t = s) (sizeOf head)
      (fun n t => At content ranges s s.pos t ∧ Based content ranges s.pos 2 n)
      fun e t => At content ranges s s.pos t ∧ (∃ fault, e = .remote fault) ∧ ¬ ∃ declared, head = .ok declared := by
  unfold sizeOf
  refine Act.Spec.get_bind ?_
  rcases hsize : s.size with _ | n
  · refine Act.Spec.modify_bind ?_
    rcases hhead : head with fault | declared
    · rintro t rfl
      refine ⟨⟨hs.dropped, rfl, rfl, rfl, rfl, rfl⟩, ⟨fault, rfl⟩, ?_⟩
      rintro ⟨declared, h⟩
      cases h
    · obtain rfl := hhonest declared hhead
      rintro t rfl
      refine ⟨⟨⟨fun _ h => (by cases h), fun n h => ?_, fun n h => ?_⟩, rfl, rfl, rfl, rfl, rfl⟩,
        .inr (.inr ⟨rfl, Nat.le_refl _, fun _ => rfl⟩)⟩
      · obtain rfl := Option.some.inj h
        exact ⟨Nat.le_refl _, fun _ => rfl⟩
      · obtain rfl := Option.some.inj h
        exact Nat.le_refl _
  · refine Act.Spec.pure _ ?_
    rintro t rfl
    exact ⟨.refl hs, .inr (.inr ⟨rfl, hs.size n hsize⟩)⟩

theorem base_spec {head : Head} (hhonest : ∀ declared, head = .ok declared → declared = some content.length)
    (hs : Knows content ranges s) (whence : Int) :
    Act.Spec (fun t => t = s) (base whence head)
      (fun n t => At content ranges s s.pos t ∧ Based content ranges s.pos whence n)
      fun e t => At content ranges s s.pos t ∧
        (e = .whence whence ∧ whence ≠ 0 ∧ whence ≠ 1 ∧ whence ≠ 2 ∨
          (∃ fault, e = .remote fault) ∧ ¬ ∃ declared, head = .ok declared) := by
  unfold base
  refine Act.Spec.get_bind ?_
  refine Act.Spec.ite (fun h0 => ?_) fun h0 => Act.Spec.ite (fun h1 => ?_) fun h1 => Act.Spec.ite (fun h2 => ?_) fun h2 => ?_
  · rintro t rfl
    exact ⟨.refl hs, .inl ⟨h0, rfl⟩⟩
  · rintro t rfl
    exact ⟨.refl hs, .inr (.inl ⟨h1, rfl⟩)⟩
  · subst h2
    exact Act.Spec.conseq (sizeOf_spec hhonest hs) (fun t ht => ht) (fun _ _ h => h) fun e t h => ⟨h.1, .inr h.2⟩
  · rintro t rfl
    exact ⟨.refl hs, .inl ⟨rfl, h0, h1, h2⟩⟩

theorem seek_spec {head : Head} (hhonest : ∀ declared, head = .ok declared → declared = some content.length)
    (hs : Knows content ranges s) (offset whence : Int) :
    Act.Spec (fun t => t = s) (seek offset whence head)
      (fun target t => At content ranges s target t ∧ LocalStep content ranges s.readable s.maxReadSize s.pos
        (.seek offset whence) (.ok (.place target)) target)
      fun e t => At content ranges s s.pos t ∧ (LocalStep content ranges s.readable s.maxReadSize s.pos
        (.seek offset whence) (.error e) s.pos ∨ (∃ fault, e = .remote fault) ∧ ¬ ∃ declared, head = .ok declared) := by
  unfold seek
  refine Act.Spec.get_bind ?_
  refine Act.Spec.ite (fun hno => ?_) fun hyes => ?_
  · rintro t rfl
    exact ⟨.refl hs, .inl (.unsupported hno (by simp) (by simp))⟩
  have hreadable : s.readable = true := by simpa using hyes
  refine Act.Spec.bind (Act.Spec.conseq (base_spec hhonest hs whence) (fun t ht => ht) (fun _ _ h => h) fun e t h => ?_)
    fun n => ?_
  · obtain ⟨hat, ⟨rfl, h0, h1, h2⟩ | hremote⟩ := h
    · exact ⟨hat, .inl (.whence h0 h1 h2)⟩
    · exact ⟨hat, .inr hremote⟩
  · rintro t ⟨hat, hbased⟩
    simp only
    by_cases hneg : (n : Int) + offset < 0
    · rw [if_pos hneg]
      exact ⟨hat, .inl (.negative hbased hneg)⟩
    · rw [if_neg hneg]
      have hstep : LocalStep content ranges s.readable s.maxReadSize s.pos (.seek offset whence)
          (.ok (.place ((n : Int) + offset).toNat)) ((n : Int) + offset).toNat :=
        .seek hreadable hbased (Int.toNat_of_nonneg (Int.not_lt.mp hneg)).symm
      by_cases hsame : ((n : Int) + offset).toNat ≠ t.pos
      · have hmoved : At content ranges s ((n : Int) + offset).toNat
            { t with body := none, pos := ((n : Int) + offset).toNat } :=
          hat.trans ⟨hat.knows.moved _, rfl, rfl, rfl, rfl, rfl⟩
        rw [Act.bind_of_ok (show Act.get t = (.ok t, t) from rfl), if_pos hsame]
        exact ⟨hmoved, hstep⟩
      · rw [Act.bind_of_ok (show Act.get t = (.ok t, t) from rfl), if_neg hsame]
        refine ⟨?_, hstep⟩
        rw [Decidable.not_not.mp hsame]
        exact ⟨hat.knows, rfl, hat.readable, hat.retries, hat.chunkSize, hat.maxReadSize⟩

/-- The reads of a `readall`, one behind the other, until one of them is empty. -/
theorem readallFrom_spec {attempts : Nat → Nat → Attempt} (hhonest : ∀ number i, (attempts number i).Honest content ranges)
    (fuel : Nat) : ∀ (number : Nat) (out : Bytes) {s : RawReader}, Knows content ranges s → s.chunkSize ≠ 0 →
    content.length - s.pos < fuel → (s.maxReadSize ≠ 0 → out.length ≤ s.maxReadSize) →
    Act.Spec (fun t => t = s) (readallFrom attempts fuel number out)
      (fun data t => s.readable = true ∧ data = out ++ content.drop s.pos ∧ (s.maxReadSize ≠ 0 → data.length ≤ s.maxReadSize) ∧
        At content ranges s (s.pos + (content.drop s.pos).length) t)
      fun e t => ∃ n ≤ (content.drop s.pos).length, At content ranges s (s.pos + n) t ∧
        (e = .unsupported ∧ s.readable = false ∧ n = 0 ∨
          e = .tooLarge (out.length + n) ∧ s.maxReadSize ≠ 0 ∧ s.maxReadSize < out.length + n ∨
          (∃ fault, e = .remote fault) ∧ ¬ ∀ number, WithinBudget s.retries (attempts number)) := by
  induction fuel with
  | zero => exact fun number out s _ _ hfuel _ => absurd hfuel (Nat.not_lt_zero _)
  | succ fuel ih =>
    intro number out s hs hchunk hfuel hout
    unfold readallFrom
    refine Act.Spec.get_bind ?_
    refine Act.Spec.bind (Act.Spec.conseq (readinto_spec (hhonest number) hs s.chunkSize) (fun t ht => ht)
      (fun _ _ h => h) fun e t h => ?_) fun data => ?_
    · obtain ⟨hat, ⟨rfl, hno⟩ | ⟨hyes, hremote, hspent⟩⟩ := h
      · exact ⟨0, Nat.zero_le _, hat, .inl ⟨rfl, hno, rfl⟩⟩
      · exact ⟨0, Nat.zero_le _, hat, .inr (.inr ⟨hremote, fun hall => hspent (hall number)⟩)⟩
    rintro t ⟨hreadable, hgave⟩
    by_cases hempty : data = []
    · subst hempty
      have hend : content.drop s.pos = [] :=
        List.drop_eq_nil_of_le ((hgave.ends rfl).resolve_left hchunk)
      have hat := hgave.at_
      rw [if_pos rfl, hend, List.append_nil]
      exact ⟨hreadable, rfl, hout, hat⟩
    · have hat := hgave.at_
      obtain ⟨rest, hrest⟩ := hgave.prefix_
      have hbehind : content.drop (s.pos + data.length) = rest := by
        rw [← List.drop_drop, ← hrest, List.drop_left]
      have hsplit : (content.drop s.pos).length = data.length + rest.length := by rw [← hrest, List.length_append]
      have hsome := List.length_pos_iff.mpr hempty
      rw [if_neg hempty]
      by_cases hlarge : t.maxReadSize ≠ 0 ∧ t.maxReadSize < out.length + data.length
      · have hcheck : checkWholeRead (out.length + data.length) t = (.error (.tooLarge (out.length + data.length)), t) := by
          rw [checkWholeRead, Act.bind_of_ok (show Act.get t = (.ok t, t) from rfl), if_pos hlarge]
          rfl
        rw [Act.bind_of_error hcheck]
        rw [hat.maxReadSize] at hlarge
        exact ⟨data.length, by omega, hat, .inr (.inl ⟨rfl, hlarge⟩)⟩
      · have hcheck : checkWholeRead (out.length + data.length) t = (.ok (), t) := by
          rw [checkWholeRead, Act.bind_of_ok (show Act.get t = (.ok t, t) from rfl), if_neg hlarge]
          rfl
        rw [Act.bind_of_ok hcheck]
        have hlength : (content.drop s.pos).length = content.length - s.pos := List.length_drop
        have hmore := ih (number + 1) (out ++ data) hat.knows (by rw [hat.chunkSize]; exact hchunk)
          (by rw [hat.pos]; omega) (fun h => by rw [List.length_append]; have := fun h' => hlarge ⟨h, h'⟩; omega) t rfl
        rw [hat.pos, hat.readable, hat.retries, hat.maxReadSize, hbehind] at hmore
        rcases hrun : readallFrom attempts fuel (number + 1) (out ++ data) t with ⟨e | all, t'⟩
        · rw [hrun] at hmore
          obtain ⟨n, hn, hat', hcase⟩ := hmore
          refine ⟨data.length + n, by omega, Nat.add_assoc s.pos _ _ ▸ hat.trans hat', ?_⟩
          obtain ⟨-, hno, -⟩ | ⟨rfl, hceiling, hover⟩ | hremote := hcase
          · rw [hreadable] at hno
            cases hno
          · rw [List.length_append, Nat.add_assoc] at hover ⊢
            exact .inr (.inl ⟨rfl, hceiling, hover⟩)
          · exact .inr (.inr hremote)
        · rw [hrun] at hmore
          obtain ⟨-, rfl, hfits, hat'⟩ := hmore
          refine ⟨hreadable, by rw [← hrest, List.append_assoc], hfits, ?_⟩
          rw [hsplit, ← Nat.add_assoc]
          exact hat.trans hat'

end

/-! ## Runs -/

section

variable {content : Bytes} {ranges : Bool} {s : RawReader}

/-- One call is a call of the local file, or was not calm and raised a fault of its requests. -/
theorem step_refines (hs : Knows content ranges s) (hchunk : s.chunkSize ≠ 0) (call : ReaderCall) {w : ReaderWeather}
    (hw : w.Honest content ranges) :
    ∃ pos, At content ranges s pos (step call w s).2 ∧
      (LocalStep content ranges s.readable s.maxReadSize s.pos call (step call w s).1 pos ∨
        ¬ w.Calm s.retries ∧ (∃ fault, (step call w s).1 = .error (.remote fault)) ∧
          (pos = s.pos ∨ call = .readall ∧ s.pos ≤ pos ∧ pos ≤ s.pos + (content.drop s.pos).length)) := by
  cases call with
  | readinto room =>
    have hspec := readinto_spec (hw.attempts 0) hs room s rfl
    rw [step]
    rcases hrun : readinto room (w.attempts 0) s with ⟨e | data, t⟩
    · rw [hrun] at hspec
      rw [Act.bind_of_error hrun]
      obtain ⟨hat, ⟨rfl, hno⟩ | ⟨-, ⟨fault, rfl⟩, hspent⟩⟩ := hspec
      · exact ⟨s.pos, hat, .inl (.unsupported hno (by simp) (by simp))⟩
      · exact ⟨s.pos, hat, .inr ⟨fun hcalm => hspent (hcalm.attempts 0), ⟨fault, rfl⟩, .inl rfl⟩⟩
    · rw [hrun] at hspec
      rw [Act.bind_of_ok hrun]
      obtain ⟨hreadable, hat, hprefix, hfits, hends⟩ := hspec
      exact ⟨_, hat, .inl (.readinto hreadable hprefix hfits hends)⟩
  | readall =>
    have hspec := readallFrom_spec hw.attempts w.fuel 0 [] hs hchunk
      (Nat.lt_of_le_of_lt (Nat.sub_le _ _) hw.fuel) (fun _ => Nat.zero_le _) s rfl
    rw [step, readall]
    rcases hrun : readallFrom w.attempts w.fuel 0 [] s with ⟨e | data, t⟩
    · rw [hrun] at hspec
      rw [Act.bind_of_error hrun]
      obtain ⟨n, hn, hat, ⟨rfl, hno, rfl⟩ | ⟨rfl, hceiling, hover⟩ | ⟨⟨fault, rfl⟩, hspent⟩⟩ := hspec
      · exact ⟨_, hat, .inl (.unsupported hno (by simp) (by simp))⟩
      · rw [List.length_nil, Nat.zero_add] at hover ⊢
        exact ⟨_, hat, .inl (.tooLarge hceiling hover hn)⟩
      · exact ⟨_, hat, .inr ⟨fun hcalm => hspent hcalm.attempts, ⟨fault, rfl⟩, .inr ⟨rfl, Nat.le_add_right _ _, by omega⟩⟩⟩
    · rw [hrun] at hspec
      rw [Act.bind_of_ok hrun]
      obtain ⟨hreadable, rfl, hfits, hat⟩ := hspec
      exact ⟨_, hat, .inl (.readall hreadable hfits)⟩
  | seek offset whence =>
    have hspec := seek_spec hw.head hs offset whence s rfl
    rw [step]
    rcases hrun : seek offset whence w.head s with ⟨e | target, t⟩
    · rw [hrun] at hspec
      rw [Act.bind_of_error hrun]
      obtain ⟨hat, hstep | ⟨⟨fault, rfl⟩, hhead⟩⟩ := hspec
      · exact ⟨s.pos, hat, .inl hstep⟩
      · exact ⟨s.pos, hat, .inr ⟨fun hcalm => hhead hcalm.head, ⟨fault, rfl⟩, .inl rfl⟩⟩
    · rw [hrun] at hspec
      rw [Act.bind_of_ok hrun]
      exact ⟨target, hspec.1, .inl hspec.2⟩
  | tell => exact ⟨s.pos, .refl hs, .inl .tell⟩
  | size =>
    have hspec := sizeOf_spec hw.head hs s rfl
    rw [step]
    rcases hrun : sizeOf w.head s with ⟨e | n, t⟩
    · rw [hrun] at hspec
      rw [Act.bind_of_error hrun]
      obtain ⟨hat, ⟨fault, rfl⟩, hhead⟩ := hspec
      exact ⟨s.pos, hat, .inr ⟨fun hcalm => hhead hcalm.head, ⟨fault, rfl⟩, .inl rfl⟩⟩
    · rw [hrun] at hspec
      rw [Act.bind_of_ok hrun]
      exact ⟨s.pos, hspec.1, .inl (.size hspec.2)⟩

theorem run_refines {calls : List (ReaderCall × ReaderWeather)} (hcalls : ∀ call ∈ calls, call.2.Honest content ranges)
    (hs : Knows content ranges s) (hchunk : s.chunkSize ≠ 0) :
    LocalRun content ranges s.readable s.maxReadSize s.retries s.pos calls (run s calls).1 (run s calls).2.pos := by
  induction calls generalizing s with
  | nil => exact .nil s.pos
  | cons call calls ih =>
    obtain ⟨call, w⟩ := call
    obtain ⟨hw, hcalls⟩ := List.forall_mem_cons.mp hcalls
    obtain ⟨pos, hat, hstep⟩ := step_refines hs hchunk call hw
    have hrest := ih hcalls hat.knows (by rw [hat.chunkSize]; exact hchunk)
    rw [hat.readable, hat.retries, hat.maxReadSize, hat.pos] at hrest
    obtain hlocal | ⟨hcalm, ⟨fault, hfault⟩, hpos⟩ := hstep
    · exact .step hlocal hrest
    · have houtcome : (run s ((call, w) :: calls)).1
          = .error (.remote fault) :: (run (step call w s).2 calls).1 := by
        rw [← hfault]
        rfl
      rw [houtcome]
      exact .failed hcalm hpos hrest

/-- A server of three bytes that does not know ranges. -/
def rangeless : ReaderWeather where
  attempts _ _ := { opened := fun _ => .ok ⟨200, [1, 2, 3]⟩, skipped := none, got := .ok 0 }
  head := .ok (some 3)
  fuel := 4

-- the read behind the end has left its position as the size
example : (run (new true 1 4 0) [(.seek 10 0, rangeless), (.readinto 4, rangeless), (.seek 0 2, rangeless)]).1
    = [.ok (.place 10), .ok (.bytes []), .ok (.place 10)] := by decide

end

end RawReader

end XrdClient.Http
