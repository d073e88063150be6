/-
  Io/Raw.lean --- unbuffered I/O on a remote file.

  Source: `io/raw.py`; `parse_mode` and `flags_for_mode` of `flags.py`; `open` of
  `client/_handle.py`, as far as it says what the handle may do.

  The position is kept here, and every read and write names its own offset.  The options
  that say nothing of what the handle may do (`MAKEPATH`, `POSC`) are left out.
-/
import XrdClient.Client.Writing
import XrdClient.Io.LocalFile

set_option autoImplicit false

namespace XrdClient.Io

open XrdClient.Lib
open XrdClient.Client

def kXR_NotFound : Nat := 3011

def kXR_noserver : Nat := 3014

def kXR_ItExists : Nat := 3018

def kXR_noReplicas : Nat := 3029

/-! ## Modes -/

def Base.ofChar? : Char → Option Base
  | 'r' => some .r
  | 'w' => some .w
  | 'x' => some .x
  | 'a' => some .a
  | _ => none

/-- `parse_mode`: the base, whether it is binary, and whether it updates. -/
def parseMode (mode : Text) : Except FileError (Base × Bool × Bool) :=
  let cleaned := mode.filter (· ≠ 'U')
  let binary := decide ('b' ∈ cleaned)
  let text := decide ('t' ∈ cleaned)
  let updating := decide ('+' ∈ cleaned)
  if binary && text then .error .value
  else match cleaned.filterMap Base.ofChar? with
    | [base] => if cleaned.all (· ∈ ['r', 'w', 'x', 'a', '+', 'b', 't']) then .ok (base, binary, updating)
        else .error .value
    | _ => .error .value

/-- `flags_for_mode`. -/
def flagsForMode (base : Base) (updating : Bool) : OpenFlags :=
  match base with
  | .r => { update := updating }
  | .w => { update := true, delete := true }
  | .x => { update := true, new := true }
  | .a => { update := true, append := true }

/-! ## Opening -/

/-- What a server makes of an open: the file that is behind the handle. -/
def served (flags : OpenFlags) : Option Bytes → Except FileError Bytes
  | none => if flags.new || flags.delete then .ok [] else .error (.server kXR_NotFound)
  | some content =>
      if flags.delete then .ok []
      else if flags.new then .error (.server kXR_ItExists)
      else .ok content

/-- What an open meets: what is raised in place of an answer, and whether the answer tells of the
file. -/
structure Opening where
  raised : Option FileError := none
  told : Bool := true
  deriving DecidableEq

/-- `File.open`. -/
def openFile (config : FileConfig) (m : Opening) (flags : OpenFlags) (store : Option Bytes) :
    Except FileError File :=
  match m.raised with
  | some e => .error e
  | none => do
      let content ← served flags store
      let file : File := { config, flags, server := content }
      pure (if m.told then file.told else file)

/-- `NotFoundError`. -/
def NotFound : FileError → Prop
  | .server code => code = kXR_NotFound ∨ code = kXR_noserver ∨ code = kXR_noReplicas
  | _ => False

instance (e : FileError) : Decidable (NotFound e) := by
  cases e <;> first | exact instDecidableFalse | exact inferInstanceAs (Decidable (_ ∨ _ ∨ _))

/-- `_open`. -/
def openRaw (config : FileConfig) (first second : Opening) (flags : OpenFlags) (store : Option Bytes) :
    Except FileError File :=
  match openFile config first flags store with
  | .ok file => .ok file
  | .error e =>
      if NotFound e ∧ flags.append then openFile config second { flags with new := true } store
      else .error e

/-- An unbuffered file. -/
structure XRootDRawIO where
  file : File
  base : Base
  readable : Bool
  writable : Bool
  closed : Bool := false
  pos : Nat := 0
  deriving DecidableEq

/-- What one call meets. -/
structure CallWeather where
  /-- The `kXR_stat` that the call makes of its own. -/
  stat : Nat → Meeting := fun _ => {}
  reads : Weather := {}
  writes : WriteWeather := {}
  fate : Fate := .acked

namespace XRootDRawIO

abbrev Op (α : Type) : Type := Act XRootDRawIO FileError α

/-- `XRootDRawIO(file, mode)`. -/
def new (config : FileConfig) (mode : Text) (first second : Opening) (stat : Nat → Meeting)
    (store : Option Bytes) : Except FileError XRootDRawIO := do
  let (base, _, updating) ← parseMode mode
  let file ← openRaw config first second (flagsForMode base updating) store
  let raw : XRootDRawIO :=
    { file, base
      readable := decide (base = .r) || updating
      writable := decide (base ≠ .r) || updating }
  if base = .a then
    match File.size stat file with
    | (.ok size, file) => pure { raw with file, pos := size }
    | (.error e, _) => .error e
  else pure raw

/-- A call on `_file`. -/
def onFile {α : Type} (x : File.Op α) : Op α :=
  Act.zoom XRootDRawIO.file (fun file raw => { raw with file }) x

/-- `_check_readable`. -/
def checkReadable : Op Unit := do
  let raw ← Act.get
  if raw.closed then Act.throw .closed
  else if raw.readable then pure () else Act.throw .mode

/-- `_check_writable`. -/
def checkWritable : Op Unit := do
  let raw ← Act.get
  if raw.closed then Act.throw .closed
  else if raw.writable then pure () else Act.throw .mode

/-- `tell`. -/
def tell : Op Nat := do
  let raw ← Act.get
  pure raw.pos

/-- Where a `seek` goes. -/
def target (stat : Nat → Meeting) (offset whence : Int) : Op Int := do
  let raw ← Act.get
  if whence = SEEK_SET then pure offset
  else if whence = SEEK_CUR then pure (raw.pos + offset)
  else if whence = SEEK_END then do
    let size ← onFile (File.size stat)
    pure (size + offset)
  else Act.throw .value

/-- `seek`. -/
def seek (stat : Nat → Meeting) (offset whence : Int) : Op Int := do
  let target ← target stat offset whence
  if target < 0 then Act.throw (.os 22)
  else do
    Act.modify fun raw => { raw with pos := target.toNat }
    pure target

/-- `readinto`: the count, and the buffer. -/
def readinto (w : Weather) (view : Bytes) : Op (Nat × Bytes) := do
  checkReadable
  if view = [] then pure (0, [])
  else do
    let raw ← Act.get
    let got ← onFile (File.readinto w view raw.pos)
    Act.modify fun raw => { raw with pos := raw.pos + got.length }
    pure (got.length, got ++ view.drop got.length)

/-- `readall`. -/
def readall (stat : Nat → Meeting) (w : Weather) : Op Bytes := do
  checkReadable
  let _ ← onFile (File.askStat true stat)
  let raw ← Act.get
  let data ← onFile (File.read w (-1) raw.pos)
  Act.modify fun raw => { raw with pos := raw.pos + data.length }
  pure data

/-- The position that a write starts from: `O_APPEND`. -/
def findEnd (stat : Nat → Meeting) : Op Unit := do
  let raw ← Act.get
  if raw.base = .a then do
    let size ← onFile (File.askStat true stat)
    Act.modify fun raw => { raw with pos := size }
  else pure ()

/-- `write`. -/
def write (stat : Nat → Meeting) (w : WriteWeather) (data : Bytes) : Op Nat := do
  checkWritable
  if data = [] then pure 0
  else do
    findEnd stat
    let raw ← Act.get
    let written ← onFile (File.write w data raw.pos)
    Act.modify fun raw => { raw with pos := raw.pos + written }
    pure written

/-- `truncate`. -/
def truncate (fate : Fate) (size : Option Int) : Op Int := do
  checkWritable
  let raw ← Act.get
  let target := size.getD raw.pos
  let _ ← onFile (File.truncate fate target)
  pure target

/-- `flush`. -/
def flush (fate : Fate) : Op Unit := do
  let raw ← Act.get
  if raw.writable && !raw.closed && raw.file.isOpen then onFile (File.sync fate)
  else pure ()

/-- A call, and what it meets. -/
def step (call : Call) (w : CallWeather) : Op Value :=
  match call with
  | .readinto view => do
      let got ← readinto w.reads view
      pure (.filled got.1 got.2)
  | .readall => do
      let data ← readall w.stat w.reads
      pure (.bytes data)
  | .seek offset whence => do
      let target ← seek w.stat offset whence
      pure (.count target)
  | .tell => do
      let pos ← tell
      pure (.count pos)
  | .write data => do
      let written ← write w.stat w.writes data
      pure (.count written)
  | .truncate size => do
      let target ← truncate w.fate size
      pure (.count target)
  | .flush => do
      flush w.fate
      pure .nothing

/-- Some calls, one after the other, up to one that raises. -/
def run : List (Call × CallWeather) → Op (List Value)
  | [] => pure []
  | (call, w) :: rest => do
      let value ← step call w
      let values ← run rest
      pure (value :: values)

end XRootDRawIO

end XrdClient.Io
