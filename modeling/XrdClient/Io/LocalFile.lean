/-
  Io/LocalFile.lean --- an unbuffered local file, as the builtin `open` gives it.

  This is what a raw file is to be compared with: the contents, a position, and the mode
  the file was opened in.  A call that raises is `none`.
-/
import XrdClient.Lib.Bytes
import XrdClient.Lib.Extent

set_option autoImplicit false

namespace XrdClient.Io

open XrdClient.Lib

/-- The letter of a mode that says how the file is opened. -/
inductive Base where
  | r | w | x | a
  deriving DecidableEq

def SEEK_SET : Int := 0

def SEEK_CUR : Int := 1

def SEEK_END : Int := 2

/-- A call on an unbuffered file. -/
inductive Call where
  /-- The buffer as it is found. -/
  | readinto (view : Bytes)
  | readall
  | seek (offset whence : Int)
  | tell
  | write (data : Bytes)
  | truncate (size : Option Int)
  | flush
  deriving DecidableEq

/-- What a call returns. -/
inductive Value where
  | count (n : Int)
  /-- The buffer behind the call, and how much of it was read. -/
  | filled (n : Nat) (view : Bytes)
  | bytes (data : Bytes)
  | nothing
  deriving DecidableEq

structure LocalFile where
  content : Bytes
  pos : Nat
  append : Bool
  readable : Bool
  writable : Bool
  deriving DecidableEq

namespace LocalFile

/-- `open(path, mode, buffering=0)`, of a path that has `store`. -/
def opened (base : Base) (updating : Bool) (store : Option Bytes) : Option LocalFile :=
  let file (content : Bytes) (pos : Nat) : LocalFile :=
    { content, pos
      append := decide (base = .a)
      readable := decide (base = .r) || updating
      writable := decide (base ≠ .r) || updating }
  match base, store with
  | .r, none => none
  | .r, some content => some (file content 0)
  | .w, _ => some (file [] 0)
  | .x, none => some (file [] 0)
  | .x, some _ => none
  | .a, store => some (file (store.getD []) (store.getD []).length)

/-- What a file may do is what its mode says. -/
theorem opened_mode {base : Base} {updating : Bool} {store : Option Bytes} {f : LocalFile}
    (h : opened base updating store = some f) : f.append = decide (base = .a) ∧
      f.readable = (decide (base = .r) || updating) ∧ f.writable = (decide (base ≠ .r) || updating) := by
  cases base <;> cases store <;> cases h <;> exact ⟨rfl, rfl, rfl⟩

/-- Where a `seek` goes. -/
def target (f : LocalFile) (offset whence : Int) : Option Int :=
  if whence = SEEK_SET then some offset
  else if whence = SEEK_CUR then some (f.pos + offset)
  else if whence = SEEK_END then some (f.content.length + offset)
  else none

/-- Where a write goes. -/
def place (f : LocalFile) : Nat := if f.append then f.content.length else f.pos

def step (f : LocalFile) : Call → Option (Value × LocalFile)
  | .readinto view =>
      if f.readable then
        let got := slice f.content f.pos view.length
        some (.filled got.length (got ++ view.drop got.length), { f with pos := f.pos + got.length })
      else none
  | .readall =>
      if f.readable then
        let data := f.content.drop f.pos
        some (.bytes data, { f with pos := f.pos + data.length })
      else none
  | .seek offset whence => do
      let target ← f.target offset whence
      if target < 0 then none else some (.count target, { f with pos := target.toNat })
  | .tell => some (.count f.pos, f)
  | .write data =>
      if f.writable then
        if data = [] then some (.count 0, f)
        else some (.count data.length,
          { f with content := writeAt 0 f.content f.place data, pos := f.place + data.length })
      else none
  | .truncate size =>
      let target := size.getD f.pos
      if f.writable ∧ 0 ≤ target then
        some (.count target, { f with content := resize 0 target.toNat f.content })
      else none
  | .flush => some (.nothing, f)

/-- Some calls, one after the other. -/
def run (f : LocalFile) : List Call → Option (List Value × LocalFile)
  | [] => some ([], f)
  | call :: rest => do
      let (value, f) ← f.step call
      let (values, f) ← f.run rest
      some (value :: values, f)

theorem run_cons_iff {f f' f'' : LocalFile} {call : Call} {rest : List Call} {value : Value}
    {values : List Value} (hstep : f.step call = some (value, f')) :
    f.run (call :: rest) = some (value :: values, f'') ↔ f'.run rest = some (values, f'') := by
  simp only [run, hstep, Option.bind_eq_bind, Option.bind_some]
  rcases f'.run rest with _ | ⟨_, _⟩ <;> simp

end LocalFile

end XrdClient.Io
