/-
  Copy/Tree.lean --- recursive copies: the walk, the pruning, and a move between servers.

  Source: `copy/_tree.py`, `_selected`, `_prune`, `_walk`, `_each`; `copy/engine.py`,
  `copy_tree`; `client/_fsbase.py`, `walk`, `_walk`, `_walk_entries`, `_partition`, `_Links`,
  `_Descent`, `_TreeRemoval`, `rmtree`; `fsspec_impl.py`, `mv`, `_move_tree`; `os.walk` for a
  local tree.

  A path is the list of its components below the tree's top, and a file is what its path
  names.  What the two servers answer to each listing, and to each removal, is a parameter:
  the walk, the clearing of the source and the pruning each meet their own failures.

  A link to a directory is an entry whose contents are what it shows.  A walk that cannot
  tell links enters them, so its contents may be in what the walk found; they are not among
  the files of the tree (`files`), which is what `os.walk` makes of a link too.

  The path of a directory comes apart at a `?`: `_split_cgi` takes what is behind it for
  opaque data, the walk yields what is before it, and asks for the children there.  What
  comes of that is anything (`astray`).  Such a name is WebDAV's, whose listings carry the
  stats; a `root://` request cannot name it, and a local walk does not mind it.  It is the
  same for a top whose path `root[len(base):]` does not measure (`straight`).

  `missed` is what this file is about: the files below a directory that could not be listed,
  or that the guard against link cycles took for one already entered, or whose path comes
  apart.  The walk says nothing of any of them, so `copy_tree` prunes them at the target and
  `mv` removes them at the source.
-/
import XrdClient.Lib.Bytes
import XrdClient.Lib.Posix
import XrdClient.Lib.Steps

set_option autoImplicit false

namespace XrdClient.Copy

open XrdClient.Lib
open XrdClient.Lib.Posix (components body rstrip)

/-! ## Trees -/

/-- A path below the top of a tree, component by component. -/
abbrev Path : Type := List Text

/-- The entries of a directory, in the order its server lists them.  `file` is anything that
is not a directory; `ident` is a directory's stat id. -/
inductive Entries where
  | nil
  | file (name : Text) (rest : Entries)
  | dir (name : Text) (link : Bool) (ident : Text) (inside rest : Entries)
  deriving DecidableEq

namespace Entries

def names : Entries → List Text
  | nil => []
  | file name rest => name :: rest.names
  | dir name _ _ _ rest => name :: rest.names

/-- No directory has two entries of one name. -/
def wellNamed : Entries → Bool
  | nil => true
  | file name rest => !rest.names.contains name && rest.wellNamed
  | dir name _ _ inside rest =>
    !rest.names.contains name && inside.wellNamed && rest.wellNamed

/-- The files a directory itself has: the third of what a walk yields for it. -/
def own (path : Path) : Entries → List Path
  | nil => []
  | file name rest => (path ++ [name]) :: own path rest
  | dir _ _ _ _ rest => own path rest

/-- The files below `path`, links apart. -/
def files (path : Path) : Entries → List Path
  | nil => []
  | file name rest => (path ++ [name]) :: files path rest
  | dir name link _ inside rest =>
    (if link then [] else files (path ++ [name]) inside) ++ files path rest

end Entries

/-- A directory tree. -/
structure Directory where
  entries : Entries
  wellNamed : entries.wellNamed = true

/-! ## The walk -/

/-- What asking for a listing comes to. -/
inductive Listing where
  | listed
  /-- An `OSError`: reported to `onerror`, when there is one. -/
  | unlisted
  /-- Anything else that goes wrong, a `stat` of one of its entries among it. -/
  | raised
  deriving DecidableEq

/-- What a walk has yielded, the directories it has entered, and whether it raised. -/
structure Walked where
  found : List Path := []
  seen : List Text := []
  raised : Bool := false
  deriving DecidableEq

/-- A walk that goes on with what another one did. -/
def Walked.plus (w more : Walked) : Walked := { more with found := w.found ++ more.found }

/-- One end as a walk of it sees it. -/
structure View where
  /-- `os.walk`, which asks nothing of stat ids. -/
  local_ : Bool := false
  /-- `_Links._decide`: this server can tell a link from a directory. -/
  trusted : Bool := false
  lists : Path → Listing := fun _ => .listed
  /-- Asking whether this entry is a link raises. -/
  linkFails : Path → Bool := fun _ => false
  /-- The path of the URL, as `parse` has it. -/
  top : Text := []
  /-- What the walk makes of a directory whose path comes apart, having seen these ids. -/
  astray : Path → List Text → Walked := fun _ seen => { seen := seen }

/-- A directory of this name is asked for, and yielded, at another path. -/
def View.apart (v : View) (name : Text) : Bool := !v.local_ && name.contains '?'

/-- `root[len(base):]` is the path below the top, as `_abs` resolves it. -/
def View.straight (v : View) : Bool :=
  v.local_ || !v.top.contains '?' && rstrip v.top == body (components v.top)

/-- `_identifies`: the id has more to it than zeros and colons. -/
def identifies (ident : Text) : Bool := ident.any fun c => !(c == '0' || c == ':')

/-- `_Descent.enters`, or `os.walk`'s `not islink`: the ids seen once the directory is
entered, if it is. -/
def View.enters (v : View) (link : Bool) (ident : Text) (seen : List Text) : Option (List Text) :=
  if v.local_ then if link then none else some seen
  else if v.trusted && link then none
  else if identifies ident then
    if seen.contains ident then none else some (ident :: seen)
  else some seen

/-- `_walk_entries` and the yield for one directory, before what is below it. -/
def View.visit (v : View) (path : Path) (t : Entries) (below : Walked → Walked) (w : Walked) :
    Walked :=
  match v.lists path with
  | .listed => below { w with found := w.found ++ t.own path }
  | .unlisted => w
  | .raised => { w with raised := true }

/-- `_walk` past the yield of `path`: its directories, in order. -/
def View.descend (v : View) (path : Path) : Entries → Walked → Walked
  | .nil, w => w
  | .file _ rest, w => v.descend path rest w
  | .dir name link ident inside rest, w =>
    if w.raised then w
    else if v.apart name then v.descend path rest (w.plus (v.astray (path ++ [name]) w.seen))
    else if v.trusted && v.linkFails (path ++ [name]) then { w with raised := true }
    else
      match v.enters link ident w.seen with
      | none => v.descend path rest w
      | some seen =>
        v.descend path rest
          (v.visit (path ++ [name]) inside (v.descend (path ++ [name]) inside) { w with seen })

/-- `_walk` of a whole tree. -/
def View.walk (v : View) (d : Directory) : Walked :=
  if v.straight then v.visit [] d.entries (v.descend [] d.entries) {} else v.astray [] []

/-! ## What a walk misses -/

section Walk

variable {v : View} {path x : Path} {t inside rest : Entries} {w : Walked}
  {name ident : Text} {link : Bool}

/-- A directory that was entered, with everything below it. -/
def View.entered (v : View) (path : Path) (t : Entries) (w : Walked) : Walked :=
  v.visit path t (v.descend path t) w

end Walk

/-! ## The walk of a whole tree -/

/-- What becomes of one file of a tree. -/
inductive FileOutcome where
  | copied
  /-- `sync` found it at the target already. -/
  | upToDate
  | failed
  deriving DecidableEq

/-- The arguments of `copy_tree`, and what each file and each removal comes to. -/
structure TreeJob where
  includes : List Text := []
  excludes : List Text := []
  delete : Bool := false
  dryRun : Bool := false
  /-- `_make_tree_dirs` makes the directories it has to. -/
  makesDirs : Bool := true
  sync : Bool := false
  upToDate : Path → Bool := fun _ => false
  copies : Path → Bool := fun _ => true
  /-- The files that were begun before the first failure stopped the rest. -/
  begun : Path → Bool := fun _ => true
  removes : Path → Outcome := fun _ => .done

/-- `move`, one file of the tree. -/
def TreeJob.move (job : TreeJob) (rel : Path) : FileOutcome :=
  if job.sync && job.upToDate rel then .upToDate
  else if job.copies rel then .copied
  else .failed

/-- `_selected`.  `fnmatch` is any pattern language. -/
def selected (fnmatch : Path → Text → Bool) (job : TreeJob) (rel : Path) : Bool :=
  if !job.includes.isEmpty && !job.includes.any (fnmatch rel) then false
  else !job.excludes.any (fnmatch rel)

/-- `_prune`, over what the walk of the target yields: the files that are gone. -/
def prune (keep : List Path) (dryRun : Bool) (removes : Path → Outcome) :
    List Path → List Path
  | [] => []
  | rel :: rest =>
    if keep.contains rel then prune keep dryRun removes rest
    else if dryRun then prune keep dryRun removes rest
    else
      match removes rel with
      | .done => rel :: prune keep dryRun removes rest
      | .lost => [rel]
      | .refused => []

/-- What a `copy_tree` has done. -/
structure TreeCopy where
  raised : Bool
  copied : List Path := []
  removed : List Path := []

/-- The files a tree copy sets out to copy. -/
def wanted (fnmatch : Path → Text → Bool) (job : TreeJob) (v : View) (source : Directory) :
    List Path :=
  (v.walk source).found.filter (selected fnmatch job)

/-- `copy_tree`, over a source and a target as the walks of them see them. -/
def copyTree (fnmatch : Path → Text → Bool) (job : TreeJob) (v : View) (source : Directory)
    (u : View) (target : Directory) : TreeCopy :=
  if (v.walk source).raised then { raised := true }
  else if !job.dryRun && !job.makesDirs then { raised := true }
  else
    let wanted := wanted fnmatch job v source
    if wanted.any fun rel => job.move rel == .failed then
      { raised := true
        copied := wanted.filter fun rel => job.begun rel && job.move rel == .copied }
    else
      { raised := job.delete && (u.walk target).raised
        copied := if job.dryRun then [] else wanted.filter fun rel => job.move rel == .copied
        removed :=
          if job.delete then prune wanted job.dryRun job.removes (u.walk target).found else [] }

/-! ## `rmtree` -/

/-- One request of a tree removal. -/
inductive Request where
  | list (path : Path)
  | unlink (path : Path)
  | rmdir (path : Path)
  deriving DecidableEq

/-- What the server makes of a tree removal. -/
structure Removing where
  trusted : Bool := false
  /-- The top is itself a link, which `run` refuses. -/
  atLink : Bool := false
  outcome : Request → Outcome := fun _ => .done
  /-- `_full`: a `kXR_rmdir` sent as a question is answered as it should be.  An empty
  directory goes, and a full one is said to be full. -/
  answers : Path → Bool := fun _ => true
  /-- The path of the top has a `?` in it. -/
  apart : Bool := false
  /-- The requests made for the entries of a directory whose path comes apart. -/
  astray : Path → List Request := fun _ => []

/-- The requests that had their effect, and whether the removal goes on. -/
structure Removed where
  requests : List Request
  goesOn : Bool
  deriving DecidableEq

def Removed.andThen (a b : Removed) : Removed :=
  if a.goesOn then ⟨a.requests ++ b.requests, b.goesOn⟩ else a

/-- Requests one after the other, as far as they get. -/
def Removing.perform (r : Removing) (requests : List Request) : Removed :=
  ⟨performed r.outcome requests, allDone r.outcome requests⟩

/-- `_attempt`, with `_fail` that raises. -/
def Removing.attempt (r : Removing) (request : Request) : Removed :=
  match r.outcome request with
  | .done => ⟨[request], true⟩
  | .lost => ⟨[request], false⟩
  | .refused => ⟨[], false⟩

/-- `_clear`: what is in the directory, then the directory. -/
def Removing.clear (r : Removing) (path : Path) (below : Removed) : Removed :=
  ((r.attempt (.list path)).andThen below).andThen (r.attempt (.rmdir path))

/-- What `_clear` does with the entries of the directory called `name`, which are asked for below
what `_split_cgi` leaves of its path. -/
def Removing.inside (r : Removing) (path : Path) (name : Text) (below : Removed) : Removed :=
  if name.contains '?' then r.perform (r.astray (path ++ [name])) else below

/-- `_entry`, for each entry of `path` in turn. -/
def Removing.entries (r : Removing) (path : Path) : Entries → Removed
  | .nil => ⟨[], true⟩
  | .file name rest => (r.attempt (.unlink (path ++ [name]))).andThen (r.entries path rest)
  | .dir name link _ inside rest =>
    (if link then r.attempt (.unlink (path ++ [name]))
      else if r.trusted then
        r.clear (path ++ [name]) (r.inside path name (r.entries (path ++ [name]) inside))
      else if !r.answers (path ++ [name]) then r.attempt (.unlink (path ++ [name]))
      else if inside = .nil then ⟨[], true⟩
      else r.clear (path ++ [name]) (r.inside path name (r.entries (path ++ [name]) inside))).andThen
    (r.entries path rest)

/-- `_TreeRemoval.run`. -/
def Removing.rmtree (r : Removing) (d : Directory) : Removed :=
  let entries := if r.apart then r.perform (r.astray []) else r.entries [] d.entries
  if r.atLink then ⟨[], false⟩
  else if r.trusted then r.clear [] entries
  else if !r.answers [] then ⟨[], false⟩
  else if d.entries = .nil then ⟨[], true⟩
  else r.clear [] entries

/-- `mv` between two servers, of a directory: the copy, and the requests that had their effect
on the source. -/
def mv (fnmatch : Path → Text → Bool) (recursive : Bool) (job : TreeJob) (v : View)
    (source : Directory) (u : View) (target : Directory) (r : Removing) :
    TreeCopy × List Request :=
  if !recursive then ({ raised := true }, [])
  else
    let copy := copyTree fnmatch
      { job with includes := [], excludes := [], delete := false, dryRun := false, sync := false }
      v source u target
    if copy.raised then (copy, []) else (copy, (r.rmtree source).requests)

/-! ## The removals as sequences of requests -/

namespace Removing

variable (r : Removing)

/-- The requests made to clear a directory, when none of them fails. -/
def clearing (path : Path) (below : List Request) : List Request :=
  .list path :: below ++ [.rmdir path]

/-- The requests made for the entries of the directory called `name`, when none of them fails. -/
def insideOf (path : Path) (name : Text) (below : List Request) : List Request :=
  if name.contains '?' then r.astray (path ++ [name]) else below

/-- The requests made for the entries of `path`, when none of them fails. -/
def requestsIn (path : Path) : Entries → List Request
  | .nil => []
  | .file name rest => .unlink (path ++ [name]) :: requestsIn path rest
  | .dir name link _ inside rest =>
    (if link then [.unlink (path ++ [name])]
      else if r.trusted then
        clearing (path ++ [name]) (r.insideOf path name (requestsIn (path ++ [name]) inside))
      else if !r.answers (path ++ [name]) then [.unlink (path ++ [name])]
      else if inside = .nil then []
      else clearing (path ++ [name]) (r.insideOf path name (requestsIn (path ++ [name]) inside))) ++
    requestsIn path rest

/-- The requests `rmtree` makes, when none of them fails. -/
def requests (d : Directory) : List Request :=
  let entries := if r.apart then r.astray [] else r.requestsIn [] d.entries
  if r.atLink then []
  else if r.trusted then clearing [] entries
  else if !r.answers [] then []
  else if d.entries = .nil then []
  else clearing [] entries

theorem perform_append (xs ys : List Request) :
    r.perform (xs ++ ys) = (r.perform xs).andThen (r.perform ys) := by
  rw [perform, performed_append, allDone_append, Removed.andThen, perform]
  cases allDone r.outcome xs <;> rfl

theorem attempt_eq (request : Request) : r.attempt request = r.perform [request] := by
  rw [attempt, perform, performed, allDone_cons]
  cases r.outcome request <;> rfl

theorem clear_eq (path : Path) (below : List Request) :
    r.clear path (r.perform below) = r.perform (clearing path below) := by
  rw [clear, attempt_eq, attempt_eq, ← perform_append, ← perform_append]
  rfl

theorem inside_eq (path : Path) (name : Text) (below : List Request) :
    r.inside path name (r.perform below) = r.perform (r.insideOf path name below) := by
  rw [inside, insideOf]
  split <;> rfl

theorem entries_eq (path : Path) (t : Entries) :
    r.entries path t = r.perform (r.requestsIn path t) := by
  induction t generalizing path with
  | nil => rfl
  | file name rest ih =>
    rw [entries, attempt_eq, ih, ← perform_append]
    rfl
  | dir name link ident inside rest ihInside ih =>
    rw [entries, requestsIn, perform_append, ih, ihInside, attempt_eq, inside_eq, clear_eq]
    congr 1
    split
    · rfl
    · split
      · rfl
      · split
        · rfl
        · split <;> rfl

end Removing

/-! ## What is deleted -/

section

variable {fnmatch : Path → Text → Bool} {job : TreeJob} {v u : View} {source target : Directory}
  {rel : Path}

end

end XrdClient.Copy
