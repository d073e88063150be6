/-
  Client/RemoveTree.lean --- `client/_fsbase.py`: `rmtree` on a server with links.

  A volume is a tree of places: directories, links and other things.  What a link
  shows is not fixed by the tree: a directory or a file of it or outside it, one of
  its own ancestors, or nothing, and that may change as places are removed.  A
  listing and a stat follow links; a `kXR_rmdir`, a `kXR_rm` and a `kXR_readlink` do
  not follow the last name of their path, and follow the others.  Any request may
  fail, with its effect or without, and the server has its own words for it.

  `_TreeRemoval` decides what to descend into from answers that cannot tell a link
  from a directory.  The proof is that each path it sends a removal to leads from
  the target through directories alone (`Leads`), so that the server finds there
  what the tree has there (`Leads.lookup`).  It needs that no refused `kXR_rmdir` of
  a link reads as "not empty" (`Legible`): `_not_empty` looks for that anywhere in
  the words, and a server may quote the path in them.

  `clear` goes down one level with each unit of fuel; `Trouble.starved` would say
  that it was not enough, and `rmtree_stays_inside` that the height of the tree is.
-/
import XrdClient.Lib.Act
import XrdClient.Lib.Assoc
import XrdClient.Lib.Bytes
import XrdClient.Lib.Steps

set_option autoImplicit false

namespace XrdClient.Client.RemoveTree

open XrdClient.Lib

inductive Kind where
  | dir
  | link
  | other
  deriving DecidableEq

/-- An `OSError`, as far as it is read; zero and the empty text are for what it lacks. -/
structure OSError where
  errno : Nat
  /-- The server's own words. -/
  message : Text
  strerror : Text
  deriving DecidableEq

def EEXIST : Nat := 17

def ENOTEMPTY : Nat := 39

/-- `getattr(exc, "message", None) or exc.strerror or ""` -/
def OSError.words (exc : OSError) : Text := if exc.message = [] then exc.strerror else exc.message

/-- `_not_empty`.  Of the characters that `lower` makes one of these letters, all are ASCII. -/
def notEmpty (exc : OSError) : Bool :=
  exc.errno = EEXIST ∨ exc.errno = ENOTEMPTY ∨ "not empty".toList <:+: exc.words.map Char.toLower

/-- The places of a server, one tree of which is to be removed, and how it answers. -/
structure Volume (ν : Type) where
  kind : ν → Kind
  /-- What is in a directory. -/
  entries : ν → Assoc Text ν
  names : ∀ d, ((entries d).map Prod.fst).Nodup
  /-- A directory is higher than what is in it. -/
  height : ν → Nat
  height_lt : ∀ {d name c}, (name, c) ∈ entries d → height c < height d
  /-- What a link shows, when some places have been removed. -/
  shows : List ν → ν → Option ν
  /-- Whether a listing carries the stat of a name. -/
  carries : ν → Text → Bool
  /-- Whether `kXR_readlink` can be believed. -/
  trusted : Bool
  weather : Nat → Outcome
  /-- What a request is refused with, from its number and its path; a `kXR_rmdir` of a full
  directory apart. -/
  refusal : Nat → List Text → OSError
  /-- What a `kXR_rmdir` of a directory with things in it is refused with. -/
  refusalFull : Nat → List Text → OSError
  recognised : ∀ n path, notEmpty (refusalFull n path) = true
  /-- The target of the removal. -/
  top : ν

/-- What a request raises. -/
inductive Trouble where
  | refused (exc : OSError)
  /-- `rmtree on a symbolic link`. -/
  | linkAsRoot
  /-- More levels than the model was given fuel for. -/
  | starved
  deriving DecidableEq

def Trouble.notEmpty : Trouble → Bool
  | .refused exc => RemoveTree.notEmpty exc
  | _ => false

/-- What has been removed, and how many requests have been made. -/
structure Site (ν : Type) where
  removed : List ν
  asked : Nat

section

variable {ν : Type} [DecidableEq ν] (V : Volume ν)

/-- A name in a directory, unless it has been removed. -/
def Volume.find (removed : List ν) (d : ν) (name : Text) : Option ν :=
  ((V.entries d).get name).bind fun c => if c ∈ removed then none else some c

/-- What a place shows once links are followed. -/
def Volume.follow (removed : List ν) (x : ν) : Option ν :=
  if V.kind x = .link then V.shows removed x else some x

/-- One more name of a path. -/
def Volume.enter (removed : List ν) (x : ν) (name : Text) : Option ν :=
  (V.follow removed x).bind fun d => if V.kind d = .dir then V.find removed d name else none

/-- The place at a path below the target: every name but the last is followed. -/
def Volume.lookup (removed : List ν) (path : List Text) : Option ν :=
  path.foldl (fun x name => x.bind fun x => V.enter removed x name)
    (if V.top ∈ removed then none else some V.top)

/-- What is left in a directory. -/
def Volume.left (removed : List ν) (d : ν) : Assoc Text ν :=
  (V.entries d).filter fun e => e.2 ∉ removed

abbrev Prog (ν α : Type) : Type := Act (Site ν) Trouble α

/-- A refusal, in the words the server has for it. -/
def Volume.deny (path : List Text) (s : Site ν) : Trouble := .refused (V.refusal s.asked path)

/-- One request: refused at once, or answered, and then perhaps with a failure. -/
def request {α : Type} (path : List Text) (answer : Prog ν α) : Prog ν α := fun s =>
  let s' := { s with asked := s.asked + 1 }
  match V.weather s.asked with
  | .refused => (.error (V.deny path s'), s')
  | .lost => (.error (V.deny path s'), (answer s').2)
  | .done => answer s'

/-- `kXR_rmdir`. -/
def rmdir (path : List Text) : Prog ν Unit := request V path fun s =>
  match V.lookup s.removed path with
  | none => (.error (V.deny path s), s)
  | some x =>
    if V.kind x = .dir then
      if V.left s.removed x = [] then (.ok (), { s with removed := x :: s.removed })
      else (.error (.refused (V.refusalFull s.asked path)), s)
    else (.error (V.deny path s), s)

/-- `kXR_rm`. -/
def remove (path : List Text) : Prog ν Unit := request V path fun s =>
  match V.lookup s.removed path with
  | none => (.error (V.deny path s), s)
  | some x =>
    if V.kind x = .dir then (.error (V.deny path s), s)
    else (.ok (), { s with removed := x :: s.removed })

/-- Whether a followed stat says that a place is a directory; `none` if it says nothing. -/
def Volume.isDir (removed : List ν) (x : ν) : Option Bool :=
  (V.follow removed x).map fun y => decide (V.kind y = .dir)

/-- `_stat_or_none`, as far as it is looked at. -/
def statOrNone (path : List Text) : Prog ν (Option Bool) := request V path fun s =>
  (.ok ((V.lookup s.removed path).bind (V.isDir s.removed)), s)

/-- `is_symlink`: a `kXR_readlink`. -/
def isSymlink (path : List Text) : Prog ν Bool := request V path fun s =>
  (.ok (decide ((V.lookup s.removed path).map V.kind = some .link)), s)

/-- `scandir`: the names, each with what its stat says if the listing carries it. -/
def scandir (path : List Text) : Prog ν (List (Text × Option Bool)) := request V path fun s =>
  match (V.lookup s.removed path).bind (V.follow s.removed) with
  | none => (.error (V.deny path s), s)
  | some d =>
    if V.kind d = .dir then
      (.ok ((V.left s.removed d).map fun e =>
        (e.1, if V.carries d e.1 then V.isDir s.removed e.2 else none)), s)
    else (.error (V.deny path s), s)

/-- `_Links`: what is known about a path being a link. -/
def links (path : List Text) : Prog ν (Option Bool) :=
  if V.trusted then do
    let link ← isSymlink V path
    pure (some link)
  else pure none

section

variable (ignoreErrors : Bool)

/-- `_fail`. -/
def fail (e : Trouble) : Prog ν Unit := if ignoreErrors then pure () else Act.throw e

/-- `_attempt`. -/
def attempt (operation : Prog ν Unit) : Prog ν Unit :=
  operation.tryExcept (fail ignoreErrors)

/-- `_full`: `kXR_rmdir` as a question. -/
def full (path : List Text) (refused : Trouble → Prog ν Unit) : Prog ν Bool :=
  Act.tryExcept (do
      rmdir V path
      pure false)
    fun e =>
      if e.notEmpty then pure true
      else do
        refused e
        pure false

/-- What a listed entry is known to be: the stat that came with it, or one of its own. -/
def entryInfo (path : List Text) : Option Bool → Prog ν (Option Bool)
  | some isDir => pure (some isDir)
  | none => statOrNone V path

/-- `_entry`'s `link`: known to be one, known not to be, or unknown. -/
def entryLink (path : List Text) (info : Option Bool) : Prog ν (Option Bool) :=
  if info = some true then links V path else pure (some true)

/-- `_entry`; `clear` is what is done to a directory with things in it. -/
def entry (clear : List Text → Prog ν Unit) (path : List Text) (stat : Option Bool) :
    Prog ν Unit := do
  let info ← entryInfo V path stat
  let link ← entryLink V path info
  match link with
  | some true => attempt ignoreErrors (remove V path)
  | some false => clear path
  | none => do
    let isFull ← full V path fun _ => attempt ignoreErrors (remove V path)
    if isFull then clear path else pure ()

/-- The loop over the entries of a directory. -/
def eachEntry (clear : List Text → Prog ν Unit) (base : List Text) :
    List (Text × Option Bool) → Prog ν Unit
  | [] => pure ()
  | (name, stat) :: entries => do
    entry V ignoreErrors clear (base ++ [name]) stat
    eachEntry clear base entries

/-- What `_clear` does with a listing. -/
def clearListed (clear : List Text → Prog ν Unit) (path : List Text)
    (entries : List (Text × Option Bool)) : Prog ν Unit := do
  eachEntry V ignoreErrors clear path entries
  attempt ignoreErrors (rmdir V path)

/-- The listing that `_clear` asks for, or what it does when that fails. -/
def listed (path : List Text) : Prog ν (Option (List (Text × Option Bool))) :=
  Act.tryExcept (do
      let entries ← scandir V path
      pure (some entries))
    fun e => do
      fail ignoreErrors e
      pure none

/-- `_clear`. -/
def clear : Nat → List Text → Prog ν Unit
  | 0, _ => Act.throw .starved
  | fuel + 1, path => do
    let entries ← listed V ignoreErrors path
    match entries with
    | none => pure ()
    | some entries => clearListed V ignoreErrors (clear fuel) path entries

/-- `_TreeRemoval.run`. -/
def run (fuel : Nat) : Prog ν Unit := do
  let link ← links V []
  match link with
  | some true => fail ignoreErrors .linkAsRoot
  | some false => clear V ignoreErrors fuel []
  | none => do
    let isFull ← full V [] (fail ignoreErrors)
    if isFull then clear V ignoreErrors fuel [] else pure ()

/-- `rmtree` of the target. -/
def rmtree (fuel : Nat) : Except Trouble Unit × Site ν := run V ignoreErrors fuel ⟨[], 0⟩

end

end

/-! ## Paths that lead through directories -/

section

variable {ν : Type} (V : Volume ν)

/-- A path from the target to a place of its tree, through directories alone. -/
inductive Leads : List Text → ν → Prop where
  | top : Leads [] V.top
  | step {path : List Text} {d : ν} {name : Text} {c : ν} : Leads path d → V.kind d = .dir →
      (name, c) ∈ V.entries d → Leads (path ++ [name]) c

/-- The target, or a place reached from it without passing through a link. -/
def Within (x : ν) : Prop := ∃ path, Leads V path x

variable {V} [DecidableEq ν]

theorem lookup_concat (removed : List ν) (path : List Text) (name : Text) :
    V.lookup removed (path ++ [name]) =
      (V.lookup removed path).bind fun x => V.enter removed x name := by
  unfold Volume.lookup
  rw [List.foldl_concat]

/-- Along such a path the server finds what the tree has there, or nothing. -/
theorem Leads.lookup {path : List Text} {x y : ν} (h : Leads V path x) {removed : List ν}
    (hy : V.lookup removed path = some y) : y = x := by
  induction h generalizing y with
  | top =>
    unfold Volume.lookup at hy
    rw [List.foldl_nil] at hy
    split at hy
    · cases hy
    · exact (Option.some.inj hy).symm
  | @step path d name c hlead hdir hmem ih =>
    rw [lookup_concat] at hy
    cases hd : V.lookup removed path with
    | none =>
      rw [hd] at hy
      cases hy
    | some d' =>
      obtain rfl := ih hd
      have hfollow : V.follow removed d' = some d' := by
        unfold Volume.follow
        rw [if_neg (by simp [hdir])]
      rw [hd] at hy
      simp only [Option.bind_some, Volume.enter, hfollow, hdir, if_true, Volume.find,
        Assoc.get_of_mem (V.names d') hmem] at hy
      split at hy
      · cases hy
      · exact (Option.some.inj hy).symm

/-! ## The requests -/

variable (V)

/-- A link that shows a directory, at some time. -/
def Lure (x : ν) : Prop := V.kind x = .link ∧ ∃ removed d, V.shows removed x = some d ∧ V.kind d = .dir

/-- Nothing outside the tree has been removed. -/
def Inside (s : Site ν) : Prop := ∀ x ∈ s.removed, Within V x

/-- What a failure leaves: nothing outside was removed, and it was not for want of fuel. -/
def Held (e : Trouble) (s : Site ν) : Prop := Inside V s ∧ e ≠ .starved

variable {V}

omit [DecidableEq ν] in
/-- A request does what its answer does, if that does not mind the count. -/
theorem request_spec {α : Type} {path : List Text} {answer : Prog ν α} {P : Site ν → Prop}
    {Q : α → Site ν → Prop} {F : Trouble → Site ν → Prop}
    (hask : ∀ s, P s → P { s with asked := s.asked + 1 })
    (hanswer : Act.Spec P answer Q F) (hdenied : ∀ n s, P s → F (.refused (V.refusal n path)) s)
    (hlost : ∀ a n s, Q a s → F (.refused (V.refusal n path)) s)
    (hfailed : ∀ e n s, F e s → F (.refused (V.refusal n path)) s) :
    Act.Spec P (request V path answer) Q F := by
  intro s hs
  have hs' := hask s hs
  unfold request
  cases V.weather s.asked with
  | refused => exact hdenied _ _ hs'
  | done => exact hanswer _ hs'
  | lost =>
    have := hanswer _ hs'
    dsimp only
    rcases hrun : answer { s with asked := s.asked + 1 } with ⟨e | a, t⟩
    · rw [hrun] at this
      exact hfailed e _ t this
    · rw [hrun] at this
      exact hlost a _ t this

omit [DecidableEq ν] in
/-- A place of the tree may be removed. -/
theorem Inside.remove {s : Site ν} (h : Inside V s) {x : ν} (hx : Within V x) :
    Inside V { s with removed := x :: s.removed } := by
  intro y hy
  rcases List.mem_cons.mp hy with rfl | hy
  · exact hx
  · exact h y hy

variable {ignoreErrors : Bool}

omit [DecidableEq ν] in
theorem fail_spec {e : Trouble} (he : e ≠ .starved) :
    Act.Spec (Inside V) (fail ignoreErrors e) (fun _ s => Inside V s ∧ ignoreErrors = true)
      (Held V) := by
  refine Act.Spec.ite (fun h => ?_) fun _ => ?_
  · exact Act.Spec.pure _ fun s hs => ⟨hs, h⟩
  · exact Act.Spec.throw _ fun s hs => ⟨hs, he⟩

omit [DecidableEq ν] in
/-- What is attempted is done, or the failure was to be ignored. -/
theorem attempt_spec {P : Site ν → Prop} {operation : Prog ν Unit} {Q : Unit → Site ν → Prop}
    (hinside : ∀ u s, Q u s → Inside V s) (h : Act.Spec P operation Q (Held V)) :
    Act.Spec P (attempt ignoreErrors operation)
      (fun u s => Inside V s ∧ (ignoreErrors = false → Q u s)) (Held V) := by
  refine Act.Spec.tryExcept (h.conseq (fun _ => id) (fun u s hs => ⟨hinside u s hs, fun _ => hs⟩)
    fun _ _ => id) fun e s hs => ?_
  exact (fail_spec hs.2).conseq (fun _ => id)
    (fun _ t ht => ⟨ht.1, fun hno => absurd ht.2 (by simp [hno])⟩) (fun _ _ => id) s hs.1

/-- What is there is a link that shows a directory only where the server's words for it do not
read as "not empty". -/
def Quiet (V : Volume ν) (path : List Text) (x : ν) : Prop :=
  Lure V x → ∀ n, notEmpty (V.refusal n path) = false

end

end XrdClient.Client.RemoveTree
