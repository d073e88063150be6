/-
  Copy/ThirdParty.lean --- a root:// third-party copy, and its clean-up.

  Source: `copy/tpc.py`, `_root_transfer`, `discard_if_empty`, `_Target`, and of
  `_root_copy` what it does to the destination: the open, whose success sets
  `made`, and the pull.

  The sibling of the engine's clean-up: it remembers whether this copy's own open
  of the destination succeeded, so it needs no guess about what was there.
-/
import XrdClient.Copy.Exclusive

set_option autoImplicit false

namespace XrdClient.Copy

open XrdClient.Lib

/-- How a third-party copy goes. -/
structure Rendezvous where
  /-- What anything before the destination's open raises. -/
  placement : Option Fault := none
  /-- What the destination's open raises. -/
  target : Option Fault := none
  /-- The open that raised had been carried out all the same. -/
  took : Bool := false
  /-- What the destination holds when the pull ends. -/
  pulled : Bytes := []
  /-- What anything after the open raises. -/
  ended : Option Fault := none
  /-- The clean-up's probe of the destination, and its removal. -/
  sight : Sight := .seen
  removes : Bool := true

/-- `_root_copy`, and whether `target.made` was set. -/
def rootCopy (overwrite : Bool) (script : Rendezvous) (w : World) : Moved Unit × Bool :=
  match script.placement with
  | some e => ((.error e, w), false)
  | none =>
    if w.file.isSome && !overwrite then ((.error (script.target.getD .exists), w), false)
    else match script.target with
      | some e => ((.error e, if script.took then w.truncate else w), false)
      | none =>
        let w := { w.truncate with file := some script.pulled }
        match script.ended with
        | some e => ((.error e, w), true)
        | none => ((.ok (), w), true)

/-- `discard_if_empty`. -/
def discardIfEmpty (script : Rendezvous) (w : World) : World :=
  match probe script.sight (w.file.map List.length), w.file with
  | .ok (some 0), some file => if script.removes then w.clear file else w
  | _, _ => w

/-- `_root_transfer`. -/
def rootTransfer (overwrite cleanup : Bool) (script : Rendezvous) (w : World) : Moved Unit :=
  match rootCopy overwrite script w with
  | ((.ok u, w), _) => (.ok u, w)
  | ((.error e, w), made) =>
    (.error e, if e.isOSError && made && cleanup then discardIfEmpty script w else w)

variable {script : Rendezvous} {w : World} {file : Bytes}

/-- The code's own flag says that the destination is this copy's. -/
theorem rootCopy_made {overwrite : Bool} (h : (rootCopy overwrite script w).2 = true) :
    (rootCopy overwrite script w).1.2.made = true := by
  unfold rootCopy at h ⊢
  split
  · next heq => simp [heq] at h
  next heq =>
  simp only [heq] at h
  split
  · next hrefused => simp [hrefused] at h
  next hfree =>
  simp only [hfree] at h
  split
  · next heq => simp [heq] at h
  · simp only
    split <;> rfl

theorem rootCopy_cleared (overwrite : Bool) (script : Rendezvous) (w : World) :
    (rootCopy overwrite script w).1.2.cleared = w.cleared := by
  unfold rootCopy
  split
  · rfl
  split
  · rfl
  split
  · simp only
    split <;> rfl
  · simp only
    split <;> rfl

/-- **A third-party copy removes only an empty destination of its own.** -/
theorem rootTransfer_own (overwrite cleanup : Bool) (script : Rendezvous) (h : OwnRemovals w) :
    OwnRemovals (rootTransfer overwrite cleanup script w).2 := by
  have hcleared := rootCopy_cleared overwrite script w
  have hmade : (rootCopy overwrite script w).2 = true →
      (rootCopy overwrite script w).1.2.made = true := rootCopy_made
  have hown : OwnRemovals (rootCopy overwrite script w).1.2 := by
    intro c hc
    rw [hcleared] at hc
    exact h c hc
  unfold rootTransfer
  split
  · next heq =>
    rw [heq] at hown
    exact hown
  next heq =>
  rw [heq] at hown hmade
  simp only
  split
  · next hclean =>
    simp only [Bool.and_eq_true] at hclean
    unfold discardIfEmpty
    split
    · next found hprobe hfile =>
      obtain ⟨-, hlength⟩ := probe_some hprobe
      simp only [hfile, Option.map_some, Option.some.injEq, List.length_eq_zero_iff] at hlength
      subst hlength
      split
      · exact hown.clear (hmade hclean.1.2)
      · exact hown
    · exact hown
  · exact hown

/-- **An exclusive third-party copy leaves a destination that is there alone.** -/
theorem rootTransfer_keeps (cleanup : Bool) (script : Rendezvous) (h : Holds file w) :
    Holds file (rootTransfer false cleanup script w).2 := by
  have hrefused : ∃ e, rootCopy false script w = ((.error e, w), false) := by
    unfold rootCopy
    rw [Holds] at h
    split
    · exact ⟨_, rfl⟩
    · exact ⟨_, by simp only [h]; rfl⟩
  obtain ⟨e, heq⟩ := hrefused
  simp only [rootTransfer, heq, Bool.and_false, Bool.false_and]
  exact h

end XrdClient.Copy
