/-
  Client/Kept.lean --- what the calls of a writer leave alone.

  Source: `client/_writing.py`, and `checkpoint` of a file.

  `Keeps obs x` says that what is seen of the file through `obs` is the same however `x`
  ends.  What the server has of the file changes with every request; what does not depend
  on that (`Blind`) is kept by all of them, until a call gives the size up.
-/
import XrdClient.Client.Writing

set_option autoImplicit false

namespace XrdClient.Client.File

open XrdClient.Lib
open XrdClient.Session

section

variable {α β γ : Type} {obs : File → γ}

/-- However it ends, what is seen of the file is what it was. -/
def Keeps (obs : File → γ) (x : Op α) : Prop :=
  ∀ c, Act.Spec (fun f => obs f = c) x (fun _ f => obs f = c) fun _ f => obs f = c

theorem Keeps.pure (a : α) : Keeps obs (pure a : Op α) := fun _ => Act.Spec.pure _ fun _ hs => hs

theorem Keeps.throw (e : FileError) : Keeps obs (Act.throw e : Op α) := fun _ =>
  Act.Spec.throw _ fun _ hs => hs

theorem Keeps.bind {x : Op α} {g : α → Op β} (hx : Keeps obs x) (hg : ∀ a, Keeps obs (g a)) :
    Keeps obs (x >>= g) := fun c => Act.Spec.bind (hx c) fun a => hg a c

theorem Keeps.get_bind {g : File → Op β} (hg : ∀ f, Keeps obs (g f)) : Keeps obs (Act.get >>= g) :=
  fun c => Act.Spec.of_each fun f hf => Act.Spec.get_bind ((hg f c).conseq (fun _ hs => hs ▸ hf)
    (fun _ _ hs => hs) fun _ _ hs => hs)

theorem Keeps.modify {g : File → File} (h : ∀ f, obs (g f) = obs f) : Keeps obs (Act.modify g) :=
  fun _ f hf => (h f).trans hf

theorem Keeps.ite {c : Prop} [Decidable c] {x y : Op α} (hx : Keeps obs x) (hy : Keeps obs y) :
    Keeps obs (if c then x else y) := fun s => Act.Spec.ite (fun _ => hx s) fun _ => hy s

theorem Keeps.tryExcept {x : Op α} {handler : FileError → Op α} (hx : Keeps obs x)
    (hhandler : ∀ e, Keeps obs (handler e)) : Keeps obs (Act.tryExcept x handler) := fun c =>
  Act.Spec.tryExcept (hx c) fun e => hhandler e c

theorem Keeps.ofExcept (r : Except FileError α) : Keeps obs (Act.ofExcept r) := by
  cases r with
  | ok a => exact .pure a
  | error e => exact .throw e

theorem keeps_handle : Keeps obs handle := .get_bind fun _ => .ite (.pure _) (.throw _)

theorem handle_same {f : File} :
    Act.Spec (fun s => s = f) handle (fun _ s => s = f) fun _ _ => True :=
  Act.Spec.get_bind (Act.Spec.ite (fun _ => Act.Spec.pure _ fun _ hs => hs)
    fun _ => Act.Spec.throw _ fun _ _ => trivial)

/-- What does not depend on what the server has of the file. -/
def Blind (obs : File → γ) : Prop := ∀ (f : File) (server : Bytes), obs { f with server := server } = obs f

theorem Blind.storedEach (hobs : Blind obs) : ∀ (writes : List (Nat × Bytes)) (n : Nat) (f : File),
    obs (f.storedEach writes n) = obs f := by
  intro writes
  induction writes with
  | nil => exact fun _ _ => rfl
  | cons w rest ih => exact fun n f => (ih _ _).trans (hobs _ _)

theorem keeps_putEach (hobs : Blind obs) (fate : Fate) (writes : List (Nat × Bytes)) :
    Keeps obs (putEach fate writes) := by
  refine keeps_handle.bind fun _ => ?_
  cases fate with
  | acked => exact .modify fun f => hobs.storedEach _ _ f
  | failed n e => exact (Keeps.modify fun f => hobs.storedEach _ _ f).bind fun _ => .throw e

theorem keeps_bulkWrite (hobs : Blind obs) (way : WriteWay) (offset : Nat) (piece : Bytes) :
    Keeps obs (bulkWrite way offset piece) := by
  rw [bulkWrite]
  split
  · exact keeps_putEach hobs _ _
  · exact (keeps_putEach hobs _ _).tryExcept fun e => .ite (.throw e) (keeps_putEach hobs _ _)

theorem keeps_writeLoop (hobs : Blind obs) (ways : Nat → WriteWay) (limit : Int) (view : Bytes)
    (offset : Nat) : ∀ fuel i written, Keeps obs (writeLoop ways limit view offset fuel i written) := by
  intro fuel
  induction fuel with
  | zero => exact fun _ _ => .throw _
  | succ fuel ih =>
    exact fun i written => .ite (.pure _) ((keeps_bulkWrite hobs _ _ _).bind fun _ => ih _ _)

theorem Blind.landed (hobs : Blind obs) : ∀ (pieces : List (Nat × Bytes)) (fates : List Fate) (f : File),
    obs (f.landed pieces fates) = obs f := by
  intro pieces
  induction pieces with
  | nil => exact fun fates f => by cases fates <;> rfl
  | cons p rest ih =>
    intro fates f
    match fates with
    | [] => rfl
    | .acked :: fates | .failed _ _ :: fates => exact (ih _ _).trans (hobs _ _)

theorem keeps_stream (hobs : Blind obs) (waited : Bool) (pieces : List (Nat × Bytes)) (w : Window) :
    Keeps obs (stream waited pieces w) := by
  refine (Keeps.modify fun f => hobs.landed _ _ f).bind fun _ => ?_
  split
  · exact .throw _
  · exact .ite (.throw _) (.pure _)

theorem keeps_planeWrite (hobs : Blind obs) (w : WriteWeather) (view : Bytes) (offset : Nat) :
    Keeps obs (planeWrite w view offset) := by
  refine .get_bind fun f => .ite (.throw _) (keeps_handle.bind fun _ => ?_)
  split
  · exact .pure _
  · exact .throw _
  · exact .throw _
  · exact .ite (((keeps_stream hobs _ _ _).bind fun _ => .pure _).tryExcept fun e =>
      .ite (.pure _) (.throw e)) (.throw _)

theorem keeps_putAll (hobs : Blind obs) (fates : Nat → Fate) (translate : FileError → FileError) :
    ∀ (batches : List (List (Nat × Bytes))) (i : Nat), Keeps obs (putAll fates translate i batches) := by
  intro batches
  induction batches with
  | nil => exact fun _ => .pure _
  | cons batch rest ih =>
    exact fun i => ((keeps_putEach hobs _ _).tryExcept fun e => .throw _).bind fun _ => ih _

theorem keeps_pgwriteOnce (hobs : Blind obs) (turn : PagedTurn) (data : Bytes) (offset : Nat) :
    Keeps obs (pgwriteOnce turn data offset) := (keeps_putEach hobs _ _).bind fun _ => .pure _

theorem keeps_resendPage (hobs : Blind obs) (turns : Nat → PagedTurn) (page : Bytes) (offset : Nat) :
    ∀ left i, Keeps obs (resendPage turns page offset left i) := by
  intro left
  induction left with
  | zero => exact fun _ => .throw _
  | succ left ih => exact fun i => (keeps_pgwriteOnce hobs _ _ _).bind fun _ => .ite (.pure _) (ih _)

theorem keeps_retryPages (hobs : Blind obs) (turns : Nat → Nat → PagedTurn) (data : Bytes) (base : Nat) :
    ∀ (pages : List Int) (i : Nat), Keeps obs (retryPages turns data base pages i) := by
  intro pages
  induction pages with
  | nil => exact fun _ => .pure _
  | cons page rest ih =>
    exact fun i => Keeps.bind (.ite (keeps_resendPage hobs _ _ _ _ _) (.throw _)) fun _ => ih _

theorem keeps_control (fate : Fate) {change : File → File} (h : ∀ f, obs (change f) = obs f) :
    Keeps obs (control fate change) := by
  refine keeps_handle.bind fun _ => ?_
  cases fate with
  | acked => exact .modify h
  | failed n e =>
    refine (Keeps.modify fun f => ?_).bind fun _ => .throw e
    split
    · rfl
    · exact h f

end

end XrdClient.Client.File
