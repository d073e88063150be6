/-
  Lib/Logged.lean --- programs that keep a log.

  A log is a list of events beside the state.  It is written and never read, so a
  program that keeps one does what the same program does without it (`Erases`), and a
  statement about the order of things in a run is a statement about the log of that run.
-/
import Mathlib
import XrdClient.Lib.Act

set_option autoImplicit false

namespace XrdClient.Lib.Act

variable {σ ε ω α β : Type}

/-- A program that does not know of the log. -/
def lift (x : Act σ ε α) : Act (σ × List ω) ε α := fun s => ((x s.1).1, ((x s.1).2, s.2))

/-- Events are written. -/
def emit (events : List ω) : Act (σ × List ω) ε Unit := fun s => (.ok (), (s.1, s.2 ++ events))

/-- Without its log, `y` is `x`. -/
def Erases (y : Act (σ × List ω) ε α) (x : Act σ ε α) : Prop :=
  ∀ s log, ((y (s, log)).1, (y (s, log)).2.1) = x s

theorem Erases.lift (x : Act σ ε α) : Erases (lift x : Act (σ × List ω) ε α) x := fun _ _ => rfl

theorem Erases.pure (a : α) : Erases (Pure.pure a : Act (σ × List ω) ε α) (Pure.pure a) :=
  fun _ _ => rfl

theorem Erases.throw (e : ε) : Erases (Act.throw e : Act (σ × List ω) ε α) (Act.throw e) :=
  fun _ _ => rfl

theorem Erases.bind {y : Act (σ × List ω) ε α} {x : Act σ ε α} {g : α → Act (σ × List ω) ε β}
    {f : α → Act σ ε β} (hx : Erases y x) (hf : ∀ a, Erases (g a) (f a)) :
    Erases (y >>= g) (x >>= f) := by
  intro s log
  have hfirst := hx s log
  rw [bind_apply, bind_apply]
  rcases hy : y (s, log) with ⟨_ | a, s', log'⟩
  · rw [hy] at hfirst
    rw [← hfirst]
  · rw [hy] at hfirst
    rw [← hfirst]
    exact hf a s' log'

/-- What is written is not there for the program without the log. -/
theorem Erases.emit_bind {events : List ω} {y : Unit → Act (σ × List ω) ε α} {x : Act σ ε α}
    (h : Erases (y ()) x) : Erases (emit events >>= y) x :=
  fun s log => h s (log ++ events)

theorem Erases.ite {c : Prop} [Decidable c] {y y' : Act (σ × List ω) ε α} {x x' : Act σ ε α}
    (h : Erases y x) (h' : Erases y' x') :
    Erases (if c then y else y') (if c then x else x') := by
  split
  · exact h
  · exact h'

theorem Erases.tryFinally {y : Act (σ × List ω) ε α} {x : Act σ ε α} (h : Erases y x)
    (z : Act σ ε Unit) : Erases (tryFinally y (Act.lift z)) (tryFinally x z) := by
  intro s log
  have hfirst := h s log
  unfold Act.tryFinally
  rcases hy : y (s, log) with ⟨result, s', log'⟩
  rw [hy] at hfirst
  rw [← hfirst]
  unfold Act.lift
  dsimp only
  rcases z s' with ⟨_ | _, s''⟩ <;> rfl

theorem Erases.tryFinallyQuiet (quiet : Bool) {y : Act (σ × List ω) ε α} {x : Act σ ε α}
    (h : Erases y x) (z : Act σ ε Unit) :
    Erases (tryFinallyQuiet quiet y (Act.lift z)) (tryFinallyQuiet quiet x z) := by
  intro s log
  have hfirst := h s log
  unfold Act.tryFinallyQuiet
  rcases hy : y (s, log) with ⟨_ | a, s', log'⟩
  all_goals
    rw [hy] at hfirst
    rw [← hfirst]
    unfold Act.lift
    dsimp only
  rcases z s' with ⟨_ | _, s''⟩ <;> rfl

/-! ## Triples -/

/-- A triple of the program, beside a log that it leaves as it is. -/
theorem Sat.lift {P : σ → Prop} {x : Act σ ε α} {Q : α → σ → Prop} {E : σ → Prop}
    (h : Sat P x Q E) (log : List ω) :
    Sat (fun s : σ × List ω => P s.1 ∧ s.2 = log) (Act.lift x) (fun a s => Q a s.1 ∧ s.2 = log)
      (fun s => E s.1 ∧ s.2 = log) := by
  rintro ⟨s, _⟩ ⟨hs, rfl⟩
  have := h s hs
  unfold Act.lift
  rcases hx : x s with ⟨_ | a, s'⟩ <;> rw [hx] at this <;> exact ⟨this, rfl⟩

theorem Spec.lift {P : σ → Prop} {x : Act σ ε α} {Q : α → σ → Prop} {F : ε → σ → Prop}
    (h : Spec P x Q F) (log : List ω) :
    Spec (fun s : σ × List ω => P s.1 ∧ s.2 = log) (Act.lift x) (fun a s => Q a s.1 ∧ s.2 = log)
      (fun e s => F e s.1 ∧ s.2 = log) := by
  rintro ⟨s, _⟩ ⟨hs, rfl⟩
  have := h s hs
  unfold Act.lift
  rcases hx : x s with ⟨_ | a, s'⟩ <;> rw [hx] at this <;> exact ⟨this, rfl⟩

theorem Sat.emit {P : σ × List ω → Prop} {Q : Unit → σ × List ω → Prop} {E : σ × List ω → Prop}
    (events : List ω) (h : ∀ s log, P (s, log) → Q () (s, log ++ events)) :
    Sat P (Act.emit events : Act (σ × List ω) ε Unit) Q E :=
  fun s hs => h s.1 s.2 hs

end XrdClient.Lib.Act
