/-
  Lib/Act.lean --- programs over a state that they keep when they raise.

  An `Act` reads and writes a state and returns or raises; whatever it had done
  by then stays done.  `Sat P x Q E` is the triple for it: from a state in `P`,
  `x` returns in `Q` or raises in `E`.  The rules follow the shape of the program:
  `bind`, the test, the loop with fuel, and the block that runs whatever happened
  before it.
-/
import Mathlib

set_option autoImplicit false

namespace XrdClient.Lib

/-- A program over states `σ` that raises `ε` or returns `α`. -/
def Act (σ ε α : Type) : Type := σ → Except ε α × σ

namespace Act

variable {σ ε α β : Type}

instance : Monad (Act σ ε) where
  pure a := fun s => (.ok a, s)
  bind x f := fun s =>
    match x s with
    | (.ok a, s) => f a s
    | (.error e, s) => (.error e, s)

/-- `raise e`. -/
def throw (e : ε) : Act σ ε α := fun s => (.error e, s)

/-- The state as it is. -/
def get : Act σ ε σ := fun s => (.ok s, s)

/-- The state, changed. -/
def modify (f : σ → σ) : Act σ ε Unit := fun s => (.ok (), f s)

/-- The value of a computation that may have raised. -/
def ofExcept : Except ε α → Act σ ε α
  | .ok a => pure a
  | .error e => throw e

/-- `try: x finally: y`.  What `y` raises replaces what `x` raised. -/
def tryFinally (x : Act σ ε α) (y : Act σ ε Unit) : Act σ ε α := fun s =>
  match x s with
  | (result, s) =>
    match y s with
    | (.ok (), s) => (result, s)
    | (.error e, s) => (.error e, s)

/-- `tryFinally`, where what `y` raises is dropped if `x` raised, or if asked. -/
def tryFinallyQuiet (quiet : Bool) (x : Act σ ε α) (y : Act σ ε Unit) : Act σ ε α := fun s =>
  match x s with
  | (.error e, s) => (.error e, (y s).2)
  | (.ok a, s) =>
    match y s with
    | (.ok (), s) => (.ok a, s)
    | (.error e, s) => (if quiet then .ok a else .error e, s)

/-- `try: x except e: handler(e)`. -/
def tryExcept (x : Act σ ε α) (handler : ε → Act σ ε α) : Act σ ε α := fun s =>
  match x s with
  | (.ok a, s) => (.ok a, s)
  | (.error e, s) => handler e s

/-- A program on a part of the state. -/
def zoom {τ : Type} (part : σ → τ) (put : τ → σ → σ) (x : Act τ ε α) : Act σ ε α := fun s =>
  match x (part s) with
  | (result, t) => (result, put t s)

/-! ## Runs from one state -/

theorem bind_apply (x : Act σ ε α) (f : α → Act σ ε β) (s : σ) :
    (x >>= f) s = match x s with
      | (.ok a, s') => f a s'
      | (.error e, s') => (.error e, s') := rfl

theorem bind_of_ok {x : Act σ ε α} {s s' : σ} {a : α} (h : x s = (.ok a, s'))
    (f : α → Act σ ε β) : (x >>= f) s = f a s' := by
  rw [bind_apply, h]

theorem bind_of_error {x : Act σ ε α} {s s' : σ} {e : ε} (h : x s = (.error e, s'))
    (f : α → Act σ ε β) : (x >>= f) s = (.error e, s') := by
  rw [bind_apply, h]

/-- A program that returns what another returned is that one. -/
theorem bind_pure_self (x : Act σ ε α) : (x >>= fun a => pure a) = x := by
  funext s
  rw [bind_apply]
  rcases x s with ⟨_ | _, _⟩ <;> rfl

/-- A run is what it returns and the state it leaves. -/
theorem eq_of_value {x : Act σ ε α} {s : σ} {a : α} (h : (x s).1 = .ok a) :
    x s = (.ok a, (x s).2) :=
  Prod.ext h rfl

/-- A program that only looks at what another returned ends where that one does. -/
theorem bind_pure_state (x : Act σ ε α) (g : α → β) (s : σ) :
    ((do let a ← x; pure (g a)) s).2 = (x s).2 := by
  rcases h : x s with ⟨_ | a, s'⟩
  · rw [bind_of_error h]
  · rw [bind_of_ok h]
    rfl

/-! ## Triples -/

/-- From `P`, the program returns in `Q` or raises in `E`. -/
def Sat (P : σ → Prop) (x : Act σ ε α) (Q : α → σ → Prop) (E : σ → Prop) : Prop :=
  ∀ s, P s → match x s with
    | (.ok a, s') => Q a s'
    | (.error _, s') => E s'

variable {P P' : σ → Prop} {Q Q' : α → σ → Prop} {R : β → σ → Prop} {E E' : σ → Prop}
  {x : Act σ ε α} {f : α → Act σ ε β}

theorem Sat.ok (h : Sat P x Q E) {s s' : σ} {a : α} (hs : P s) (hx : x s = (.ok a, s')) :
    Q a s' := by
  have := h s hs
  rwa [hx] at this

theorem Sat.error (h : Sat P x Q E) {s s' : σ} {e : ε} (hs : P s) (hx : x s = (.error e, s')) :
    E s' := by
  have := h s hs
  rwa [hx] at this

theorem Sat.pure (a : α) (h : ∀ s, P s → Q a s) : Sat P (pure a : Act σ ε α) Q E := h

theorem Sat.throw (e : ε) (h : ∀ s, P s → E s) : Sat P (throw e : Act σ ε α) Q E := h

theorem Sat.get (Q : σ → σ → Prop) (h : ∀ s, P s → Q s s) : Sat P (get : Act σ ε σ) Q E := h

theorem Sat.modify {Q : Unit → σ → Prop} (g : σ → σ) (h : ∀ s, P s → Q () (g s)) :
    Sat P (modify g : Act σ ε Unit) Q E := h

theorem Sat.bind (hx : Sat P x Q E) (hf : ∀ a, Sat (Q a) (f a) R E) : Sat P (x >>= f) R E := by
  intro s hs
  have hfirst := hx s hs
  show match (match x s with
    | (.ok a, s) => f a s
    | (.error e, s) => (.error e, s)) with
    | (.ok b, s') => R b s'
    | (.error _, s') => E s'
  rcases heq : x s with ⟨_ | a, s'⟩
  · rw [heq] at hfirst
    exact hfirst
  · rw [heq] at hfirst
    exact hf a s' hfirst

theorem Sat.conseq (h : Sat P x Q E) (hpre : ∀ s, P' s → P s) (hpost : ∀ a s, Q a s → Q' a s)
    (herr : ∀ s, E s → E' s) : Sat P' x Q' E' := by
  intro s hs
  have := h s (hpre s hs)
  rcases heq : x s with ⟨_ | a, s'⟩
  · rw [heq] at this
    exact herr s' this
  · rw [heq] at this
    exact hpost a s' this

theorem Sat.pre (h : Sat P x Q E) (hpre : ∀ s, P' s → P s) : Sat P' x Q E :=
  h.conseq hpre (fun _ _ => id) fun _ => id

theorem Sat.post (h : Sat P x Q E) (hpost : ∀ a s, Q a s → Q' a s) : Sat P x Q' E :=
  h.conseq (fun _ => id) hpost fun _ => id

theorem Sat.ite {c : Prop} [Decidable c] {y : Act σ ε α} (hx : c → Sat P x Q E)
    (hy : ¬ c → Sat P y Q E) : Sat P (if c then x else y) Q E := by
  split
  · next h => exact hx h
  · next h => exact hy h

theorem Sat.ofExcept (r : Except ε α) (hok : ∀ a, r = .ok a → ∀ s, P s → Q a s)
    (herr : ∀ e, r = .error e → ∀ s, P s → E s) : Sat P (ofExcept r) Q E := by
  cases r with
  | ok a => exact hok a rfl
  | error e => exact herr e rfl

/-- What the last block establishes holds however the first one ended. -/
theorem Sat.tryFinally {y : Act σ ε Unit} {F : σ → Prop} (hx : Sat P x (fun _ => E) E)
    (hy : Sat E y (fun _ => F) F) : Sat P (tryFinally x y) (fun _ => F) F := by
  intro s hs
  have hfirst := hx s hs
  unfold Act.tryFinally
  rcases heq : x s with ⟨result, s'⟩
  have hstate : E s' := by
    rw [heq] at hfirst
    cases result with
    | ok a => exact hfirst
    | error e => exact hfirst
  have hlast := hy s' hstate
  dsimp only
  rcases heq' : y s' with ⟨_ | u, s''⟩
  · rw [heq'] at hlast
    exact hlast
  · rw [heq'] at hlast
    cases result <;> exact hlast

/-- What the first block returned is returned, with what the last one makes of the state. -/
theorem Sat.tryFinally_value {y : Act σ ε Unit} {R : α → σ → Prop} {F : σ → Prop} (hx : Sat P x Q E)
    (hok : ∀ a, Sat (Q a) y (fun _ => R a) F) (herr : Sat E y (fun _ => F) F) :
    Sat P (Act.tryFinally x y) R F := by
  intro s hs
  have hfirst := hx s hs
  unfold Act.tryFinally
  rcases heq : x s with ⟨e | a, s'⟩
  · rw [heq] at hfirst
    have hlast := herr s' hfirst
    dsimp only
    rcases heq' : y s' with ⟨_ | u, s''⟩ <;> rw [heq'] at hlast <;> exact hlast
  · rw [heq] at hfirst
    have hlast := hok a s' hfirst
    dsimp only
    rcases heq' : y s' with ⟨_ | u, s''⟩ <;> rw [heq'] at hlast <;> exact hlast

theorem Sat.tryFinallyQuiet (quiet : Bool) {y : Act σ ε Unit} {F : σ → Prop}
    (hx : Sat P x (fun _ => E) E) (hy : Sat E y (fun _ => F) F) :
    Sat P (tryFinallyQuiet quiet x y) (fun _ => F) F := by
  intro s hs
  have hfirst := hx s hs
  unfold Act.tryFinallyQuiet
  rcases heq : x s with ⟨_ | a, s'⟩
  · rw [heq] at hfirst
    have hlast := hy s' hfirst
    dsimp only
    rcases heq' : y s' with ⟨_ | u, s''⟩ <;> rw [heq'] at hlast <;> exact hlast
  · rw [heq] at hfirst
    have hlast := hy s' hfirst
    dsimp only
    rcases heq' : y s' with ⟨_ | u, s''⟩
    · rw [heq'] at hlast
      cases quiet <;> exact hlast
    · rw [heq'] at hlast
      exact hlast

/-- Two triples of one program. -/
theorem Sat.and (h : Sat P x Q E) (h' : Sat P' x Q' E') :
    Sat (fun s => P s ∧ P' s) x (fun a s => Q a s ∧ Q' a s) fun s => E s ∧ E' s := by
  intro s hs
  have hout := h s hs.1
  have hout' := h' s hs.2
  rcases heq : x s with ⟨_ | a, s'⟩ <;> rw [heq] at hout hout' <;> exact ⟨hout, hout'⟩

/-- What holds in a good case only, beside what holds in any: in a good case the program raises
only if `N`. -/
theorem Sat.under {good N : Prop} {S S' : σ → Prop} (h : Sat P x Q E)
    (hgood : good → Sat (fun s => P s ∧ S s) x (fun _ => S') fun _ => N) :
    Sat (fun s => P s ∧ (good → S s)) x (fun a s => Q a s ∧ (good → S' s))
      fun s => E s ∧ (good → N) := by
  intro s hs
  have hany := h s hs.1
  have hsome := fun hg => hgood hg s ⟨hs.1, hs.2 hg⟩
  rcases heq : x s with ⟨_ | a, s'⟩ <;> rw [heq] at hany hsome <;> exact ⟨hany, hsome⟩

/-- A triple is a statement about each state that it starts from. -/
theorem Sat.of_each (h : ∀ a, P a → Sat (fun s => s = a) x Q E) : Sat P x Q E :=
  fun s hs => h s hs s rfl

/-- A program that looks at its state first may be reasoned about from that state. -/
theorem Sat.get_bind {g : σ → Act σ ε α} (h : ∀ a, Sat (fun s => s = a ∧ P s) (g a) Q E) :
    Sat P (Act.get >>= g) Q E :=
  Sat.bind (Sat.get (fun a s => s = a ∧ P s) fun _ hs => ⟨rfl, hs⟩) h

/-- What a change establishes, the rest of the program starts from. -/
theorem Sat.modify_bind {M : σ → Prop} {g : σ → σ} {y : Unit → Act σ ε α}
    (hg : ∀ s, P s → M (g s)) (hy : Sat M (y ()) Q E) : Sat P (Act.modify g >>= y) Q E :=
  Sat.bind (Sat.modify g hg) fun _ => hy

/-! ## Triples that name what was raised -/

/-- From `P`, the program returns in `Q` or raises in `E`, which knows what. -/
def Spec (P : σ → Prop) (x : Act σ ε α) (Q : α → σ → Prop) (E : ε → σ → Prop) : Prop :=
  ∀ s, P s → match x s with
    | (.ok a, s') => Q a s'
    | (.error e, s') => E e s'

section

variable {F F' : ε → σ → Prop}

theorem Spec.ok (h : Spec P x Q F) {s s' : σ} {a : α} (hs : P s) (hx : x s = (.ok a, s')) :
    Q a s' := by
  have := h s hs
  rwa [hx] at this

theorem Spec.error (h : Spec P x Q F) {s s' : σ} {e : ε} (hs : P s)
    (hx : x s = (.error e, s')) : F e s' := by
  have := h s hs
  rwa [hx] at this

theorem Spec.pure (a : α) (h : ∀ s, P s → Q a s) : Spec P (Pure.pure a : Act σ ε α) Q F := h

/-- A program of which nothing is asked. -/
theorem Spec.run (x : Act σ ε α) : Spec P x (fun _ _ => True) fun _ _ => True := fun s _ => by
  rcases x s with ⟨_ | _, _⟩ <;> trivial

theorem Spec.throw (e : ε) (h : ∀ s, P s → F e s) : Spec P (Act.throw e : Act σ ε α) Q F := h

theorem Spec.bind (hx : Spec P x Q F) (hf : ∀ a, Spec (Q a) (f a) R F) :
    Spec P (x >>= f) R F := by
  intro s hs
  have hfirst := hx s hs
  show match (match x s with
    | (.ok a, s) => f a s
    | (.error e, s) => (.error e, s)) with
    | (.ok b, s') => R b s'
    | (.error e, s') => F e s'
  rcases heq : x s with ⟨_ | a, s'⟩
  · rw [heq] at hfirst
    exact hfirst
  · rw [heq] at hfirst
    exact hf a s' hfirst

theorem Spec.conseq (h : Spec P x Q F) (hpre : ∀ s, P' s → P s) (hpost : ∀ a s, Q a s → Q' a s)
    (herr : ∀ e s, F e s → F' e s) : Spec P' x Q' F' := by
  intro s hs
  have := h s (hpre s hs)
  rcases heq : x s with ⟨_ | a, s'⟩
  · rw [heq] at this
    exact herr _ s' this
  · rw [heq] at this
    exact hpost a s' this

theorem Spec.ite {c : Prop} [Decidable c] {y : Act σ ε α} (hx : c → Spec P x Q F)
    (hy : ¬ c → Spec P y Q F) : Spec P (if c then x else y) Q F := by
  split
  · next h => exact hx h
  · next h => exact hy h

theorem Spec.tryExcept {handler : ε → Act σ ε α} (hx : Spec P x Q F')
    (hhandler : ∀ e, Spec (F' e) (handler e) Q F) : Spec P (Act.tryExcept x handler) Q F := by
  intro s hs
  have hfirst := hx s hs
  unfold Act.tryExcept
  rcases heq : x s with ⟨e | a, s'⟩
  · rw [heq] at hfirst
    exact hhandler e s' hfirst
  · rw [heq] at hfirst
    exact hfirst

/-- What the last block establishes holds however the first one ended. -/
theorem Spec.tryFinally {y : Act σ ε Unit} {M N : σ → Prop} (hx : Spec P x (fun _ => M) fun _ => M)
    (hy : Spec M y (fun _ => N) fun _ => N) :
    Spec P (Act.tryFinally x y) (fun _ => N) fun _ => N := by
  intro s hs
  have hfirst := hx s hs
  unfold Act.tryFinally
  rcases heq : x s with ⟨result, s'⟩
  have hstate : M s' := by
    rw [heq] at hfirst
    cases result with
    | ok a => exact hfirst
    | error e => exact hfirst
  have hlast := hy s' hstate
  dsimp only
  rcases heq' : y s' with ⟨_ | u, s''⟩
  · rw [heq'] at hlast
    exact hlast
  · rw [heq'] at hlast
    cases result <;> exact hlast

/-- The block that runs at the end decides what is raised only if the first one returned. -/
theorem Spec.tryFinallyQuiet (quiet : Bool) {y : Act σ ε Unit} {R : α → σ → Prop} (hx : Spec P x Q F)
    (hok : ∀ a s, Q a s → R a (y s).2)
    (hraise : ∀ a s e, Q a s → (y s).1 = .error e → F' e (y s).2)
    (herr : ∀ e s, F e s → F' e (y s).2) : Spec P (Act.tryFinallyQuiet quiet x y) R F' := by
  intro s hs
  have hfirst := hx s hs
  unfold Act.tryFinallyQuiet
  rcases heq : x s with ⟨e | a, s'⟩
  · rw [heq] at hfirst
    exact herr e s' hfirst
  · rw [heq] at hfirst
    have hstate := hok a s' hfirst
    have hlast := hraise a s'
    dsimp only
    rcases heq' : y s' with ⟨e | u, s''⟩
    · rw [heq'] at hstate hlast
      cases quiet with
      | true => exact hstate
      | false => exact hlast e hfirst rfl
    · rw [heq'] at hstate
      exact hstate

/-- What is established however the program ends. -/
theorem Spec.state {M : σ → Prop} (h : Spec P x (fun _ => M) fun _ => M) {s : σ} (hs : P s) :
    M (x s).2 := by
  have hout := h s hs
  rcases heq : x s with ⟨_ | a, s'⟩ <;> rw [heq] at hout <;> exact hout

/-- Two triples of one program. -/
theorem Spec.and (h : Spec P x Q F) (h' : Spec P' x Q' F') :
    Spec (fun s => P s ∧ P' s) x (fun a s => Q a s ∧ Q' a s) fun e s => F e s ∧ F' e s := by
  intro s hs
  have hout := h s hs.1
  have hout' := h' s hs.2
  rcases heq : x s with ⟨_ | a, s'⟩ <;> rw [heq] at hout hout' <;> exact ⟨hout, hout'⟩

/-- A triple is a statement about each state that it starts from. -/
theorem Spec.of_each (h : ∀ a, P a → Spec (fun s => s = a) x Q F) : Spec P x Q F :=
  fun s hs => h s hs s rfl

/-- A program that looks at the one state it starts from. -/
theorem Spec.get_bind {a : σ} {g : σ → Act σ ε α} (h : Spec (fun s => s = a) (g a) Q F) :
    Spec (fun s => s = a) (Act.get >>= g) Q F := by
  rintro s rfl
  exact h s rfl

/-- A program that changes the one state it starts from. -/
theorem Spec.modify_bind {a : σ} {g : σ → σ} {y : Unit → Act σ ε α}
    (h : Spec (fun s => s = g a) (y ()) Q F) :
    Spec (fun s => s = a) (Act.modify g >>= y) Q F := by
  rintro s rfl
  exact h (g s) rfl

theorem Spec.zoom {τ : Type} {part : σ → τ} {put : τ → σ → σ} {x : Act τ ε α} {a : σ} {I : τ → Prop}
    {O : α → τ → Prop} {E : ε → τ → Prop} (h : Spec I x O E) (ha : I (part a)) :
    Spec (fun s => s = a) (Act.zoom part put x) (fun v s => ∃ t, O v t ∧ s = put t a)
      fun e s => ∃ t, E e t ∧ s = put t a := by
  rintro s rfl
  have hout := h (part s) ha
  unfold Act.zoom
  rcases heq : x (part s) with ⟨_ | v, t⟩ <;> rw [heq] at hout <;> exact ⟨t, hout, rfl⟩

end

/-! ## What a program may raise -/

/-- Whatever the program raises, from any state, is among `p`. -/
def Raises (x : Act σ ε α) (p : ε → Prop) : Prop := ∀ s e s', x s = (.error e, s') → p e

section

variable {p : ε → Prop}

theorem Raises.pure (a : α) : Raises (Pure.pure a : Act σ ε α) p := nofun

theorem Raises.get : Raises (Act.get : Act σ ε σ) p := nofun

theorem Raises.modify (g : σ → σ) : Raises (Act.modify g : Act σ ε Unit) p := nofun

theorem Raises.throw {e : ε} (h : p e) : Raises (Act.throw e : Act σ ε α) p := by
  intro s e' s' heq
  cases heq
  exact h

theorem Raises.bind (hx : Raises x p) (hf : ∀ a, Raises (f a) p) : Raises (x >>= f) p := by
  intro s e s' heq
  rw [bind_apply] at heq
  rcases hfirst : x s with ⟨e' | a, s₁⟩
  · rw [hfirst] at heq
    cases heq
    exact hx s e s' hfirst
  · rw [hfirst] at heq
    exact hf a s₁ e s' heq

theorem Raises.ite {c : Prop} [Decidable c] {y : Act σ ε α} (hx : Raises x p) (hy : Raises y p) :
    Raises (if c then x else y) p := by
  split
  · exact hx
  · exact hy

end

end Act

end XrdClient.Lib
