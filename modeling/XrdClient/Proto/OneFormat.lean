/-
  Proto/OneFormat.lean --- one wire format per request.

  A hot request class has two encoders of the same fields.  Beside each
  precomputed layout stands the `params` it must agree with, and the rule in
  `Request.__init_subclass__` decides which classes may go on using it.  The
  rule compares functions by identity, so what it keeps is a relation between
  two places of a class table: the class that wrote the fast path, and the
  class that inherits it, have the same `params`.
-/
import Mathlib
import XrdClient.Proto.Encoders

set_option autoImplicit false

namespace XrdClient.Proto.Encoders

open XrdClient.Lib

/-! ## The two encoders of a class -/

@[simp] theorem Writer.field_some (written b : Bytes) :
    Writer.field (some written) (some b) = some (written ++ b) := rfl

@[simp] theorem Writer.field_none (w : Writer) : w.field none = none := by
  cases w <;> rfl

@[simp] theorem Writer.none_field (f : Option Bytes) : Writer.field none f = none := by
  cases f <;> rfl

@[simp] theorem Blob.raw_bytes (b : Bytes) : (Blob.bytes b).raw = some b := rfl

@[simp] theorem Blob.packable_bytes (b : Bytes) : (Blob.bytes b).packable = true := rfl

section Pack

variable (format : List Item) (args : List Arg)

@[simp] theorem pack_nil : pack [] [] = some [] := rfl

@[simp] theorem pack_pad (n : Nat) :
    pack (.x n :: format) args = (pack format args).map (List.replicate n 0 ++ ·) := rfl

@[simp] theorem pack_u8 (v : Int) :
    pack (.B :: format) (.int v :: args) =
      match unsignedField 1 v, pack format args with
      | some b, some rest => some (b ++ rest)
      | _, _ => none := rfl

@[simp] theorem pack_u16 (v : Int) :
    pack (.H :: format) (.int v :: args) =
      match unsignedField 2 v, pack format args with
      | some b, some rest => some (b ++ rest)
      | _, _ => none := rfl

@[simp] theorem pack_i32 (v : Int) :
    pack (.i :: format) (.int v :: args) =
      match signedField 4 v, pack format args with
      | some b, some rest => some (b ++ rest)
      | _, _ => none := rfl

@[simp] theorem pack_i64 (v : Int) :
    pack (.q :: format) (.int v :: args) =
      match signedField 8 v, pack format args with
      | some b, some rest => some (b ++ rest)
      | _, _ => none := rfl

@[simp] theorem pack_s (n : Nat) (b : Blob) :
    pack (.s n :: format) (.blob b :: args) =
      match if b.packable then b.raw.map (Proto.padded · n) else none, pack format args with
      | some b, some rest => some (b ++ rest)
      | _, _ => none := rfl

end Pack

/-- A template handle that `struct` takes as it is; every other field may hold
anything. -/
def Fields.Packable : Fields → Prop
  | .opening _ _ _ _ fhtemplt => fhtemplt.packable = true
  | _ => True

/-- A handle put through `_handle` is packed as `padded` writes it. -/
theorem packWith_handle (rest : List Item) (fhandle : Blob) (after : List Arg) :
    packWith (.s 4 :: rest) [] fhandle after =
      match fhandle.raw, pack rest after with
      | some b, some more => some (padded b 4 ++ more)
      | _, _ => none := by
  cases h : fhandle.raw with
  | none => simp [packWith, handleArg, h]
  | some b =>
      cases hp : pack rest after with
      | none => simp [packWith, handleArg, h, hp]
      | some more => simp [packWith, handleArg, h, hp]

/-- `HANDLE_PARAMS` packs what a handle and twelve reserved bytes write. -/
theorem handle_params_eq (fhandle : Blob) :
    packWith HANDLE_PARAMS [] fhandle [] = (Writer.new.padded fhandle 4).zeros 12 := by
  rw [HANDLE_PARAMS, packWith_handle]
  cases h : fhandle.raw <;>
    simp [Writer.padded, Writer.zeros, Writer.new, h]

/-- `READ_PARAMS` packs what a handle, an offset and a length write. -/
theorem read_params_eq (fhandle : Blob) (offset length : Int) :
    packWith READ_PARAMS [] fhandle [.int offset, .int length] =
      ((Writer.new.padded fhandle 4).i64 offset).i32 length := by
  rw [READ_PARAMS, packWith_handle]
  cases h : fhandle.raw <;> cases ho : signedField 8 offset <;> cases hl : signedField 4 length <;>
    simp [Writer.padded, Writer.i64, Writer.i32, Writer.new, h, ho, hl]

/-- `WRITE_PARAMS` packs what a handle, an offset and a path id write. -/
theorem write_params_eq (fhandle : Blob) (offset pathid : Int) :
    packWith WRITE_PARAMS [] fhandle [.int offset, .int pathid] =
      (((Writer.new.padded fhandle 4).i64 offset).u8 pathid).zeros 3 := by
  rw [WRITE_PARAMS, packWith_handle]
  cases h : fhandle.raw <;> cases ho : signedField 8 offset <;>
    cases hp : unsignedField 1 pathid <;>
    simp [Writer.padded, Writer.i64, Writer.u8, Writer.zeros, Writer.new, h, ho,
      hp]

/-- `STAT_PARAMS` packs what the options and a handle write. -/
theorem stat_params_eq (options : Int) (fhandle : Blob) :
    packWith STAT_PARAMS [.int options] fhandle [] =
      ((Writer.new.u8 options).zeros 11).padded fhandle 4 := by
  cases h : fhandle.raw <;> cases ho : unsignedField 1 options <;>
    simp [packWith, handleArg, STAT_PARAMS, Writer.padded, Writer.u8, Writer.zeros, Writer.new, h, ho]

/-- `OPEN_PARAMS` packs what an open writes, its template handle apart. -/
theorem open_params_eq (mode options optiont : Int) (fhtemplt : Blob)
    (h : fhtemplt.packable = true) :
    pack OPEN_PARAMS [.int mode, .int options, .int optiont, .blob fhtemplt] =
      ((((Writer.new.u16 mode).u16 options).u16 optiont).zeros 6).padded fhtemplt 4 := by
  cases hm : unsignedField 2 mode <;> cases ho : unsignedField 2 options <;>
    cases ht : unsignedField 2 optiont <;> cases hf : fhtemplt.raw <;>
    simp [OPEN_PARAMS, Writer.padded, Writer.u16, Writer.zeros, Writer.new, h,
      hm, ho, ht, hf]

/-- The `params` a class body or the base stands for: what a fast path written
in that body was written beside. -/
def Cls.beside (c : Cls) : Cls := if c.ownParams.isSome then c else .request

/-- Every precomputed layout of the library packs what the `params` beside it
writes. -/
theorem ownHeader_eq (c : Cls) {f p : Fields → Option Bytes} (hf : c.ownHeader = some f)
    (hp : c.beside.ownParams = some p) (fields : Fields) (hpack : fields.Packable) :
    f fields = p fields := by
  cases c <;> simp only [Cls.ownHeader, reduceCtorEq, Option.some.injEq] at hf <;>
    simp only [Cls.beside, Cls.ownParams, Option.isSome_some, Option.isSome_none, if_true,
      Bool.false_eq_true, if_false, Option.some.injEq] at hp <;>
    subst hf <;> subst hp
  case ping => rfl
  case stat => cases fields <;> first | rfl | exact stat_params_eq _ _
  case opening => cases fields <;> first | rfl | exact open_params_eq _ _ _ _ hpack
  case close => cases fields <;> first | rfl | exact handle_params_eq _
  case read => cases fields <;> first | rfl | exact read_params_eq _ _ _
  case write => cases fields <;> first | rfl | exact write_params_eq _ _ _
  case sync => cases fields <;> first | rfl | exact handle_params_eq _
  case clone => cases fields <;> first | rfl | exact handle_params_eq _
  case pgRead => cases fields <;> first | rfl | exact read_params_eq _ _ _

/-! ## The rule of `__init_subclass__` -/

section Rule

variable {F : Type}

/-- The `header_params` in a class's own dictionary. -/
def Classes.held (t : Classes F) (k : Nat) : Option (HeaderFn F) := t[k]?.bind (·.headerParams)

/-- Every class a resolution order names has been made. -/
def Classes.Closed (t : Classes F) : Prop :=
  ∀ (c : Nat) (cls : PyClass F), t[c]? = some cls → ∀ k ∈ cls.mro, k < t.length

theorem getElem?_append_left (t u : Classes F) {k : Nat} (h : k < t.length) :
    (t ++ u)[k]? = t[k]? := List.getElem?_append_left h

/-- A class of a grown table is an old one or the new one. -/
theorem getElem?_append_cases {t : Classes F} {cls made : PyClass F} {c : Nat}
    (h : (t ++ [cls])[c]? = some made) :
    (c < t.length ∧ t[c]? = some made) ∨ (c = t.length ∧ made = cls) := by
  have hlt := (List.getElem?_eq_some_iff.mp h).1
  rw [List.length_append, List.length_singleton] at hlt
  by_cases hc : c < t.length
  · exact .inl ⟨hc, by rwa [getElem?_append_left t _ hc] at h⟩
  · obtain rfl : c = t.length := by omega
    rw [List.getElem?_concat_length] at h
    exact .inr ⟨rfl, (Option.some.inj h).symm⟩

/-- A class made later changes nothing of what an earlier one resolves to. -/
theorem Classes.params_append {t : Classes F} (hclosed : t.Closed) (u : Classes F) {c : Nat}
    (h : c < t.length) : Classes.params (t ++ u) c = t.params c := by
  have hc : t[c]? = some t[c] := List.getElem?_eq_getElem h
  have hbelow := hclosed c _ hc
  have hsame : ∀ k ∈ t[c].mro, ((t ++ u)[k]?.bind (·.params)) = (t[k]?.bind (·.params)) := by
    intro k hk
    rw [getElem?_append_left t u (hbelow k hk)]
  have hfind : ∀ mro : List Nat,
      (∀ k ∈ mro, ((t ++ u)[k]?.bind (·.params)) = (t[k]?.bind (·.params))) →
      mro.findSome? (fun k => (t ++ u)[k]?.bind (·.params)) =
        mro.findSome? (fun k => t[k]?.bind (·.params)) := by
    intro mro
    induction mro with
    | nil => intro _; rfl
    | cons k mro ih =>
        intro hmro
        simp only [List.findSome?_cons, hmro k List.mem_cons_self,
          ih (fun j hj => hmro j (List.mem_cons_of_mem _ hj))]
  simp only [Classes.params, getElem?_append_left t u h, hc]
  exact hfind _ hsame

theorem Classes.owner_append {t : Classes F} (hclosed : t.Closed) (u : Classes F) {c : Nat}
    (h : c < t.length) : Classes.owner (t ++ u) c = t.owner c := by
  have hc : t[c]? = some t[c] := List.getElem?_eq_getElem h
  have hbelow := hclosed c _ hc
  simp only [Classes.owner, getElem?_append_left t u h, hc]
  apply List.find?_congr
  intro k hk
  rw [getElem?_append_left t u (hbelow k hk)]

theorem Classes.held_append (t u : Classes F) {k : Nat} (h : k < t.length) :
    Classes.held (t ++ u) k = t.held k := by
  simp [Classes.held, getElem?_append_left t u h]

/-- A request class whose fast path is the general one, or stands beside the
`params` the class resolves to. -/
def Classes.Settled (t : Classes F) (c : Nat) : Prop :=
  ∀ k, t.owner c = some k → t.held k = some .general ∨ t.params c = t.params k

/-- What making classes keeps. -/
structure Classes.Kept (base : F) (t : Classes F) : Prop where
  root : t[0]? = some { mro := [0], params := some base, headerParams := some .general }
  closed : t.Closed
  settled : ∀ (c : Nat) (cls : PyClass F), t[c]? = some cls → 0 ∈ cls.mro → t.Settled c

theorem Classes.kept_root (base : F) : Classes.Kept base (Classes.root base) := by
  refine ⟨rfl, ?_, ?_⟩
  · intro c cls hc k hk
    obtain rfl : c = 0 := by
      have := (List.getElem?_eq_some_iff.mp hc).1
      simp only [Classes.root, List.length_singleton] at this
      omega
    obtain rfl : { mro := [0], params := some base, headerParams := some .general } = cls := by
      simpa [Classes.root] using hc
    simp only [List.mem_singleton] at hk
    simp [Classes.root, hk]
  · intro c cls hc _ k hk
    obtain rfl : c = 0 := by
      have := (List.getElem?_eq_some_iff.mp hc).1
      simp only [Classes.root, List.length_singleton] at this
      omega
    have hk0 : k = 0 := by
      have : (Classes.root base).owner 0 = some 0 := rfl
      rw [this] at hk
      exact (Option.some.inj hk).symm
    exact .inl (by rw [hk0]; rfl)

/-- A table grown by one closed class. -/
theorem Classes.closed_append {t : Classes F} (hclosed : t.Closed) {cls : PyClass F}
    (h : ∀ k ∈ cls.mro, k < t.length + 1) : Classes.Closed (t ++ [cls]) := by
  intro c made hc k hk
  rw [List.length_append, List.length_singleton]
  rcases getElem?_append_cases hc with ⟨_, hold⟩ | ⟨_, rfl⟩
  · have := hclosed c made hold k hk
    omega
  · exact h k hk

/-- A class made later leaves an earlier one settled. -/
theorem Classes.Settled.append {t : Classes F} (hclosed : t.Closed) {c : Nat} (hc : c < t.length)
    (h : t.Settled c) (u : Classes F) : Classes.Settled (t ++ u) c := by
  intro k hk
  rw [Classes.owner_append hclosed u hc] at hk
  have hkt : k < t.length := by
    have hcls : t[c]? = some t[c] := List.getElem?_eq_getElem hc
    have hmem : k ∈ t[c].mro := by
      simp only [Classes.owner, hcls, Option.bind_eq_bind, Option.bind_some] at hk
      exact List.mem_of_find?_eq_some hk
    exact hclosed c _ hcls k hmem
  rw [Classes.held_append t u hkt, Classes.params_append hclosed u hc,
    Classes.params_append hclosed u hkt]
  exact h k hk

/-- A grown table is in order when the new class is settled. -/
theorem Classes.Kept.grow {base : F} {t : Classes F} (hk : t.Kept base) {cls : PyClass F}
    (hmro : ∀ k ∈ cls.mro, k < t.length + 1)
    (hnew : 0 ∈ cls.mro → Classes.Settled (t ++ [cls]) t.length) :
    Classes.Kept base (t ++ [cls]) := by
  have hpos : 0 < t.length := (List.getElem?_eq_some_iff.mp hk.root).1
  refine ⟨?_, Classes.closed_append hk.closed hmro, ?_⟩
  · rw [getElem?_append_left t _ hpos, hk.root]
  · intro c made hc hzero
    rcases getElem?_append_cases hc with ⟨hlt, hold⟩ | ⟨rfl, rfl⟩
    · exact (hk.settled c made hold hzero).append hk.closed hlt [cls]
    · exact hnew hzero

/-- A class that holds a fast path owns it. -/
theorem Classes.owner_self {t : Classes F} {cls : PyClass F} {rest : List Nat}
    (hmro : cls.mro = t.length :: rest) {f : HeaderFn F} (hf : cls.headerParams = some f) :
    Classes.owner (t ++ [cls]) t.length = some t.length := by
  simp [Classes.owner, hmro, hf]

variable [DecidableEq F]

/-- One class statement keeps the table in order: this is the rule. -/
theorem Classes.Kept.declare {base : F} {t : Classes F} (hk : t.Kept base) (d : Declaration F)
    (hbases : ∀ k ∈ d.bases, k < t.length) : (t.declare d).Kept base := by
  have hpos : 0 < t.length := (List.getElem?_eq_some_iff.mp hk.root).1
  have hmro : ∀ k ∈ t.length :: d.bases, k < t.length + 1 := by
    intro k hmem
    rcases List.mem_cons.mp hmem with rfl | hmem
    · omega
    · have := hbases k hmem
      omega
  unfold Classes.declare
  simp only
  split
  · cases howner : Classes.owner (t ++ [d.body t.length]) t.length with
    | none =>
        apply hk.grow hmro
        intro _ k hk
        rw [howner] at hk
        cases hk
    | some owner =>
        simp only
        split
        · -- The fast path was written beside another `params`.
          apply hk.grow hmro
          intro _ k hk
          rw [Classes.owner_self rfl rfl] at hk
          obtain rfl := Option.some.inj hk
          exact .inl (by simp [Classes.held])
        · rename_i hkeep
          apply hk.grow hmro
          intro _ k hk'
          rw [howner] at hk'
          obtain rfl := Option.some.inj hk'
          by_cases hzero : owner = 0
          · subst hzero
            refine .inl ?_
            rw [Classes.held_append t _ hpos, Classes.held, hk.root]
            rfl
          · have hsame : ¬ (Classes.params (t ++ [d.body t.length]) t.length ≠
                Classes.params (t ++ [d.body t.length]) owner) := fun hne => hkeep ⟨hzero, hne⟩
            exact .inr (not_ne_iff.mp hsame)
  · rename_i hnot
    apply hk.grow hmro
    intro hzero
    rcases List.mem_cons.mp hzero with hzero | hzero
    · omega
    · exact absurd hzero hnot

/-- Class statements one after another, each after its bases. -/
def Ordered : Nat → List (List Nat) → Prop
  | _, [] => True
  | n, bases :: more => (∀ k ∈ bases, k < n) ∧ Ordered (n + 1) more

instance Ordered.decidable : ∀ (n : Nat) (all : List (List Nat)), Decidable (Ordered n all)
  | _, [] => .isTrue trivial
  | n, bases :: more =>
      haveI := Ordered.decidable (n + 1) more
      inferInstanceAs (Decidable ((∀ k ∈ bases, k < n) ∧ Ordered (n + 1) more))

@[simp] theorem Classes.length_declare (t : Classes F) (d : Declaration F) :
    (t.declare d).length = t.length + 1 := by
  unfold Classes.declare
  simp only
  split
  · split
    · simp
    · split <;> simp
  · simp

/-- Every table the rule makes is in order. -/
theorem Classes.Kept.declares {base : F} {t : Classes F} (hk : t.Kept base)
    (ds : List (Declaration F)) (h : Ordered t.length (ds.map (·.bases))) :
    (ds.foldl Classes.declare t).Kept base := by
  induction ds generalizing t with
  | nil => exact hk
  | cons d ds ih =>
      obtain ⟨hbases, hmore⟩ := h
      apply ih (hk.declare d hbases)
      rw [Classes.length_declare]
      exact hmore

/-- What was made stays in front. -/
theorem Classes.declares_append (t : Classes F) (ds : List (Declaration F)) :
    ∃ more, ds.foldl Classes.declare t = t ++ more := by
  induction ds generalizing t with
  | nil => exact ⟨[], by simp⟩
  | cons d ds ih =>
      obtain ⟨more, hmore⟩ := ih (t.declare d)
      have hone : ∃ cls, t.declare d = t ++ [cls] := by
        unfold Classes.declare
        simp only
        split
        · split
          · exact ⟨_, rfl⟩
          · split <;> exact ⟨_, rfl⟩
        · exact ⟨_, rfl⟩
      obtain ⟨cls, hcls⟩ := hone
      refine ⟨cls :: more, ?_⟩
      rw [List.foldl_cons, hmore, hcls]
      simp

section Run

variable {σ : Type} (run : F → σ → Option Bytes) (self : σ)

/-- A fast path the class holds does what the `params` it stands beside does. -/
def Classes.Beside (t : Classes F) (k : Nat) : Prop :=
  ∀ f p, t.held k = some (.written f) → t.params k = some p → run f self = run p self

variable {run self}

omit [DecidableEq F] in
/-- A request class has a fast path and a `params` to resolve to. -/
theorem Classes.Kept.resolved {base : F} {t : Classes F} (hk : t.Kept base) {c : Nat}
    {cls : PyClass F} (hc : t[c]? = some cls) (hzero : 0 ∈ cls.mro) :
    (∃ k f, t.owner c = some k ∧ t.held k = some f) ∧ ∃ p, t.params c = some p := by
  constructor
  · have hsome : (cls.mro.find? fun k => (t[k]?.bind (·.headerParams)).isSome).isSome := by
      rw [List.find?_isSome]
      exact ⟨0, hzero, by simp [hk.root]⟩
    obtain ⟨k, hfind⟩ := Option.isSome_iff_exists.mp hsome
    have hheld : (t[k]?.bind (·.headerParams)).isSome = true :=
      List.find?_some (p := fun k : Nat => (t.held k).isSome) hfind
    obtain ⟨f, hf⟩ := Option.isSome_iff_exists.mp hheld
    exact ⟨k, f, by simp [Classes.owner, hc, hfind], hf⟩
  · have hsome : (cls.mro.findSome? fun k => t[k]?.bind (·.params)).isSome := by
      rw [List.findSome?_isSome_iff]
      exact ⟨0, hzero, by simp [hk.root]⟩
    obtain ⟨p, hfind⟩ := Option.isSome_iff_exists.mp hsome
    exact ⟨p, by simp [Classes.params, hc, hfind]⟩

omit [DecidableEq F] in
/-- Where every written fast path does what the `params` beside it does, every
request class has one encoding, whatever it inherits. -/
theorem Classes.Kept.runHeader_eq {base : F} {t : Classes F} (hk : t.Kept base)
    (hbeside : ∀ k, t.Beside run self k) {c : Nat} {cls : PyClass F} (hc : t[c]? = some cls)
    (hzero : 0 ∈ cls.mro) : t.runHeader run c self = t.runParams run c self := by
  obtain ⟨⟨k, f, howner, hheld⟩, p, hparams⟩ := hk.resolved hc hzero
  have hheader : t.header c = some f := by
    rw [← hheld]
    simp only [Classes.header, Classes.held, howner]
    rfl
  cases f with
  | general => simp [Classes.runHeader, hheader]
  | written f =>
      have hsame : t.params c = t.params k := by
        rcases hk.settled c cls hc hzero k howner with hgeneral | hsame
        · rw [hheld] at hgeneral
          cases hgeneral
        · exact hsame
      have := hbeside k f p hheld (by rw [← hsame, hparams])
      simp [Classes.runHeader, Classes.runParams, hheader, hparams, this]

/-- A class statement whose own fast path is right leaves all of them right. -/
theorem Classes.Kept.beside_declare {base : F} {t : Classes F} (hk : t.Kept base)
    (hbeside : ∀ k, t.Beside run self k) (d : Declaration F)
    (hown : ∀ f p, d.headerParams = some f →
      Classes.params (t ++ [d.body t.length]) t.length = some p → run f self = run p self) :
    ∀ k, (t.declare d).Beside run self k := by
  -- Older classes resolve as before, whatever the new one holds.
  have hgrow : ∀ cls : PyClass F,
      (∀ f p, cls.headerParams = some (.written f) →
        Classes.params (t ++ [cls]) t.length = some p → run f self = run p self) →
      ∀ k, Classes.Beside run self (t ++ [cls]) k := by
    intro cls hcls k f p hheld hparams
    by_cases hlt : k < t.length
    · rw [Classes.held_append t _ hlt] at hheld
      rw [Classes.params_append hk.closed _ hlt] at hparams
      exact hbeside k f p hheld hparams
    · obtain ⟨made, hmade⟩ : ∃ made, (t ++ [cls])[k]? = some made := by
        unfold Classes.held at hheld
        obtain ⟨made, hmade, _⟩ := Option.bind_eq_some_iff.mp hheld
        exact ⟨made, hmade⟩
      rcases getElem?_append_cases hmade with ⟨h, _⟩ | ⟨rfl, rfl⟩
      · exact absurd h hlt
      · refine hcls f p ?_ hparams
        simpa [Classes.held] using hheld
  have hbody : ∀ k, Classes.Beside run self (t ++ [d.body t.length]) k := by
    apply hgrow
    intro f p hf hparams
    apply hown f p _ hparams
    simpa [Declaration.body] using hf
  unfold Classes.declare
  simp only
  split
  · split
    · exact hbody
    · split
      · apply hgrow
        intro f p hf _
        cases hf
      · exact hbody
  · exact hbody

end Run

end Rule

/-! ## The library's own classes -/

section Library

variable {ν σ : Type} [DecidableEq ν]

omit [DecidableEq ν] in
/-- The resolution orders of the library, each after the classes it names. -/
theorem library_ordered : Ordered 1 ((Cls.all.tail.map (Cls.declaration ν)).map (·.bases)) := by
  rw [List.map_map]
  have hclosed : Ordered 1 (Cls.all.tail.map fun c =>
      if c.base = .request then [0] else [c.base.id, 0]) := by decide
  exact hclosed

theorem library_kept : (library ν).Kept (.params .request) :=
  (Classes.kept_root _).declares _ library_ordered

/-- A class with a fast path writes its `params` too, or takes `Request`'s. -/
theorem Cls.base_of_ownHeader (c : Cls) (h : c.ownHeader.isSome = true) :
    c.ownParams.isSome = true ∨ c.base = .request := by
  cases c <;> first | exact .inl rfl | exact .inr rfl | exact absurd h (by decide)

omit [DecidableEq ν] in
/-- The `params` a library class with a fast path resolves to, once made. -/
theorem params_declaration {t : Classes (Fn ν)} (hk : t.Kept (.params .request)) (c : Cls)
    (h : c.ownHeader.isSome = true) :
    Classes.params (t ++ [(c.declaration ν).body t.length]) t.length =
      some (.params c.beside) := by
  have hpos : 0 < t.length := (List.getElem?_eq_some_iff.mp hk.root).1
  cases hown : c.ownParams with
  | some f =>
      simp [Classes.params, Declaration.body, Cls.declaration, Cls.beside, hown]
  | none =>
      have hbase : c.base = .request := by
        rcases c.base_of_ownHeader h with hsome | hbase
        · rw [hown] at hsome
          cases hsome
        · exact hbase
      have hroot : (t ++ [(c.declaration ν).body t.length])[0]? = _ :=
        (getElem?_append_left t _ hpos).trans hk.root
      simp [Classes.params, Declaration.body, Cls.declaration, Cls.beside, hown, hbase] at hroot ⊢
      simp [hroot]

variable {attributes : σ → Fields} {other : ν → σ → Option Bytes} {self : σ}

omit [DecidableEq ν] in
/-- The class statement of a library class writes a fast path that is right. -/
theorem beside_declaration {t : Classes (Fn ν)} (hk : t.Kept (.params .request)) (c : Cls)
    (hpack : (attributes self).Packable) (f p : Fn ν)
    (hf : (c.declaration ν).headerParams = some f)
    (hp : Classes.params (t ++ [(c.declaration ν).body t.length]) t.length = some p) :
    code attributes other f self = code attributes other p self := by
  cases hown : c.ownHeader with
  | none =>
      simp only [Cls.declaration, hown, Option.map_none] at hf
      cases hf
  | some header =>
      rw [params_declaration hk c (by rw [hown]; rfl)] at hp
      obtain rfl := Option.some.inj hp
      have hheader : Fn.header c = f := by
        simpa [Cls.declaration, hown] using hf
      subst hheader
      have hbeside : ∃ params, c.beside.ownParams = some params := by
        unfold Cls.beside
        cases hparams : c.ownParams with
        | some params => exact ⟨params, by simp [hparams]⟩
        | none => exact ⟨_, rfl⟩
      obtain ⟨params, hparams⟩ := hbeside
      simp only [code, hown, hparams]
      exact ownHeader_eq c hown hparams _ hpack

/-- Every fast path of the library does what the `params` beside it does. -/
theorem library_beside (hpack : (attributes self).Packable) :
    ∀ k, (library ν).Beside (code attributes other) self k := by
  have hall : ∀ (cs : List Cls) (t : Classes (Fn ν)), t.Kept (.params .request) →
      Ordered t.length ((cs.map (Cls.declaration ν)).map (·.bases)) →
      (∀ k, t.Beside (code attributes other) self k) →
      ∀ k, ((cs.map (Cls.declaration ν)).foldl Classes.declare t).Beside
        (code attributes other) self k := by
    intro cs
    induction cs with
    | nil => intro t _ _ hbeside; exact hbeside
    | cons c cs ih =>
        intro t hk hordered hbeside
        obtain ⟨hbases, hmore⟩ := hordered
        apply ih (t.declare (c.declaration ν)) (hk.declare _ hbases)
        · rw [Classes.length_declare]
          exact hmore
        · exact hk.beside_declare hbeside _ (beside_declaration hk c hpack)
  apply hall _ _ (Classes.kept_root _) library_ordered
  intro k f p hheld _
  cases k with
  | zero => cases hheld
  | succ k => cases hheld

end Library

/-! ## Sixteen bytes -/

/-- A writer that holds `n` bytes, if nothing raised. -/
def Writer.Sized (n : Nat) (w : Writer) : Prop := ∀ b, w = some b → b.length = n

namespace Writer.Sized

variable {n : Nat} {w : Writer}

theorem new : Sized 0 Writer.new := by
  intro b hb
  cases hb
  rfl

theorem field (hw : Sized n w) {width : Nat} {f : Option Bytes}
    (hf : ∀ b, f = some b → b.length = width) : Sized (n + width) (w.field f) := by
  intro b hb
  cases hw' : w with
  | none => simp [hw'] at hb
  | some written =>
      cases hf' : f with
      | none => simp [hf'] at hb
      | some more =>
          rw [hw', hf', Writer.field_some] at hb
          obtain rfl := Option.some.inj hb
          rw [List.length_append, hw written hw', hf more hf']

theorem unsigned (hw : Sized n w) (width : Nat) (v : Int) :
    Sized (n + width) (w.field (unsignedField width v)) := by
  apply hw.field
  intro b hb
  unfold unsignedField at hb
  split at hb
  · obtain rfl := Option.some.inj hb
    exact length_beBytes _ _
  · cases hb

theorem signed (hw : Sized n w) (width : Nat) (v : Int) :
    Sized (n + width) (w.field (signedField width v)) := by
  apply hw.field
  intro b hb
  unfold signedField at hb
  split at hb
  · obtain rfl := Option.some.inj hb
    exact length_beBytes _ _
  · cases hb

theorem zeros (hw : Sized n w) (width : Nat) : Sized (n + width) (w.zeros width) := by
  apply hw.field
  intro b hb
  obtain rfl := Option.some.inj hb
  exact List.length_replicate

theorem padded (hw : Sized n w) (blob : Blob) (width : Nat) :
    Sized (n + width) (w.padded blob width) := by
  apply hw.field
  intro b hb
  obtain ⟨raw, _, rfl⟩ := Option.map_eq_some_iff.mp hb
  simp [Proto.padded]
  omega

theorem none : Sized n none := by
  intro b hb
  cases hb

end Writer.Sized

open Writer.Sized in
/-- Every `params` of the library writes sixteen bytes. -/
theorem length_ownParams (c : Cls) {f : Fields → Writer} (hf : c.ownParams = some f)
    (fields : Fields) : Writer.Sized 16 (f fields) := by
  cases c <;> simp only [Cls.ownParams, reduceCtorEq, Option.some.injEq] at hf <;> subst hf
  case request => exact new.zeros 16
  case mv =>
    cases fields with
    | mv src dst =>
        simp only
        cases src.encode with
        | none => exact Writer.Sized.none
        | some b => exact (new.zeros 14).unsigned 2 _
    | _ => exact Writer.Sized.none
  case protocol =>
    cases fields <;> first | exact Writer.Sized.none | refine (((new.unsigned 4 _).unsigned 1 _).unsigned 1 _).zeros 10
  case login =>
    cases fields <;> first | exact Writer.Sized.none | refine ((((new.signed 4 _).padded _ 8).zeros 2).unsigned 1 _).unsigned 1 _
  case auth =>
    cases fields <;> first | exact Writer.Sized.none | refine (new.zeros 12).padded _ 4
  case endSession =>
    cases fields <;> first | exact Writer.Sized.none | refine new.padded _ 16
  case bind =>
    cases fields <;> first | exact Writer.Sized.none | refine new.padded _ 16
  case sigver =>
    cases fields <;> first | exact Writer.Sized.none | refine (((((new.unsigned 2 _).unsigned 1 _).unsigned 1 _).unsigned 8 _).unsigned 1 _).zeros 3
  case stat =>
    cases fields <;> first | exact Writer.Sized.none | refine ((new.unsigned 1 _).zeros 11).padded _ 4
  case dirlist =>
    cases fields <;> first | exact Writer.Sized.none | refine (new.zeros 15).unsigned 1 _
  case locate =>
    cases fields <;> first | exact Writer.Sized.none | refine (new.unsigned 2 _).zeros 14
  case mkdir =>
    cases fields <;> first | exact Writer.Sized.none | refine ((new.unsigned 1 _).zeros 13).unsigned 2 _
  case chmod =>
    cases fields <;> first | exact Writer.Sized.none | refine (new.zeros 14).unsigned 2 _
  case truncate =>
    cases fields <;> first | exact Writer.Sized.none | refine ((new.padded _ 4).signed 8 _).zeros 4
  case query =>
    cases fields <;> first | exact Writer.Sized.none | refine (((new.unsigned 2 _).zeros 2).padded _ 4).zeros 8
  case prepare =>
    cases fields <;> first | exact Writer.Sized.none | refine ((((new.unsigned 1 _).unsigned 1 _).unsigned 2 _).unsigned 2 _).zeros 10
  case opening =>
    cases fields <;> first | exact Writer.Sized.none | refine ((((new.unsigned 2 _).unsigned 2 _).unsigned 2 _).zeros 6).padded _ 4
  case close =>
    cases fields <;> first | exact Writer.Sized.none | refine (new.padded _ 4).zeros 12
  case read =>
    cases fields <;> first | exact Writer.Sized.none | refine ((new.padded _ 4).signed 8 _).signed 4 _
  case write =>
    cases fields <;> first | exact Writer.Sized.none | refine (((new.padded _ 4).signed 8 _).unsigned 1 _).zeros 3
  case sync =>
    cases fields <;> first | exact Writer.Sized.none | refine (new.padded _ 4).zeros 12
  case readV =>
    cases fields <;> first | exact Writer.Sized.none | refine (new.zeros 15).unsigned 1 _
  case writeV =>
    cases fields <;> first | exact Writer.Sized.none | refine (new.unsigned 1 _).zeros 15
  case clone =>
    cases fields <;> first | exact Writer.Sized.none | refine (new.padded _ 4).zeros 12
  case pgRead =>
    cases fields <;> first | exact Writer.Sized.none | refine ((new.padded _ 4).signed 8 _).signed 4 _
  case pgWrite =>
    cases fields <;> first | exact Writer.Sized.none | refine ((((new.padded _ 4).signed 8 _).unsigned 1 _).unsigned 1 _).zeros 2
  case chkPoint =>
    cases fields <;> first | exact Writer.Sized.none | refine ((new.padded _ 4).zeros 11).unsigned 1 _
  case fattr =>
    cases fields <;> first | exact Writer.Sized.none | refine ((((new.padded _ 4).unsigned 1 _).unsigned 1 _).unsigned 1 _).zeros 9

/-! ## Frames -/

@[simp] theorem Buf.raw_bytes (b : Bytes) : (Buf.bytes b).raw = b := rfl

/-- Hooks whose buffers are as long as their bytes are many. -/
structure Hooks.Flat (h : Hooks) : Prop where
  payload : ∀ b, h.payload = some b → b.Flat
  pathData : ∀ b, h.pathData = some b → b.Flat

/-- The buffers joined are the frame in one piece. -/
theorem join_encodeParts (h : Hooks) (streamid : Nat) :
    (encodeParts h streamid).bind join = encode h streamid := by
  unfold encode
  split
  · rename_i hparts
    rw [hparts]
    rfl
  · rename_i frame hparts
    rw [hparts]
    simp [join, Buf.block]
  · rename_i parts _ hparts
    rw [hparts]
    rfl

/-- What an encoded request is made of. -/
structure Encoded (h : Hooks) (streamid : Nat) (parts : List Buf) where
  params : Bytes
  body : Buf
  data : Buf
  trailer : Bytes
  head : Bytes
  params_eq : h.headerParams = some params
  payload_eq : h.payload = some body
  pathData_eq : h.pathData = some data
  trailer_eq : h.trailer = some trailer
  head_eq : headerBlock streamid h.opcode params (body.raw.length + data.raw.length) = some head
  fits : body.raw.length + data.raw.length ≤ MAX_FRAME_PAYLOAD
  sixteen : params.length = 16
  assembled : assemble head body body.raw.length trailer = some parts

/-- Inverting `encode_parts` on flat buffers. -/
theorem encodeParts_cases {h : Hooks} (hflat : h.Flat) {streamid : Nat} {parts : List Buf}
    (hparts : encodeParts h streamid = some parts) : Nonempty (Encoded h streamid parts) := by
  unfold encodeParts at hparts
  cases hparams : h.headerParams with
  | none => simp [hparams] at hparts
  | some params =>
  cases hbody : h.payload with
  | none => simp [hparams, hbody] at hparts
  | some body =>
  cases htrailer : h.trailer with
  | none => simp [hparams, hbody, htrailer] at hparts
  | some trailer =>
  cases hdata : h.pathData with
  | none =>
      simp [hparams, hbody, htrailer, hdata] at hparts
  | some data =>
  have hsize := hflat.payload body hbody
  have hbeside := hflat.pathData data hdata
  unfold Buf.Flat at hsize hbeside
  simp only [hparams, hbody, htrailer, hdata, hsize, hbeside, Option.bind_eq_bind,
    Option.bind_some] at hparts
  by_cases hlen : params.length = 16
  · by_cases hfits : MAX_FRAME_PAYLOAD < body.raw.length + data.raw.length
    · simp [hlen, hfits] at hparts
    · cases hhead : headerBlock streamid h.opcode params (body.raw.length + data.raw.length) with
      | none => simp [hlen, hfits, hhead] at hparts
      | some head =>
          simp only [hlen, hfits, hhead, ne_eq, not_true_eq_false, if_false,
            Option.bind_some] at hparts
          exact ⟨⟨params, body, data, trailer, head, hparams, hbody, hdata, htrailer, hhead,
            Nat.le_of_not_lt hfits, hlen, hparts⟩⟩
  · simp [hlen] at hparts

/-- The bytes of the buffers are the header, the body and the trailer. -/
theorem raw_assemble {head : Bytes} {body : Buf} {trailer : Bytes} {parts : List Buf}
    (h : assemble head body body.raw.length trailer = some parts) :
    (parts.map Buf.raw).flatten = head ++ body.raw ++ trailer := by
  unfold assemble at h
  split at h
  · split at h
    · rename_i hempty
      obtain rfl := Option.some.inj h
      have hnil := List.eq_nil_of_length_eq_zero hempty.1
      simp [hnil, hempty.2]
    · obtain ⟨block, hblock, rfl⟩ := Option.map_eq_some_iff.mp h
      have hraw : block = body.raw := by
        cases body with
        | bytes b => exact (Option.some.inj hblock).symm
        | view shape contiguous b =>
            cases contiguous with
            | true => exact (Option.some.inj hblock).symm
            | false => cases hblock
      simp [hraw]
  · obtain rfl := Option.some.inj h
    have hbody : ((if body.raw.length = 0 then [] else [body]).map Buf.raw).flatten =
        body.raw := by
      split
      · rename_i hzero
        exact (List.eq_nil_of_length_eq_zero hzero).symm
      · simp
    have htrailer : ((if trailer = [] then [] else [Buf.bytes trailer]).map Buf.raw).flatten =
        trailer := by
      split
      · rename_i hnil
        exact hnil.symm
      · simp
    simp only [List.map_append, List.flatten_append, hbody, htrailer]
    simp

/-- What the frame of a request is: its sixteen bytes, its buffers and its
`dlen`. -/
structure OneFormat (params : Option Bytes) (h : Hooks) : Prop where
  /-- The fast path answers what `params` writes, or both raise. -/
  header : h.headerParams = params
  /-- The buffers joined are the frame in one piece, or both raise. -/
  joined : ∀ streamid, (encodeParts h streamid).bind join = encode h streamid
  /-- The frame is 24 bytes that hold the parameters and `dlen`, then the body
  and the trailer; `dlen` counts the bytes of the body and of the path data. -/
  dlen : ∀ streamid parts, encodeParts h streamid = some parts →
    ∃ head params body data trailer, h.headerParams = some params ∧ h.payload = some body ∧
      h.pathData = some data ∧ h.trailer = some trailer ∧
      (parts.map Buf.raw).flatten = head ++ body.raw ++ trailer ∧
      head.length = REQUEST_HDRLEN ∧ (head.drop 4).take 16 = params ∧
      beNat (head.drop 20) = body.raw.length + data.raw.length

/-- The four fields of a request header. -/
theorem headerBlock_fields {streamid dlen : Nat} {opcode : Int} {params head : Bytes}
    (h : headerBlock streamid opcode params dlen = some head) (hparams : params.length = 16)
    (hdlen : dlen ≤ MAX_FRAME_PAYLOAD) :
    head.length = REQUEST_HDRLEN ∧ (head.drop 4).take 16 = params ∧
      beNat (head.drop 20) = dlen := by
  obtain ⟨code, hcode, rfl⟩ := Option.map_eq_some_iff.mp h
  have hwidth : code.length = 2 := by
    unfold unsignedField at hcode
    split at hcode
    · obtain rfl := Option.some.inj hcode
      exact length_beBytes _ _
    · cases hcode
  have hfits : dlen < 256 ^ 4 := by
    unfold MAX_FRAME_PAYLOAD at hdlen
    omega
  have h4 : (beBytes 2 (streamid % 0x10000) ++ code).length = 4 := by simp [hwidth]
  have h20 : (beBytes 2 (streamid % 0x10000) ++ code ++ params).length = 20 := by
    simp [hwidth, hparams]
  refine ⟨?_, ?_, ?_⟩
  · rw [List.length_append, h20]
    simp [REQUEST_HDRLEN]
  · rw [List.append_assoc _ params, ← h4, List.drop_left, ← hparams, List.take_left]
  · rw [← h20, List.drop_left]
    exact beNat_beBytes 4 dlen hfits

/-- A request whose buffers are flat, with a right fast path, has one format. -/
theorem oneFormat_of_flat {params : Option Bytes} {h : Hooks} (hheader : h.headerParams = params)
    (hflat : h.Flat) : OneFormat params h := by
  refine ⟨hheader, join_encodeParts h, ?_⟩
  intro streamid parts hparts
  obtain ⟨e⟩ := encodeParts_cases hflat hparts
  obtain ⟨hlen, hfields, hdlen⟩ := headerBlock_fields e.head_eq e.sixteen e.fits
  exact ⟨e.head, e.params, e.body, e.data, e.trailer, e.params_eq, e.payload_eq, e.pathData_eq,
    e.trailer_eq, raw_assemble e.assembled, hlen, hfields, hdlen⟩

/-! ## The request of the machine -/

/-- The request the machine keeps: the hooks, each asked once. -/
def Hooks.request (h : Hooks) : Option Request := do
  let params ← h.headerParams
  let body ← h.payload
  let trailer ← h.trailer
  let data ← h.pathData
  let opcode ← if h.opcode < 0 then none else some h.opcode.toNat
  some ⟨opcode, params, body.raw, trailer, 0, data.raw, 0⟩

/-- Flat and in one piece, the buffers of a frame are those the machine's request
encodes to. -/
theorem encodeParts_request {h : Hooks} (hflat : h.Flat) {r : Request} (hr : h.request = some r)
    (hblock : ∀ b, h.payload = some b → b.block = some b.raw) (streamid : Nat) :
    (encodeParts h streamid).map (·.map Buf.raw) = (Proto.encodeParts r streamid).toOption := by
  cases hparams : h.headerParams with
  | none => simp [Hooks.request, hparams] at hr
  | some params =>
  cases hbody : h.payload with
  | none => simp [Hooks.request, hparams, hbody] at hr
  | some body =>
  cases htrailer : h.trailer with
  | none => simp [Hooks.request, hparams, hbody, htrailer] at hr
  | some trailer =>
  cases hdata : h.pathData with
  | none => simp [Hooks.request, hparams, hbody, htrailer, hdata] at hr
  | some data =>
  by_cases hneg : h.opcode < 0
  · simp [Hooks.request, hparams, hbody, htrailer, hdata, hneg] at hr
  simp only [Hooks.request, hparams, hbody, htrailer, hdata, hneg, Option.bind_eq_bind,
    Option.bind_some, if_false, Option.some.injEq] at hr
  subst hr
  have hsize := hflat.payload body hbody
  have hbeside := hflat.pathData data hdata
  unfold Buf.Flat at hsize hbeside
  simp only [encodeParts, Proto.encodeParts, hparams, hbody, htrailer, hdata, hsize, hbeside,
    Option.bind_eq_bind, Option.bind_some]
  by_cases hlen : params.length = 16
  · by_cases hfits : MAX_FRAME_PAYLOAD < body.raw.length + data.raw.length
    · simp [hlen, hfits, Except.toOption]
    · by_cases hcode : 0x10000 ≤ h.opcode.toNat
      · have hno : headerBlock streamid h.opcode params (body.raw.length + data.raw.length) =
            none := by
          have hout : ¬ (0 ≤ h.opcode ∧ h.opcode < 256 ^ 2) := by omega
          simp only [headerBlock, unsignedField, hout, if_false, Option.map_none]
        simp [hlen, hfits, hcode, hno, Except.toOption]
      · have hyes : headerBlock streamid h.opcode params (body.raw.length + data.raw.length) =
            some (beBytes 2 (streamid % 0x10000) ++ beBytes 2 h.opcode.toNat ++ params ++
              beBytes 4 (body.raw.length + data.raw.length)) := by
          have hin : 0 ≤ h.opcode ∧ h.opcode < 256 ^ 2 := by omega
          simp only [headerBlock, unsignedField, hin, and_self, if_true, Option.map_some]
        simp only [hlen, hfits, hcode, hyes, ne_eq, not_true_eq_false, if_false,
          Option.bind_some, assemble, hblock body hbody]
        split
        · split
          · rename_i hempty
            have hnil := List.eq_nil_of_length_eq_zero hempty.1
            simp [hnil, hempty.2, Except.toOption]
          · simp [Except.toOption]
        · by_cases hb : body.raw = [] <;> by_cases ht : trailer = [] <;>
            simp [hb, ht, Except.toOption]
  · simp [hlen, Except.toOption]

/-! ## Instances of the library -/

/-- A buffer to write that is not an octet view of another shape than its
bytes in a row. -/
def Data.Flat : Data → Prop
  | .view true shape _ b => shape = [b.length]
  | _ => True

/-- Fields the two encoders and `len` agree on. -/
structure Instance.Plain (r : Instance) : Prop where
  template : r.fields.Packable
  data : ∀ fhandle offset data pathid, r.fields = .write fhandle offset data pathid → data.Flat

theorem Data.held_flat {data : Data} (hflat : data.Flat) {b : Buf} (hb : data.held = some b) :
    b.Flat := by
  cases data with
  | bytes b =>
      obtain rfl := Option.some.inj hb
      rfl
  | bytearray b =>
      obtain rfl := Option.some.inj hb
      rfl
  | view octets shape contiguous b =>
      cases octets with
      | true =>
          obtain rfl := Option.some.inj hb
          have hshape : shape = [b.length] := hflat
          subst hshape
          rfl
      | false =>
          simp only [Data.held] at hb
          split at hb
          · cases hb
          · obtain rfl := Option.some.inj hb
            rfl

/-- A `bytes` object is flat. -/
theorem flat_of_map {f : Option Bytes} {b : Buf} (h : f.map Buf.bytes = some b) : b.Flat := by
  obtain ⟨raw, _, rfl⟩ := Option.map_eq_some_iff.mp h
  rfl

theorem flat_of_bytes {raw : Bytes} {b : Buf} (h : some (Buf.bytes raw) = some b) : b.Flat := by
  obtain rfl := Option.some.inj h
  rfl

/-- Every body is a `bytes` object, a plain write's apart. -/
theorem payload_flat {r : Instance} (hplain : r.Plain) {b : Buf}
    (h : payload r.cls r.fields = some b) : b.Flat := by
  unfold payload at h
  split at h
  all_goals first
    | exact flat_of_bytes h
    | exact flat_of_map h
    | exact absurd h (by simp)
    | (split at h
       · exact flat_of_bytes h
       · exact flat_of_map h)
    | (split at h
       · exact Data.held_flat (hplain.data _ _ _ _ ‹_›) h
       · exact flat_of_bytes h)

theorem pathData_flat {r : Instance} (hplain : r.Plain) {b : Buf}
    (h : pathData r.cls r.fields = some b) : b.Flat := by
  unfold pathData at h
  split at h
  case h_1 hfields =>
    split at h
    · exact flat_of_bytes h
    · exact Data.held_flat (hplain.data _ _ _ _ hfields) h
  all_goals first
    | exact flat_of_bytes h
    | exact absurd h (by simp)

/-- The class body an instance's `params` comes from. -/
def Cls.writer (c : Cls) : Cls := if c.ownParams.isSome then c else c.base.beside

theorem Cls.mem_all (c : Cls) : c ∈ Cls.all := by
  cases c <;> decide

/-- Every class of the library derives from `Request` and has a `params`. -/
theorem library_class (c : Cls) :
    (∃ cls, (library Empty)[c.id]? = some cls ∧ 0 ∈ cls.mro) ∧
      (library Empty).params c.id = some (.params c.writer) := by
  have hall : ∀ c ∈ Cls.all,
      ((library Empty)[c.id]?.any fun cls => decide (0 ∈ cls.mro)) = true ∧
        (library Empty).params c.id = some (.params c.writer) := by
    decide +kernel
  obtain ⟨hcls, hparams⟩ := hall c c.mem_all
  obtain ⟨cls, hcls, hzero⟩ := (Option.any_eq_true _ _).mp hcls
  exact ⟨⟨cls, hcls, of_decide_eq_true hzero⟩, hparams⟩

/-- An instance's `params` is sixteen bytes, or raises. -/
theorem length_params {r : Instance} {b : Bytes} (h : r.params = some b) : b.length = 16 := by
  have hparams := (library_class r.cls).2
  simp only [Instance.params, Classes.runParams, hparams, Option.bind_eq_bind, Option.bind_some,
    code] at h
  cases hown : r.cls.writer.ownParams with
  | none => simp [hown] at h
  | some f =>
      simp only [hown] at h
      exact length_ownParams _ hown _ b h

/-! ## One wire format -/

/-- One format for every instance of a library class, sixteen parameter bytes in
it, and for every class made on top of the library: one that writes no fast path
of its own needs nothing, and one that does must have written it beside its
`params`. -/
theorem one_wire_format :
    (∀ r : Instance, r.Plain →
      OneFormat r.params r.hooks ∧ ∀ b, r.params = some b → b.length = 16) ∧
    ∀ (ν σ : Type) [DecidableEq ν] (attributes : σ → Fields) (other : ν → σ → Option Bytes)
      (ds : List (Declaration (Fn ν))), Ordered (library ν).length (ds.map (·.bases)) →
      ∀ self : σ, (attributes self).Packable →
      (∀ k, (library ν).length ≤ k →
        (ds.foldl Classes.declare (library ν)).Beside (code attributes other) self k) →
      ∀ (c : Nat) (cls : PyClass (Fn ν)),
        (ds.foldl Classes.declare (library ν))[c]? = some cls → 0 ∈ cls.mro →
      ∀ h : Hooks,
        h.headerParams =
          (ds.foldl Classes.declare (library ν)).runHeader (code attributes other) c self →
        h.Flat →
        OneFormat
          ((ds.foldl Classes.declare (library ν)).runParams (code attributes other) c self) h := by
  constructor
  · intro r hplain
    refine ⟨oneFormat_of_flat ?_ ⟨?_, ?_⟩, fun b => length_params⟩
    · obtain ⟨⟨cls, hcls, hzero⟩, _⟩ := library_class r.cls
      have hbeside : ∀ k, (library Empty).Beside (code id nowhere) r.fields k :=
        library_beside hplain.template
      simpa only [Instance.hooks, Instance.headerParams, Instance.params] using
        library_kept.runHeader_eq hbeside hcls hzero
    · intro b hb
      exact payload_flat hplain hb
    · intro b hb
      exact pathData_flat hplain hb
  · intro ν σ _ attributes other ds hordered self hpack hwritten c cls hc hzero h hheader hflat
    have hkept := library_kept.declares ds hordered
    obtain ⟨more, hmore⟩ := Classes.declares_append (library ν) ds
    have hbeside : ∀ k,
        (ds.foldl Classes.declare (library ν)).Beside (code attributes other) self k := by
      intro k
      by_cases hk : (library ν).length ≤ k
      · exact hwritten k hk
      · have hlt : k < (library ν).length := Nat.lt_of_not_le hk
        intro f p hheld hparams
        rw [hmore, Classes.held_append _ _ hlt] at hheld
        rw [hmore, Classes.params_append library_kept.closed _ hlt] at hparams
        exact library_beside hpack k f p hheld hparams
    exact oneFormat_of_flat (hheader.trans (hkept.runHeader_eq hbeside hc hzero)) hflat

/-- A subclass of `Read` that writes its own `params` and inherits the rest. -/
def tagged : Declaration (Fn Unit) where
  bases := [Cls.read.id, 0]
  params := some (.other ())

/-- The library with `tagged` on top. -/
abbrev withTagged : Classes (Fn Unit) := [tagged].foldl Classes.declare (library Unit)

/-- Sixteen bytes `T`, whatever the instance. -/
def tag (_ : Unit) (_ : Fields) : Option Bytes := some (List.replicate 16 84)

theorem one_wire_format_tagged :
    OneFormat (some (List.replicate 16 84))
      { opcode := kXR_read, headerParams := some (List.replicate 16 84),
        payload := some (.bytes []), pathData := some (.bytes []), trailer := some [] } := by
  have hcls : withTagged[39]? =
      some { mro := [39, 28, 0], params := some (.other ()), headerParams := some .general } := by
    decide +kernel
  have hlength : (library Unit).length = 39 ∧ withTagged.length = 40 := by decide +kernel
  have hrun : withTagged.runParams (code id tag) 39 Fields.none =
      some (List.replicate 16 84) := by decide +kernel
  have hheader : withTagged.runHeader (code id tag) 39 Fields.none =
      some (List.replicate 16 84) := by decide +kernel
  have hwritten : ∀ k, (library Unit).length ≤ k →
      withTagged.Beside (code id tag) Fields.none k := by
    intro k hk f p hheld
    obtain ⟨cls, hk', hf⟩ := Option.bind_eq_some_iff.mp hheld
    obtain rfl : k = 39 := by
      have := (List.getElem?_eq_some_iff.mp hk').1
      rw [hlength.2] at this
      omega
    rw [hcls] at hk'
    obtain rfl := Option.some.inj hk'
    cases hf
  have hone := one_wire_format.2 Unit Fields id tag [tagged] (by decide +kernel) Fields.none trivial
    hwritten 39 _ hcls (by decide)
    { opcode := kXR_read, headerParams := some (List.replicate 16 84),
      payload := some (.bytes []), pathData := some (.bytes []), trailer := some [] }
    hheader.symm ⟨fun b hb => flat_of_bytes hb, fun b hb => flat_of_bytes hb⟩
  rw [hrun] at hone
  exact hone

/-- A subclass of `Request` that writes a fast path alone, beside a `params`
that is not its own. -/
def mistaken : Declaration (Fn Unit) where
  bases := [0]
  headerParams := some (.other ())

/-- The rule leaves such a class the fast path it wrote, whatever that packs. -/
theorem mistaken_keeps_its_own :
    mistaken.params = none ∧
    ([mistaken].foldl Classes.declare (library Unit)).runHeader
        (code id tag) (library Unit).length Fields.none ≠
      ([mistaken].foldl Classes.declare (library Unit)).runParams
        (code id tag) (library Unit).length Fields.none := by
  decide +kernel

end XrdClient.Proto.Encoders
