/-
  Copy/Order.lean --- the order of a third-party copy's requests.

  Source: `copy/tpc.py`, `_root_copy`, `_settle`, `_rendezvous`, `_Keyed.open` and `_pull`; what
  must not break, as its header says, is the order: a source rejects a pull whose key it has not
  seen.

  What may go out is said of the log before it, without the program: which answers must be in it,
  and where the two routers stand behind it.
-/
import XrdClient.Copy.Closing
import XrdClient.Urls.RoundTrip

set_option autoImplicit false

namespace XrdClient.Copy.Tpc

open XrdClient.Lib
open XrdClient.Lib.Act
open XrdClient.Urls

/-! ## What a log says -/

/-- Where the router of an end stands behind a log. -/
def standing (at_ : End) (start : XRootDURL) (log : List Event) : XRootDURL :=
  log.foldl (fun url e => match e with
    | .asked at' _ _ stands => if at' = at_ then stands else url
    | _ => url) start

def Event.isSync : Event → Bool
  | .asked .destination (.sync _) _ _ => true
  | _ => false

/-- The end that a request opens. -/
def Event.opens : Event → Option End
  | .asked at_ (.open _ _ _) _ _ => some at_
  | _ => none

/-- How often the destination was asked to sync. -/
def syncs (log : List Event) : Nat := log.countP Event.isSync

/-- What is before the first sync. -/
def beforeSync (log : List Event) : List Event := log.takeWhile fun e => !e.isSync

section

variable (int : Text → Option Int) (su du : XRootDURL) (key : Text) (o : Options)

/-- The log begins with the source's placement. -/
def Begun (log : List Event) : Prop :=
  ∃ answer stands rest, log = .asked .source (.open (opening su PLACEMENT []) su.path false) answer stands :: rest

/-- The source's placement was answered with a handle. -/
def Placed (log : List Event) : Prop :=
  ∃ wire data stands, .asked .source (.open wire su.path false) (.ok data) stands ∈ log ∧
    (opened int su.path data).isOk = true

/-- The destination's open was answered with a handle. -/
def Held (handle : Bytes) (log : List Event) : Prop :=
  ∃ wire data stands size, .asked .destination (.open wire du.path !o.overwrite) (.ok data) stands ∈ log ∧
    opened int du.path data = .ok (handle, size)

/-- An end said that it has third-party copy. -/
def Able (at_ : End) (names : Text) (log : List Event) : Prop :=
  ∃ data stands, .asked at_ (.config names) (.ok data) stands ∈ log ∧ able (linesOf data) = true

/-- The copy delegates, and the destination said that it pulls with what it is given. -/
def Lite (log : List Event) : Prop :=
  o.delegate = true ∧
    ∃ data stands, .asked .destination (.config DESTINATION_CONFIG) (.ok data) stands ∈ log ∧
      forwards (linesOf data) = true

/-- The destination's sync was answered. -/
def Armed (handle : Bytes) (log : List Event) : Prop :=
  ∃ data stands, .asked .destination (.sync handle) (.ok data) stands ∈ log

/-- What the source is opened with for a pull from `host`. -/
def keyedWire (host capability : Text) : Text := opening su (srcOpaque key host o.tokenMode) capability

/-- The source's open with the key was answered with a handle. -/
def HasKey (log : List Event) : Prop :=
  ∃ host capability data stands, .asked .source (.open (keyedWire su key o host capability) su.path false) (.ok data) stands ∈ log ∧
    (opened int su.path data).isOk = true

/-- What may go out behind a log, from routers that stood at `src` and `dst`. -/
def Allowed (src dst : XRootDURL) (pre : List Event) : Event → Prop
  | .asked .source (.open wire _ _) _ _ =>
    (pre = [] ∧ wire = opening su PLACEMENT []) ∨
      (syncs pre = 1 ∧ (∃ handle, Armed handle pre) ∧ Able .source SOURCE_CONFIG pre ∧
        ∃ capability, wire = keyedWire su key o (standing .destination dst (beforeSync pre)).host capability)
  | .asked .source (.config _) _ _ => Able .destination DESTINATION_CONFIG pre ∧ Placed int su pre
  | .asked .source (.close _) _ _ => True
  | .asked .source _ _ _ => False
  | .asked .destination (.open wire _ _) _ _ =>
    (∀ e ∈ pre, e.opens ≠ some .destination) ∧ syncs pre = 0 ∧ ∃ origin size, wire = opening du (dstOpaque key su (hostId origin) size o) [] ∧
      (Placed int su pre ∧ origin = standing .source src pre ∨ ¬ Placed int su pre ∧ o.delegate = true ∧ origin = su)
  | .asked .destination (.config _) _ _ => ∃ handle, Held int du o handle pre
  | .asked .destination (.sync handle) _ _ =>
    Held int du o handle pre ∧ Able .destination DESTINATION_CONFIG pre ∧
      (Lite o pre ∨ Able .source SOURCE_CONFIG pre) ∧
      (syncs pre = 0 ∨ syncs pre = 1 ∧ Armed handle pre ∧ (Lite o pre ∨ HasKey int su key o pre))
  | .asked .destination (.close _) _ _ => True
  | .asked .destination _ _ _ => syncs pre = 2
  | _ => True

/-- Every event of a log was allowed behind what is before it. -/
def Ordered (src dst : XRootDURL) (log : List Event) : Prop :=
  ∀ pre e post, log = pre ++ e :: post → Allowed int su du key o src dst pre e

end

/-! ## What stays said -/

section

variable {int : Text → Option Int} {su du : XRootDURL} {key : Text} {o : Options} {src dst : XRootDURL}
  {log : List Event} {handle : Bytes} {at_ : End} {names : Text} {e : Event}

theorem standing_snoc (at_ : End) (start : XRootDURL) (log : List Event) (at' : End) (ask : Ask)
    (answer : Except Failure Bytes) (stands : XRootDURL) :
    standing at_ start (log ++ [.asked at' ask answer stands]) = if at' = at_ then stands else standing at_ start log := by
  rw [standing, List.foldl_append]
  rfl

theorem syncs_snoc (log : List Event) (e : Event) : syncs (log ++ [e]) = syncs log + if e.isSync then 1 else 0 := by
  rw [syncs, List.countP_append]
  cases h : e.isSync <;> simp [h, syncs]

theorem syncs_other (log : List Event) (h : e.isSync = false) : syncs (log ++ [e]) = syncs log := by
  rw [syncs_snoc, h]
  rfl

theorem beforeSync_of_none (h : syncs log = 0) : beforeSync log = log := by
  refine List.takeWhile_eq_self_iff.mpr fun e he => ?_
  rw [Bool.not_eq_true', Bool.eq_false_iff]
  exact List.countP_eq_zero.mp h e he

theorem beforeSync_sync (h : syncs log = 0) (he : e.isSync = true) : beforeSync (log ++ [e]) = log := by
  have hlog := beforeSync_of_none h
  unfold beforeSync at hlog ⊢
  rw [List.takeWhile_append, if_pos (by rw [hlog])]
  simp [he]

theorem Held.more (h : Held int du o handle log) (more : List Event) : Held int du o handle (log ++ more) := by
  obtain ⟨wire, data, stands, size, hmem, hopened⟩ := h
  exact ⟨wire, data, stands, size, List.mem_append_left _ hmem, hopened⟩

theorem Placed.more (h : Placed int su log) (more : List Event) : Placed int su (log ++ more) := by
  obtain ⟨wire, data, stands, hmem, hopened⟩ := h
  exact ⟨wire, data, stands, List.mem_append_left _ hmem, hopened⟩

theorem Able.more (h : Able at_ names log) (more : List Event) : Able at_ names (log ++ more) := by
  obtain ⟨data, stands, hmem, hable⟩ := h
  exact ⟨data, stands, List.mem_append_left _ hmem, hable⟩

theorem Lite.more (h : Lite o log) (more : List Event) : Lite o (log ++ more) := by
  obtain ⟨hdelegate, data, stands, hmem, hforwards⟩ := h
  exact ⟨hdelegate, data, stands, List.mem_append_left _ hmem, hforwards⟩

theorem Armed.more (h : Armed handle log) (more : List Event) : Armed handle (log ++ more) := by
  obtain ⟨data, stands, hmem⟩ := h
  exact ⟨data, stands, List.mem_append_left _ hmem⟩

theorem Ordered.snoc (h : Ordered int su du key o src dst log) (hlast : Allowed int su du key o src dst log e) :
    Ordered int su du key o src dst (log ++ [e]) := by
  intro pre e' post heq
  obtain rfl | ⟨post', last, rfl⟩ := List.eq_nil_or_concat post
  · obtain ⟨rfl, hsame⟩ := List.append_inj' heq rfl
    rw [← List.singleton_inj.mp hsame]
    exact hlast
  · rw [List.concat_eq_append, ← List.cons_append, ← List.append_assoc] at heq
    exact h pre e' post' (List.append_inj_left' heq rfl)

/-! ## Steps and what they make known -/

variable {script : Script} {w₀ : World} {α β : Type} {F G : List Event → Prop}

theorem Begun.more (h : Begun su log) (more : List Event) : Begun su (log ++ more) := by
  obtain ⟨answer, stands, rest, rfl⟩ := h
  exact ⟨answer, stands, rest ++ more, rfl⟩

/-- A run behind `w₀` whose log begins with the placement and is in order, whose routers stand where
the log says, and of whose log more is known. -/
def Told (int : Text → Option Int) (su du : XRootDURL) (key : Text) (o : Options) (w₀ : World) (F : List Event → Prop)
    (w : World) : Prop :=
  ∃ during, w.log = w₀.log ++ during ∧ w.src = standing .source w₀.src during ∧
    w.dst = standing .destination w₀.dst during ∧ Begun su during ∧
    Ordered int su du key o w₀.src w₀.dst during ∧ F during

/-- Nothing more is known. -/
abbrev InOrder (int : Text → Option Int) (su du : XRootDURL) (key : Text) (o : Options) (w₀ : World) : World → Prop :=
  Told int su du key o w₀ fun _ => True

theorem Told.imp {w : World} (h : Told int su du key o w₀ F w) (himp : ∀ log, F log → G log) :
    Told int su du key o w₀ G w := by
  obtain ⟨during, hlog, hsrc, hdst, hbegun, hordered, hknown⟩ := h
  exact ⟨during, hlog, hsrc, hdst, hbegun, hordered, himp during hknown⟩

theorem Told.inOrder {w : World} (h : Told int su du key o w₀ F w) : InOrder int su du key o w₀ w :=
  h.imp fun _ _ => trivial

/-- A request that is allowed, and what its answer makes known. -/
theorem told_execute {ask : Ask} (ok : Bytes → List Event → Prop) (error : List Event → Prop)
    (hallowed : ∀ log, F log → ∀ answer stands, Allowed int su du key o w₀.src w₀.dst log (.asked at_ ask answer stands))
    (hok : ∀ log data stands, F log → ok data (log ++ [.asked at_ ask (.ok data) stands]))
    (herror : ∀ log failure stands, F log → error (log ++ [.asked at_ ask (.error failure) stands])) :
    Spec (Told int su du key o w₀ F) (execute script at_ ask) (fun r => Told int su du key o w₀ (ok r.1))
      fun _ => Told int su du key o w₀ error := by
  rintro w ⟨during, hlog, hsrc, hdst, hbegun, hordered, hknown⟩
  have hstands : ∀ answer, (execute script at_ ask w).2.src
        = standing .source w₀.src (during ++ [.asked at_ ask answer (script.turn w.log.length).stands]) ∧
      (execute script at_ ask w).2.dst
        = standing .destination w₀.dst (during ++ [.asked at_ ask answer (script.turn w.log.length).stands]) := by
    intro answer
    rw [standing_snoc, standing_snoc]
    cases at_ with
    | source => exact ⟨rfl, hdst⟩
    | destination => exact ⟨hsrc, rfl⟩
  obtain ⟨failure, w', -, hrun, hlog'⟩ | ⟨data, w', -, hrun, hlog'⟩ := @execute_cases script at_ ask w
  · rw [hrun] at hstands ⊢
    exact ⟨_, by rw [hlog', hlog, List.append_assoc], (hstands _).1, (hstands _).2, hbegun.more _,
      hordered.snoc (hallowed _ hknown _ _), herror _ _ _ hknown⟩
  · rw [hrun] at hstands ⊢
    exact ⟨_, by rw [hlog', hlog, List.append_assoc], (hstands _).1, (hstands _).2, hbegun.more _,
      hordered.snoc (hallowed _ hknown _ _), hok _ _ _ hknown⟩

theorem told_check : Spec (Told int su du key o w₀ F) (check script) (fun _ => Told int su du key o w₀ F)
    fun _ => InOrder int su du key o w₀ := by
  intro w h
  unfold check
  cases script.check w.checks
  · exact h
  · exact h.inOrder

/-- A part of the run that nothing asked for. -/
theorem told_emit (hallowed : ∀ log, Allowed int su du key o w₀.src w₀.dst log e)
    (hstands : ∀ at_ start log, standing at_ start (log ++ [e]) = standing at_ start log)
    (hknown : ∀ log, F log → F (log ++ [e])) :
    Spec (Told int su du key o w₀ F) (emit e) (fun _ => Told int su du key o w₀ F) fun _ => InOrder int su du key o w₀ := by
  rintro w ⟨during, hlog, hsrc, hdst, hbegun, hordered, hF⟩
  exact ⟨during ++ [e], by rw [← List.append_assoc, ← hlog], by rw [hstands]; exact hsrc, by rw [hstands]; exact hdst,
    hbegun.more _, hordered.snoc (hallowed _), hknown _ hF⟩

/-- A request that nobody hears of. -/
theorem told_quietly {ask : Ask}
    (hallowed : ∀ log, F log → ∀ answer stands, Allowed int su du key o w₀.src w₀.dst log (.asked at_ ask answer stands))
    (hknown : ∀ log answer stands, F log → F (log ++ [.asked at_ ask answer stands])) :
    Spec (Told int su du key o w₀ F) (quietly script at_ ask) (fun _ => Told int su du key o w₀ F)
      fun e w => e.failure.isXRootD = false ∧ InOrder int su du key o w₀ w := by
  have hask : Spec (Told int su du key o w₀ F) (execute script at_ ask)
      (fun _ => Told int su du key o w₀ F) fun _ => Told int su du key o w₀ F :=
    told_execute (fun _ => F) F hallowed (fun _ _ _ h => hknown _ _ _ h) fun _ _ _ h => hknown _ _ _ h
  refine .tryExcept (hask.bind fun _ => .pure _ fun _ h => h) fun e => .ite (fun _ => .pure _ fun _ h => h) fun hloud => ?_
  refine .throw _ fun _ h => ⟨?_, h.inOrder⟩
  rw [Bool.not_eq_true] at hloud
  rcases e with ⟨failure, note⟩
  cases failure <;> first | rfl | exact hloud

/-! ## Up to the destination's open -/

/-- The destination was neither opened nor asked to sync. -/
def Untouched (log : List Event) : Prop := syncs log = 0 ∧ ∀ e ∈ log, e.opens ≠ some .destination

theorem Untouched.snoc (h : Untouched log) (hsync : e.isSync = false) (hopens : e.opens ≠ some .destination) :
    Untouched (log ++ [e]) :=
  ⟨(syncs_other _ hsync).trans h.1, fun e' he' => (List.mem_append.mp he').elim (h.2 e')
    fun he' => List.mem_singleton.mp he' ▸ hopens⟩

/-- Whether the source's placement worked is known, and the destination is untouched. -/
def Sited (int : Text → Option Int) (su : XRootDURL) (placed delegate : Bool) (log : List Event) : Prop :=
  Untouched log ∧ (placed = true ∧ Placed int su log ∨ placed = false ∧ ¬ Placed int su log ∧ delegate = true)

/-- The placement, with nothing before it. -/
theorem told_first : Spec (fun w => w = w₀) (execute script .source (.open (opening su PLACEMENT []) su.path false))
    (fun r => Told int su du key o w₀ fun log => ∃ stands,
      log = [.asked .source (.open (opening su PLACEMENT []) su.path false) (.ok r.1) stands])
    fun _ => Told int su du key o w₀ fun log => ∃ failure stands,
      log = [.asked .source (.open (opening su PLACEMENT []) su.path false) (.error failure) stands] := by
  rintro w rfl
  have hordered : ∀ answer stands, Ordered int su du key o w.src w.dst
      [.asked .source (.open (opening su PLACEMENT []) su.path false) answer stands] := fun answer stands pre e post heq => by
    rcases pre with _ | ⟨_, _ | ⟨_, _⟩⟩ <;> cases heq
    exact .inl ⟨rfl, rfl⟩
  have hrouters : (execute script .source (.open (opening su PLACEMENT []) su.path false) w).2.src
        = (script.turn w.log.length).stands ∧
      (execute script .source (.open (opening su PLACEMENT []) su.path false) w).2.dst = w.dst := ⟨rfl, rfl⟩
  obtain ⟨failure, w', -, hrun, hlog'⟩ | ⟨data, w', -, hrun, hlog'⟩ :=
    @execute_cases script .source (.open (opening su PLACEMENT []) su.path false) w
  · rw [hrun] at hrouters ⊢
    exact ⟨_, hlog', hrouters.1, hrouters.2, ⟨_, _, _, rfl⟩, hordered _ _, failure, _, rfl⟩
  · rw [hrun] at hrouters ⊢
    exact ⟨_, hlog', hrouters.1, hrouters.2, ⟨_, _, _, rfl⟩, hordered _ _, _, rfl⟩

theorem told_placeSource : Spec (fun w => w = w₀) (placeSource int script su)
    (fun _ => Told int su du key o w₀ fun log => Untouched log ∧ Placed int su log)
    fun e w => InOrder int su du key o w₀ w ∧ (e.failure.isXRootD = true →
      Told int su du key o w₀ (fun log => Untouched log ∧ ¬ Placed int su log) w) := by
  have hopen : Spec (fun w => w = w₀) (execute script .source (.open (opening su PLACEMENT []) su.path false))
      (fun r => Told int su du key o w₀ fun log => Untouched log ∧
        (Placed int su log ↔ (opened int su.path r.1).isOk = true))
      fun _ => Told int su du key o w₀ fun log => Untouched log ∧ ¬ Placed int su log := by
    refine told_first.conseq (fun _ h => h) (fun r w h => h.imp ?_) fun _ w h => h.imp ?_
    · rintro log ⟨stands, rfl⟩
      refine ⟨⟨rfl, by simp [Event.opens]⟩, fun ⟨wire, data', stands', hmem, hopened⟩ => ?_, fun hopened => ?_⟩
      · cases List.mem_singleton.mp hmem
        exact hopened
      · exact ⟨_, r.1, stands, List.mem_singleton_self _, hopened⟩
    · rintro log ⟨failure, stands, rfl⟩
      refine ⟨⟨rfl, by simp [Event.opens]⟩, fun ⟨wire, data', stands', hmem, hopened⟩ => ?_⟩
      cases List.mem_singleton.mp hmem
  refine (hopen.conseq (fun _ h => h) (fun _ _ h => h) fun _ w h => ⟨h.inOrder, fun _ => h⟩).bind fun r => ?_
  refine Spec.bind (Q := fun _ => Told int su du key o w₀ fun log => Untouched log ∧ Placed int su log) (fun w h => ?_)
    fun r => ?_
  · rcases hopened : opened int su.path r.1 with e | handle <;> rw [hopened] at h
    · exact ⟨h.inOrder, fun _ => h.imp fun log hlog => ⟨hlog.1, fun hplaced => by cases hlog.2.mp hplaced⟩⟩
    · exact h.imp fun log hlog => ⟨hlog.1, hlog.2.mpr rfl⟩
  · refine ((told_quietly (fun _ _ _ _ => ?_) fun log answer stands h => ?_).conseq (fun _ h => h) (fun _ _ h => h)
      fun e w h => ?_).bind fun _ => .pure _ fun _ h => h
    · exact trivial
    · exact ⟨h.1.snoc rfl nofun, h.2.more _⟩
    · exact ⟨h.2, fun hxrootd => by rw [h.1] at hxrootd; cases hxrootd⟩

theorem told_placement : Spec (fun w => w = w₀) (placement int script su o.delegate)
    (fun r => Told int su du key o w₀ (Sited int su r.2.2 o.delegate)) fun _ => InOrder int su du key o w₀ := by
  refine .tryExcept ((@told_placeSource int su du key o script w₀).bind fun r => .pure _ fun w h => ?_) fun e => .ite (fun hcaught => ?_) fun _ => ?_
  · exact h.imp fun log hlog => ⟨hlog.1, .inl ⟨rfl, hlog.2⟩⟩
  · rw [Bool.and_eq_true] at hcaught
    exact .pure _ fun w h => (h.2 hcaught.1).imp fun log hlog => ⟨hlog.1, .inr ⟨rfl, hlog.2, hcaught.2⟩⟩
  · exact .throw _ fun w h => h.1

/-- The destination is open. -/
def Opened (int : Text → Option Int) (su du : XRootDURL) (o : Options) (placed : Bool) (handle : Bytes) (log : List Event) :
    Prop :=
  syncs log = 0 ∧ (placed = true → Placed int su log) ∧ Held int du o handle log

theorem told_openTarget {placed : Bool} {endpoint : Text} (size : Int) :
    Spec (Told int su du key o w₀ fun log => Sited int su placed o.delegate log ∧
        endpoint = if placed then hostId (standing .source w₀.src log) else hostId su)
      (openTarget script du (dstOpaque key su endpoint size o) o)
      (fun data => Told int su du key o w₀ fun log => ∀ handle size, opened int du.path data = .ok (handle, size) →
        Opened int su du o placed handle log) fun _ => InOrder int su du key o w₀ := by
  refine .tryExcept (Spec.bind (Q := fun r => Told int su du key o w₀ fun log => ∀ handle size,
    opened int du.path r.1 = .ok (handle, size) → Opened int su du o placed handle log) ?_ fun _ => .pure _ fun _ h => h)
    fun e => .throw _ fun w h => h
  refine told_execute (fun data log => ∀ handle size, opened int du.path data = .ok (handle, size) →
      Opened int su du o placed handle log) (fun _ => True)
    (fun log h answer stands => ?_) (fun log data stands h handle size hopened => ?_) fun _ _ _ _ => trivial
  · obtain ⟨⟨⟨hsyncs, hopens⟩, hplaced | hunplaced⟩, rfl⟩ := h
    · refine ⟨hopens, hsyncs, standing .source w₀.src log, size, ?_, .inl ⟨hplaced.2, rfl⟩⟩
      rw [if_pos hplaced.1]
    · refine ⟨hopens, hsyncs, su, size, ?_, .inr ⟨hunplaced.2.1, hunplaced.2.2, rfl⟩⟩
      rw [if_neg (ne_true_of_eq_false hunplaced.1)]
  · obtain ⟨⟨⟨hsyncs, -⟩, hplaced⟩, -⟩ := h
    refine ⟨(syncs_other _ rfl).trans hsyncs, fun htrue => ?_, ?_⟩
    · obtain hplaced | hunplaced := hplaced
      · exact hplaced.2.more _
      · rw [hunplaced.1] at htrue
        cases htrue
    · exact ⟨_, data, stands, size, List.mem_append_right _ (List.mem_singleton_self _), hopened⟩

/-! ## Up to the second sync -/

theorem Opened.more {placed : Bool} (h : Opened int su du o placed handle log) (he : e.isSync = false) :
    Opened int su du o placed handle (log ++ [e]) :=
  ⟨(syncs_other _ he).trans h.1, fun hplaced => (h.2.1 hplaced).more _, h.2.2.more _⟩

/-- What an end is asked of its configuration, and what its lines make known. -/
theorem told_configLines {names : Text} (hallowed : ∀ log, F log → ∀ answer stands,
      Allowed int su du key o w₀.src w₀.dst log (.asked at_ (.config names) answer stands)) :
    Spec (Told int su du key o w₀ F) (configLines script at_ names)
      (fun lines => Told int su du key o w₀ fun log => ∃ pre answer stands, F pre ∧
        log = pre ++ [.asked at_ (.config names) answer stands] ∧ (lines = [] ∨ ∃ data, answer = .ok data ∧ lines = linesOf data))
      fun _ => InOrder int su du key o w₀ := by
  have hask : Spec (Told int su du key o w₀ F) (execute script at_ (.config names))
      (fun r => Told int su du key o w₀ fun log => ∃ pre stands, F pre ∧
        log = pre ++ [.asked at_ (.config names) (.ok r.1) stands])
      fun _ => Told int su du key o w₀ fun log => ∃ pre answer stands, F pre ∧
        log = pre ++ [.asked at_ (.config names) answer stands] :=
    told_execute
      (fun data log => ∃ pre stands, F pre ∧ log = pre ++ [.asked at_ (.config names) (.ok data) stands])
      (fun log => ∃ pre answer stands, F pre ∧ log = pre ++ [.asked at_ (.config names) answer stands])
      hallowed (fun log _ stands h => ⟨log, stands, h, rfl⟩) fun log failure stands h => ⟨log, .error failure, stands, h, rfl⟩
  refine .tryExcept (hask.bind fun r => .pure _ fun w h => ?_) fun e => .ite (fun _ => .pure _ fun w h => ?_) fun _ =>
    .throw _ fun w h => h.inOrder
  · exact h.imp fun log ⟨pre, stands, hpre, hlog⟩ => ⟨pre, .ok r.1, stands, hpre, hlog, .inr ⟨r.1, rfl, rfl⟩⟩
  · exact h.imp fun log ⟨pre, answer, stands, hpre, hlog⟩ => ⟨pre, answer, stands, hpre, hlog, .inl rfl⟩

theorem able_of_lines {lines : List Text} {pre : List Event} {answer : Except Failure Bytes} {stands : XRootDURL}
    (hlog : log = pre ++ [.asked at_ (.config names) answer stands])
    (hlines : lines = [] ∨ ∃ data, answer = .ok data ∧ lines = linesOf data) (h : able lines = true) :
    ∃ data, lines = linesOf data ∧ able lines = true ∧ .asked at_ (.config names) (.ok data) stands ∈ log := by
  obtain rfl | ⟨data, rfl, rfl⟩ := hlines
  · cases h
  · exact ⟨data, rfl, h, hlog ▸ List.mem_append_right _ (List.mem_singleton_self _)⟩

theorem told_lite {placed : Bool} : Spec (Told int su du key o w₀ (Opened int su du o placed handle)) (lite script o.delegate)
    (fun lite => Told int su du key o w₀ fun log => Opened int su du o placed handle log ∧
      Able .destination DESTINATION_CONFIG log ∧ (lite = true → Lite o log))
    fun _ => InOrder int su du key o w₀ := by
  refine (told_configLines fun log h _ _ => ?_).bind fun lines => .ite (fun hable => ?_) fun _ => ?_
  · exact ⟨handle, h.2.2⟩
  · refine .pure _ fun w h => h.imp fun log ⟨pre, answer, stands, hpre, hlog, hlines⟩ => ?_
    obtain ⟨data, hdata, -, hmem⟩ := able_of_lines hlog hlines hable
    refine ⟨hlog ▸ hpre.more rfl, ⟨data, stands, hmem, hdata ▸ hable⟩, fun hlite => ?_⟩
    rw [Bool.and_eq_true] at hlite
    exact ⟨hlite.1, data, stands, hmem, hdata ▸ hlite.2⟩
  · exact .throw _ fun w h => h.inOrder

/-- The pair was accepted, as a lite copy or a classic one. -/
def Settled (int : Text → Option Int) (du : XRootDURL) (o : Options) (lite : Bool) (handle : Bytes) (log : List Event) :
    Prop :=
  syncs log = 0 ∧ Held int du o handle log ∧ Able .destination DESTINATION_CONFIG log ∧ (lite = true → Lite o log) ∧
    (lite = false → Able .source SOURCE_CONFIG log)

theorem told_settle {placed : Bool} :
    Spec (Told int su du key o w₀ (Opened int su du o placed handle)) (settle script placed o.delegate)
      (fun lite => Told int su du key o w₀ (Settled int du o lite handle)) fun _ => InOrder int su du key o w₀ := by
  refine told_check.bind fun _ => told_lite.bind fun lite => .ite (fun hlite => ?_) fun _ => ?_
  · refine .pure _ fun w h => h.imp fun log ⟨hopened, hable, hhow⟩ => ?_
    exact ⟨hopened.1, hopened.2.2, hable, fun _ => hhow hlite, fun h => (by cases h)⟩
  refine .ite (fun hplaced => ?_) fun _ => .throw _ fun w h => h.inOrder
  have hrequire : Spec (Told int su du key o w₀ fun log => Opened int su du o placed handle log ∧
        Able .destination DESTINATION_CONFIG log ∧ (lite = true → Lite o log)) (requireTpc script)
      (fun _ => Told int su du key o w₀ (Settled int du o false handle)) fun _ => InOrder int su du key o w₀ := by
    refine (told_configLines fun log h _ _ => ?_).bind fun lines => .ite (fun hable => ?_) fun _ => ?_
    · exact ⟨h.2.1, h.1.2.1 hplaced⟩
    · refine .pure _ fun w h => h.imp fun log ⟨pre, answer, stands, hpre, hlog, hlines⟩ => ?_
      obtain ⟨data, hdata, -, hmem⟩ := able_of_lines hlog hlines hable
      have hopened := hpre.1.more (e := .asked .source (.config SOURCE_CONFIG) answer stands) rfl
      refine ⟨hlog ▸ hopened.1, hlog ▸ hopened.2.2, hlog ▸ hpre.2.1.more _, fun h => (by cases h), fun _ => ?_⟩
      exact ⟨data, stands, hmem, hdata ▸ hable⟩
    · exact .throw _ fun w h => h.inOrder
  exact told_check.bind fun _ => hrequire.bind fun _ => told_check.bind fun _ => .pure _ fun _ h => h

/-- The pull is armed: the destination answered its first sync. -/
def Ready (int : Text → Option Int) (su du : XRootDURL) (key : Text) (o : Options) (handle : Bytes) (keyed : Bool)
    (log : List Event) : Prop :=
  syncs log = 1 ∧ Held int du o handle log ∧ Able .destination DESTINATION_CONFIG log ∧
    (Lite o log ∨ Able .source SOURCE_CONFIG log) ∧ Armed handle log ∧
    (keyed = true → Lite o log ∨ HasKey int su key o log)

/-- The first sync of a pair that was accepted. -/
theorem told_arm {lite : Bool} {host : Text} :
    Spec (Told int su du key o w₀ fun log => Settled int du o lite handle log ∧
        host = (standing .destination w₀.dst log).host)
      (noting .destination (execute script .destination (.sync handle)))
      (fun _ => Told int su du key o w₀ fun log => Ready int su du key o handle lite log ∧
        (lite = false → Able .source SOURCE_CONFIG log) ∧ host = (standing .destination w₀.dst (beforeSync log)).host)
      fun _ => InOrder int su du key o w₀ := by
  refine .tryExcept ((told_execute (fun _ log => Ready int su du key o handle lite log ∧
      (lite = false → Able .source SOURCE_CONFIG log) ∧ host = (standing .destination w₀.dst (beforeSync log)).host)
    (fun _ => True) (fun log h answer stands => ?_) (fun log data stands h => ?_) fun _ _ _ _ => trivial).conseq
    (fun _ h => h) (fun _ _ h => h) fun _ _ h => h) fun e => .throw _ fun w h => h
  · obtain ⟨⟨hsyncs, hheld, hable, hlite, hclassic⟩, -⟩ := h
    refine ⟨hheld, hable, ?_, .inl hsyncs⟩
    cases lite with
    | true => exact .inl (hlite rfl)
    | false => exact .inr (hclassic rfl)
  · obtain ⟨⟨hsyncs, hheld, hable, hlite, hclassic⟩, hhost⟩ := h
    refine ⟨⟨?_, hheld.more _, hable.more _, ?_, ?_, fun h => .inl ((hlite h).more _)⟩, fun h => (hclassic h).more _, ?_⟩
    · rw [syncs_snoc, hsyncs]
      rfl
    · cases lite with
      | true => exact .inl ((hlite rfl).more _)
      | false => exact .inr ((hclassic rfl).more _)
    · exact ⟨data, stands, List.mem_append_right _ (List.mem_singleton_self _)⟩
    · rw [beforeSync_sync hsyncs rfl]
      exact hhost

theorem told_keyed {host capability : Text} :
    Spec (Told int su du key o w₀ fun log => Ready int su du key o handle false log ∧ Able .source SOURCE_CONFIG log ∧
        host = (standing .destination w₀.dst (beforeSync log)).host)
      (Keyed.open int script ⟨su, key, host, o.tokenMode, capability⟩)
      (fun _ => Told int su du key o w₀ (Ready int su du key o handle true)) fun _ => InOrder int su du key o w₀ := by
  have hopen : Spec (Told int su du key o w₀ fun log => Ready int su du key o handle false log ∧
        Able .source SOURCE_CONFIG log ∧ host = (standing .destination w₀.dst (beforeSync log)).host)
      (execute script .source (.open (keyedWire su key o host capability) su.path false))
      (fun r => Told int su du key o w₀ fun log => ∀ handle' size, opened int su.path r.1 = .ok (handle', size) →
        Ready int su du key o handle true log) fun _ => InOrder int su du key o w₀ := by
    refine told_execute (fun data log => ∀ handle' size, opened int su.path data = .ok (handle', size) →
        Ready int su du key o handle true log) (fun _ => True)
      (fun log h answer stands => ?_) (fun log data stands h handle' size hopened => ?_) fun _ _ _ _ => trivial
    · obtain ⟨⟨hsyncs, -, -, -, harmed, -⟩, hable, rfl⟩ := h
      exact .inr ⟨hsyncs, ⟨handle, harmed⟩, hable, capability, rfl⟩
    · obtain ⟨⟨hsyncs, hheld, hable, hhow, harmed, -⟩, hsource, -⟩ := h
      refine ⟨(syncs_other _ rfl).trans hsyncs, hheld.more _, hable.more _, .inr (hsource.more _), harmed.more _, fun _ => ?_⟩
      exact .inr ⟨host, capability, data, stands, List.mem_append_right _ (List.mem_singleton_self _), by rw [hopened]; rfl⟩
  refine Spec.bind (.tryExcept hopen fun e => .throw _ fun w h => h) fun r => ?_
  refine Spec.bind (Q := fun _ => Told int su du key o w₀ (Ready int su du key o handle true)) (fun w h => ?_) fun r =>
    .pure _ fun _ h => h
  rcases hopened : opened int su.path r.1 with e | ⟨handle', size⟩
  · exact h.inOrder
  · exact h.imp fun log hlog => hlog handle' size hopened

theorem told_rendezvous {lite : Bool} {host capability : Text} :
    Spec (Told int su du key o w₀ fun log => Settled int du o lite handle log ∧
        host = (standing .destination w₀.dst log).host)
      (plainRendezvous int script handle (if lite then none else some ⟨su, key, host, o.tokenMode, capability⟩))
      (fun _ => Told int su du key o w₀ (Ready int su du key o handle true)) fun _ => InOrder int su du key o w₀ := by
  refine told_arm.bind fun _ => told_check.bind fun _ => ?_
  cases lite with
  | true => exact .pure _ fun w h => h.imp fun log hlog => hlog.1
  | false =>
    refine Spec.bind (told_keyed.conseq (fun w h => h.imp fun log hlog => ?_)
      (fun _ _ h => h) fun _ _ h => h) fun held => told_check.bind fun _ => .pure _ fun _ h => h
    exact ⟨hlog.1, hlog.2.1 rfl, hlog.2.2⟩

/-! ## The pull -/

theorem told_watch (handle : Bytes) (path : Text) (outcome : Except Raised (Bytes × Text)) (polls : List Poll) :
    Spec (Told int su du key o w₀ fun log => syncs log = 2) (watch int script handle path outcome polls)
      (fun _ => InOrder int su du key o w₀) fun _ => InOrder int su du key o w₀ := by
  induction polls with
  | nil =>
    cases outcome with
    | ok r => exact .pure _ fun w h => h.inOrder
    | error e => exact .throw _ fun w h => h.inOrder
  | cons poll polls ih =>
    cases poll with
    | quiet => exact ih
    | report raises =>
      refine Spec.bind (Q := fun _ => Told int su du key o w₀ fun log => syncs log = 2) ?_ fun _ => ih
      have hask : Spec (Told int su du key o w₀ fun log => syncs log = 2) (askSize int script handle path)
          (fun _ => Told int su du key o w₀ fun log => syncs log = 2)
          fun _ => Told int su du key o w₀ fun log => syncs log = 2 := by
        refine (told_execute (fun _ log => syncs log = 2) (fun log => syncs log = 2) (fun _ h _ _ => h)
          (fun _ _ _ h => (syncs_other _ rfl).trans h) fun _ _ _ h => (syncs_other _ rfl).trans h).bind fun r => ?_
        obtain ⟨data, sent⟩ := r
        simp only
        rcases Proto.Decoders.parseStat int path data with fault | info
        · exact .throw _ fun _ h => h
        · exact .pure _ fun _ h => h
      refine Spec.bind (Q := fun _ => Told int su du key o w₀ fun log => syncs log = 2) (.tryExcept hask fun e => ?_)
        fun known => ?_
      · exact .ite (fun _ => .pure _ fun _ h => h) fun _ => .throw _ fun w h => h.inOrder
      · cases known with
        | false => exact .pure _ fun _ h => h
        | true =>
          cases raises with
          | none => exact .pure _ fun _ h => h
          | some failure => exact .throw _ fun w h => h.inOrder
    | cancelled heeded =>
      refine Spec.bind (Q := fun _ => InOrder int su du key o w₀) ?_ fun _ => .throw _ fun w h => h
      refine ((told_quietly (fun _ h _ _ => h) fun _ _ _ h => (syncs_other _ rfl).trans h).conseq (fun _ h => h)
        (fun _ _ h => h) fun _ _ h => h.2).bind fun _ => .ite (fun _ => .pure _ fun w h => h.inOrder) fun _ => ?_
      refine (told_emit (fun _ => ?_) (fun _ _ _ => ?_) fun _ h => (syncs_other _ rfl).trans h).conseq (fun _ h => h)
        (fun _ _ h => h.inOrder) fun _ _ h => h
      · exact trivial
      · rw [standing, List.foldl_append]
        rfl

theorem told_pull (path : Text) :
    Spec (Told int su du key o w₀ (Ready int su du key o handle true)) (pull int script handle path)
      (fun _ => InOrder int su du key o w₀) fun _ => InOrder int su du key o w₀ := by
  intro w h
  have hsync : Spec (Told int su du key o w₀ (Ready int su du key o handle true))
      (execute script .destination (.sync handle)) (fun _ => Told int su du key o w₀ fun log => syncs log = 2)
      fun _ => Told int su du key o w₀ fun log => syncs log = 2 := by
    have htwice : ∀ log answer stands, Ready int su du key o handle true log →
        syncs (log ++ [.asked .destination (.sync handle) answer stands]) = 2 := fun log answer stands h => by
      rw [syncs_snoc, h.1]
      rfl
    refine told_execute (fun _ log => syncs log = 2) (fun log => syncs log = 2) (fun log h _ _ => ?_)
      (fun _ _ _ h => htwice _ _ _ h) fun _ _ _ h => htwice _ _ _ h
    obtain ⟨hsyncs, hheld, hable, hhow, harmed, hkeyed⟩ := h
    exact ⟨hheld, hable, hhow, .inr ⟨hsyncs, harmed, hkeyed rfl⟩⟩
  have hdone := hsync w h
  unfold pull
  rcases hrun : execute script .destination (.sync handle) w with ⟨outcome, w'⟩
  refine told_watch handle path outcome (if script.active then script.polls else []) w' ?_
  rw [hrun] at hdone
  cases outcome <;> exact hdone

/-! ## The whole copy -/

theorem told_steps : Spec (fun w => w = w₀) (steps int script su du key o)
    (fun _ => InOrder int su du key o w₀) fun _ => InOrder int su du key o w₀ := by
  refine told_placement.bind fun r => ?_
  obtain ⟨size, capability, placed⟩ := r
  refine told_check.bind fun _ => ?_
  refine Spec.bind (Q := fun w => Told int su du key o w₀ fun log => Sited int su placed o.delegate log ∧
    (if placed then hostId w.src else hostId su) = if placed then hostId (standing .source w₀.src log) else hostId su)
    (fun w h => ?_) fun w => ?_
  · obtain ⟨during, hlog, hsrc, hdst, hbegun, hordered, hknown⟩ := h
    exact ⟨during, hlog, hsrc, hdst, hbegun, hordered, hknown, by rw [hsrc]⟩
  refine (told_openTarget size).bind fun data => ?_
  refine (told_emit (fun _ => ?_) (fun _ _ _ => ?_) fun log h handle size hopened => (h handle size hopened).more rfl).bind
    fun _ => ?_
  · exact trivial
  · rw [standing, List.foldl_append]
    rfl
  refine Spec.bind (Q := fun r => Told int su du key o w₀ (Opened int su du o placed r.1)) (fun w h => ?_) fun r => ?_
  · rcases hopened : opened int du.path data with e | ⟨handle, size⟩
    · exact h.inOrder
    · exact h.imp fun log hlog => hlog handle size hopened
  obtain ⟨handle, -⟩ := r
  refine told_settle.bind fun lite => ?_
  refine Spec.bind (Q := fun w => Told int su du key o w₀ fun log => Settled int du o lite handle log ∧
    w.dst.host = (standing .destination w₀.dst log).host) (fun w h => ?_) fun w => ?_
  · obtain ⟨during, hlog, hsrc, hdst, hbegun, hordered, hknown⟩ := h
    exact ⟨during, hlog, hsrc, hdst, hbegun, hordered, hknown, by rw [hdst]⟩
  exact told_rendezvous.bind fun held => (told_pull du.path).bind fun _ => .pure _ fun _ h => h

/-- Behind the rendezvous there are closes alone. -/
theorem rootCopy_log (w : World) :
    ∃ more, (rootCopy int script su du key o w).2.log = (steps int script su du key o w).2.log ++ more ∧
      ∀ e ∈ more, (closedBy e).isSome = true ∨ e.closes = true := by
  have hlog := (@rootCopy_run int script su du key o w).1
  have hclean := @cleans_holding int script su du key o w
  have hrouters : ∀ e ∈ [Event.closed .destination, Event.closed .source], (closedBy e).isSome = true ∨ e.closes = true :=
    fun e he => by
      obtain rfl | rfl : e = _ ∨ e = _ := by simpa using he
      · exact .inr rfl
      · exact .inr rfl
  unfold transfer at hlog
  rcases hsteps : steps int script su du key o w with ⟨e | ⟨size, held, handle⟩, after⟩ <;> rw [hsteps] at hclean
  · obtain ⟨more, hmore, hcloses, e', herror, -⟩ := hclean
    rw [bind_of_error (Prod.ext herror rfl : holding int script su du key o w = (.error e', _)), hmore, List.append_assoc] at hlog
    exact ⟨_, hlog, fun e he => (List.mem_append.mp he).elim (fun h => .inl (hcloses e h)) (hrouters e)⟩
  · have hclosed := (@closeBoth_run script held handle after).2
    rw [bind_of_ok hclean] at hlog
    simp only at hlog
    rw [bind_pure_state, hclosed, List.append_assoc, List.append_assoc] at hlog
    refine ⟨_, hlog, fun e he => ?_⟩
    obtain he | he := List.mem_append.mp he
    · rw [List.mem_singleton.mp he]
      exact .inl rfl
    obtain he | he := List.mem_append.mp he
    · obtain ⟨keyed, -, rfl⟩ := Option.map_eq_some_iff.mp (Option.mem_toList.mp he)
      exact .inl rfl
    · exact hrouters e he

theorem Ordered.append {more : List Event} (h : Ordered int su du key o src dst log)
    (hmore : ∀ e ∈ more, (closedBy e).isSome = true ∨ e.closes = true) : Ordered int su du key o src dst (log ++ more) := by
  induction more using List.reverseRecOn with
  | nil =>
    rw [List.append_nil]
    exact h
  | append_singleton more e ih =>
    rw [← List.append_assoc]
    refine (ih fun e' he' => hmore e' (List.mem_append_left _ he')).snoc ?_
    obtain hclose | hrouter := hmore e (List.mem_append_right _ (List.mem_singleton_self e))
    · cases e with
      | asked at_ ask answer stands =>
        cases ask with
        | close handle => cases at_ <;> trivial
        | _ => cases hclose
      | _ => cases hclose
    · cases e with
      | closed at_ => trivial
      | _ => cases hrouter

/-- A third-party copy keeps the order of its rendezvous.  Whatever the servers answer and
wherever the copy ends, the placement is its first request, and each request was allowed behind
the ones before it. -/
theorem copy_ordered (w : World) : ∃ during, (rootCopy int script su du key o w).2.log = w.log ++ during ∧
    Begun su during ∧ Ordered int su du key o w.src w.dst during := by
  obtain ⟨during, hlog, -, -, hbegun, hordered, -⟩ : InOrder int su du key o w (steps int script su du key o w).2 :=
    told_steps.state rfl
  obtain ⟨more, hmore, hcloses⟩ := @rootCopy_log int su du key o script w
  exact ⟨during ++ more, by rw [hmore, hlog, List.append_assoc], hbegun.more _, hordered.append hcloses⟩

/-! ## What the wire says -/

/-- The value of a name in what an open goes out with: its first field of the query. -/
def valueIn (name : String) (wire : Text) : Option Text :=
  ((((partitionAt '?' wire).2.2.splitOn '&').find? fun f => decide (nameOf f = name.toList))).map
    fun f => (partitionAt '=' f).2.2

theorem splitOn_joined {fs : List Text} (hfs : ∀ f ∈ fs, '&' ∉ f) (g : Text) (more : List Text) (tail : Text) :
    (joined (fs ++ g :: more) ++ tail).splitOn '&' = fs ++ (joined (g :: more) ++ tail).splitOn '&' := by
  induction fs with
  | nil => rfl
  | cons f fs ih =>
    obtain ⟨hf, hfs⟩ := List.forall_mem_cons.mp hfs
    obtain ⟨next, rest, heq⟩ := List.exists_cons_of_ne_nil (List.append_ne_nil_of_right_ne_nil fs (List.cons_ne_nil g more))
    have hjoin : joined (f :: next :: rest) ++ tail = f ++ '&' :: (joined (next :: rest) ++ tail) := by
      simp [joined, List.intercalate]
    have hrest := ih hfs
    rw [heq] at hrest
    rw [List.cons_append, heq, hjoin, List.splitOn_append_cons_self_of_not_mem hf, hrest, List.cons_append]

theorem nameOf_field {name : String} (hname : '=' ∉ name.toList) (value : Text) : nameOf (field name value) = name.toList := by
  rw [nameOf, field, partitionAt_append hname]

/-- A field of the rendezvous is the first of its name, whatever the CGI of the URL. -/
theorem valueIn_opening {url : XRootDURL} (hpath : '?' ∉ url.path) {fs : List Text} (hfs : ∀ f ∈ fs, '&' ∉ f)
    {name : String} (hname : '=' ∉ name.toList ∧ '&' ∉ name.toList) (hother : ∀ f ∈ fs, nameOf f ≠ name.toList) {value : Text}
    (hvalue : '&' ∉ value) (g : Text) (more : List Text) (tail : Text) :
    valueIn name (opening url (joined (fs ++ field name value :: g :: more)) tail) = some value := by
  have hfield : '&' ∉ field name value := by
    intro h
    obtain h | h := List.mem_append.mp h
    · exact hname.2 h
    · rcases List.mem_cons.mp h with h | h
      · exact absurd h (by decide)
      · exact hvalue h
  have hsplit : ∀ tail : Text, (joined (fs ++ field name value :: g :: more) ++ tail).splitOn '&'
      = fs ++ field name value :: (joined (g :: more) ++ tail).splitOn '&' := by
    intro tail
    have hall : ∀ f ∈ fs ++ [field name value], '&' ∉ f := fun f hf => by
      obtain hf | hf := List.mem_append.mp hf
      · exact hfs f hf
      · rw [List.mem_singleton.mp hf]
        exact hfield
    have := splitOn_joined hall g more tail
    rw [List.append_assoc, List.append_assoc, List.singleton_append] at this
    exact this
  generalize hopaq : joined (fs ++ field name value :: g :: more) = opaq at hsplit ⊢
  have htaken : name.toList ∈ (opaq.splitOn '&').map nameOf := by
    have := hsplit []
    rw [List.append_nil] at this
    rw [this, List.map_append, List.map_cons, nameOf_field hname.1]
    exact List.mem_append_right _ List.mem_cons_self
  unfold opening
  generalize hown : (ownFields url).filter (fun f => decide (nameOf f ∉ (opaq.splitOn '&').map nameOf)) = own
  have hownFields : ∀ f ∈ own, '&' ∉ f ∧ nameOf f ≠ name.toList := by
    intro f hf
    rw [← hown, List.mem_filter] at hf
    refine ⟨Posix.not_mem_of_mem_splitOn (List.mem_of_mem_filter hf.1), fun hsame => ?_⟩
    exact of_decide_eq_true hf.2 (hsame ▸ htaken)
  have hquery : ∃ rest, (joined (own ++ [opaq] ++ if tail = [] then [] else [tail])).splitOn '&'
      = own ++ (fs ++ field name value :: rest) := by
    have hsplitOwn := splitOn_joined (fun f hf => (hownFields f hf).1) opaq (if tail = [] then [] else [tail]) []
    rw [List.append_nil, List.append_nil] at hsplitOwn
    rw [List.append_assoc, List.singleton_append, hsplitOwn]
    split
    · have := hsplit []
      rw [List.append_nil] at this
      exact ⟨_, by rw [show joined [opaq] = opaq from List.append_nil opaq, this]⟩
    · exact ⟨_, by rw [show joined [opaq, tail] = opaq ++ '&' :: tail by simp [joined, List.intercalate], hsplit ('&' :: tail)]⟩
  obtain ⟨rest, hquery⟩ := hquery
  unfold valueIn
  rw [partitionAt_append hpath, hown]
  dsimp only
  rw [hquery, List.find?_append, List.find?_eq_none.mpr fun f hf => by simpa using (hownFields f hf).2,
    Option.none_or, List.find?_append, List.find?_eq_none.mpr fun f hf => by simpa using hother f hf, Option.none_or,
    List.find?_cons_of_pos (by simpa using nameOf_field hname.1 value), Option.map_some, field, partitionAt_append hname.1]

/-- A URL whose host and user can be told from the next field. -/
def Clear (url : XRootDURL) : Prop := '&' ∉ url.username ∧ '&' ∉ url.host

theorem Clear.hostId {url : XRootDURL} (h : Clear url) : '&' ∉ hostId url := by
  have hport : '&' ∉ reprInt url.port := not_mem_reprInt (by decide) (by decide) _
  unfold Tpc.hostId
  intro hmem
  rw [List.mem_append, List.mem_append, List.mem_cons] at hmem
  obtain (huser | hhost) | hcolon | hmem := hmem
  · split at huser
    · cases huser
    · exact (List.mem_append.mp huser).elim h.1 (by simp)
  · split at hhost
    · simp [h.2] at hhost
    · exact h.2 hhost
  · exact absurd hcolon (by decide)
  · exact hport hmem

theorem standing_clear {at_ : End} {start : XRootDURL} (hstart : Clear start)
    (hstands : ∀ at_ ask answer stands, .asked at_ ask answer stands ∈ log → Clear stands) :
    Clear (standing at_ start log) := by
  induction log using List.reverseRecOn with
  | nil => exact hstart
  | append_singleton log e ih =>
    have hlog := ih fun at_ ask answer stands hmem => hstands at_ ask answer stands (List.mem_append_left _ hmem)
    cases e with
    | asked at' ask answer stands =>
      rw [standing_snoc]
      split
      · exact hstands _ _ _ _ (List.mem_append_right _ (List.mem_singleton_self _))
      · exact hlog
    | _ =>
      rw [standing, List.foldl_append]
      exact hlog

theorem dst_key {endpoint : Text} (hdu : '?' ∉ du.path) (hkey : '&' ∉ key) (size : Int) (tail : Text) :
    valueIn "tpc.key" (opening du (dstOpaque key su endpoint size o) tail) = some key := by
  unfold dstOpaque
  simp only [List.cons_append, List.nil_append]
  exact @valueIn_opening _ hdu [] (fun f hf => by cases hf) _ (by decide) (fun f hf => by cases hf) _ hkey _ _ _

theorem src_key {host capability : Text} (hsu : '?' ∉ su.path) (hkey : '&' ∉ key) :
    valueIn "tpc.key" (keyedWire su key o host capability) = some key := by
  unfold keyedWire srcOpaque
  simp only [List.cons_append, List.nil_append]
  exact @valueIn_opening _ hsu [] (fun f hf => by cases hf) _ (by decide) (fun f hf => by cases hf) _ hkey _ _ _

/-- The key's field is not the second one. -/
theorem key_first (hkey : '&' ∉ key) (f : Text) (hf : f ∈ [field "tpc.key" key]) : '&' ∉ f ∧ nameOf f = "tpc.key".toList := by
  rw [List.mem_singleton.mp hf]
  refine ⟨?_, nameOf_field (by decide) _⟩
  rw [field]
  simp [hkey]

theorem dst_src {endpoint : Text} (hdu : '?' ∉ du.path) (hkey : '&' ∉ key) (hendpoint : '&' ∉ endpoint) (size : Int)
    (tail : Text) : valueIn "tpc.src" (opening du (dstOpaque key su endpoint size o) tail) = some endpoint := by
  unfold dstOpaque
  simp only [List.cons_append, List.nil_append]
  refine @valueIn_opening _ hdu [field "tpc.key" key] (fun f hf => (key_first hkey f hf).1) _ (by decide) (fun f hf => ?_) _
    hendpoint _ _ _
  rw [(key_first hkey f hf).2]
  decide

theorem src_dst {host capability : Text} (hsu : '?' ∉ su.path) (hkey : '&' ∉ key) (hhost : '&' ∉ host) :
    valueIn "tpc.dst" (keyedWire su key o host capability) = some host := by
  unfold keyedWire srcOpaque
  simp only [List.cons_append, List.nil_append]
  refine @valueIn_opening _ hsu [field "tpc.key" key] (fun f hf => (key_first hkey f hf).1) _ (by decide) (fun f hf => ?_) _
    hhost _ _ _
  rw [(key_first hkey f hf).2]
  decide

/-- The two ends of a third-party copy are told of each other.  Whatever CGI the two URLs carry,
the first `tpc.key` of the destination's open and of the source's keyed open is the key; the
first `tpc.src` of the one is where the source's router stood, if the placement had worked, and
the first `tpc.dst` of the other is the host where the destination's stood when its capabilities
were settled. -/
theorem copy_names_ends (int : Text → Option Int) (script : Script) {su du : XRootDURL} {key : Text} (o : Options) (w : World)
    (hsu : '?' ∉ su.path ∧ Clear su) (hdu : '?' ∉ du.path) (hkey : '&' ∉ key) (hstart : Clear w.src ∧ Clear w.dst)
    (hstands : ∀ at_ ask answer stands, .asked at_ ask answer stands ∈ (rootCopy int script su du key o w).2.log → Clear stands) :
    ∃ during, (rootCopy int script su du key o w).2.log = w.log ++ during ∧
      ∀ pre at_ wire path exclusive answer stands post,
        during = pre ++ .asked at_ (.open wire path exclusive) answer stands :: post →
          match at_ with
          | .destination => valueIn "tpc.key" wire = some key ∧ ∃ origin, valueIn "tpc.src" wire = some (hostId origin) ∧
              (Placed int su pre ∧ origin = standing .source w.src pre ∨
                ¬ Placed int su pre ∧ o.delegate = true ∧ origin = su)
          | .source => pre = [] ∨ valueIn "tpc.key" wire = some key ∧
              valueIn "tpc.dst" wire = some (standing .destination w.dst (beforeSync pre)).host := by
  obtain ⟨during, hlog, -, -, -, hordered, -⟩ : InOrder int su du key o w (steps int script su du key o w).2 :=
    told_steps.state rfl
  obtain ⟨more, hmore, hcloses⟩ := @rootCopy_log int su du key o script w
  have hall := hordered.append hcloses
  have hrun : (rootCopy int script su du key o w).2.log = w.log ++ (during ++ more) := by
    rw [hmore, hlog, List.append_assoc]
  refine ⟨during ++ more, hrun, fun pre at_ wire path exclusive answer stands post heq => ?_⟩
  have hallowed := hall pre _ post heq
  have hclear : ∀ at_ ask answer stands, .asked at_ ask answer stands ∈ pre → Clear stands := fun at_ ask answer stands h =>
    hstands at_ ask answer stands (by
      rw [hrun, heq]
      exact List.mem_append_right _ (List.mem_append_left _ h))
  cases at_ with
  | destination =>
    obtain ⟨-, -, origin, size, rfl, hwhere⟩ := hallowed
    refine ⟨dst_key hdu hkey size [], origin, dst_src hdu hkey ?_ size [], hwhere⟩
    obtain ⟨-, rfl⟩ | ⟨-, -, rfl⟩ := hwhere
    · exact (standing_clear hstart.1 hclear).hostId
    · exact hsu.2.hostId
  | source =>
    obtain ⟨rfl, -⟩ | ⟨-, -, -, capability, rfl⟩ := hallowed
    · exact .inl rfl
    · refine .inr ⟨src_key hsu.1 hkey, src_dst hsu.1 hkey ?_⟩
      refine (standing_clear hstart.2 fun at_ ask answer stands h => hclear at_ ask answer stands ?_).2
      exact (List.takeWhile_prefix _).mem h

def fromHost : XRootDURL := { host := "a".toList, path := "/f".toList, rawQuery := "tpc.key=x".toList }

def toHost : XRootDURL := { host := "b".toList, path := "/g".toList, rawQuery := "tpc.key=y&svc=z".toList }

/-- Two ends that answer everything with the lines `1` and `0`, which are a handle too. -/
def willing : Script where
  turn n := ⟨.ok [49, 10, 48, 10], if n ≤ 1 ∨ n = 5 ∨ n = 7 then fromHost else toHost, []⟩
  check _ := none
  active := false
  polls := []
  last := none

/-- A classic copy between them. -/
def classicCopy : World :=
  (rootCopy (fun _ => none) willing fromHost toHost "0f".toList ⟨true, [], false, 1, "root".toList⟩
    ⟨fromHost, toHost, [], 0⟩).2

/-- Where the router of its end stands behind an event. -/
def Event.stands : Event → Option XRootDURL
  | .asked _ _ _ stands => some stands
  | _ => none

/-- The open at a place of a log, between what is before it and behind it. -/
theorem opens_split {i : Nat} (h : log[i]?.bind Event.opens = some at_) : ∃ wire path exclusive answer stands,
    log = log.take i ++ .asked at_ (.open wire path exclusive) answer stands :: log.drop (i + 1) := by
  obtain ⟨e, he, hopens⟩ := Option.bind_eq_some_iff.mp h
  obtain ⟨hi, rfl⟩ := List.getElem?_eq_some_iff.mp he
  have hsplit := (List.take_append_drop i log).symm
  rw [List.drop_eq_getElem_cons hi] at hsplit
  generalize log[i] = e at hopens hsplit
  rcases e with ⟨at', ask, answer, stands⟩ | _ | _ | _
  · cases ask with
    | «open» wire path exclusive =>
      cases hopens
      exact ⟨wire, path, exclusive, answer, stands, hsplit⟩
    | _ => cases hopens
  all_goals cases hopens

/-- Both opens name the key of the copy, not the ones in the URLs, and each names the other end. -/
theorem copy_names_ends_classic :
    (∃ pre wire path exclusive answer stands post,
      classicCopy.log = pre ++ .asked .destination (.open wire path exclusive) answer stands :: post ∧
      valueIn "tpc.key" wire = some "0f".toList ∧ ∃ origin, valueIn "tpc.src" wire = some (hostId origin)) ∧
    ∃ pre wire path exclusive answer stands post, pre ≠ [] ∧
      classicCopy.log = pre ++ .asked .source (.open wire path exclusive) answer stands :: post ∧
      valueIn "tpc.key" wire = some "0f".toList ∧
      valueIn "tpc.dst" wire = some (standing .destination toHost (beforeSync pre)).host := by
  have hclear : Clear fromHost ∧ Clear toHost := by
    unfold Clear fromHost toHost
    decide
  have hall : ∀ url ∈ classicCopy.log.filterMap Event.stands, '&' ∉ url.username ∧ '&' ∉ url.host := by
    decide +kernel
  have hstands : ∀ at_ ask answer stands, .asked at_ ask answer stands ∈ classicCopy.log → Clear stands :=
    fun at_ ask answer stands hmem => hall stands (List.mem_filterMap.mpr ⟨_, hmem, rfl⟩)
  unfold classicCopy at hstands
  obtain ⟨during, hduring, hnames⟩ := copy_names_ends (fun _ => none) willing ⟨true, [], false, 1, "root".toList⟩
    ⟨fromHost, toHost, [], 0⟩ ⟨by decide, hclear.1⟩ (by decide) (by decide) hclear hstands
  rw [← classicCopy] at hduring
  have hduring : classicCopy.log = during := hduring.trans (List.nil_append during)
  constructor
  · obtain ⟨wire, path, exclusive, answer, stands, hlog⟩ := opens_split (by decide +kernel :
      classicCopy.log[2]?.bind Event.opens = some .destination)
    obtain ⟨hkey, origin, hsrc, -⟩ := hnames _ .destination wire path exclusive answer stands _ (hduring.symm.trans hlog)
    exact ⟨_, _, _, _, _, _, _, hlog, hkey, origin, hsrc⟩
  · obtain ⟨wire, path, exclusive, answer, stands, hlog⟩ := opens_split (by decide +kernel :
      classicCopy.log[7]?.bind Event.opens = some .source)
    have hsome : classicCopy.log.take 7 ≠ [] := by decide +kernel
    obtain hnone | hnamed := hnames _ .source wire path exclusive answer stands _ (hduring.symm.trans hlog)
    · exact absurd hnone hsome
    · exact ⟨_, _, _, _, _, _, _, hsome, hlog, hnamed⟩

end

end XrdClient.Copy.Tpc
