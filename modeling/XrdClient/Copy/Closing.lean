/-
  Copy/Closing.lean --- a third-party copy closes what it opened.

  Source: `copy/tpc.py`, `_with_handle`, `_quietly`, `_closing` and `_close_both`, and where
  `_root_copy`, `_place_source` and `_rendezvous` use them.

  Two handles on two routers are opened at different moments, and each is handed from one scope
  that would close it to the next.  The account of a log is what was opened in it and is not yet
  closed; a step of the copy is what it does to that account, however the step ends.
-/
import XrdClient.Copy.Rendezvous

set_option autoImplicit false

namespace XrdClient.Copy.Tpc

open XrdClient.Lib
open XrdClient.Lib.Act
open XrdClient.Urls

/-! ## What a log opened and closed -/

section

variable (int : Text → Option Int)

/-- What a request opened: an answer to an open that `parse_open` accepts. -/
def openedBy : Event → Option (End × Bytes)
  | .asked at_ (.open _ path _) (.ok data) _ => (opened int path data).toOption.map fun r => (at_, r.1)
  | _ => none

def closedBy : Event → Option (End × Bytes)
  | .asked at_ (.close handle) _ _ => some (at_, handle)
  | _ => none

/-- A router is closed. -/
def Event.closes : Event → Bool
  | .closed _ => true
  | _ => false

def opens (log : List Event) : List (End × Bytes) := log.filterMap (openedBy int)

def closes (log : List Event) : List (End × Bytes) := log.filterMap closedBy

/-- Nothing is closed that is not open. -/
def Balanced (log : List Event) : Prop :=
  ∀ pre post, log = pre ++ post → ∀ x, (closes pre).count x ≤ (opens int pre).count x

/-- Behind `base`, what is open is what is held, and both routers are. -/
def Account (base : List Event) (held : List (End × Bytes)) (w : World) : Prop :=
  ∃ during, w.log = base ++ during ∧ (opens int during).Perm (closes during ++ held) ∧ Balanced int during ∧
    ∀ e ∈ during, e.closes = false

end

section

variable {int : Text → Option Int} {base : List Event} {held : List (End × Bytes)} {w w' : World} {e : Event}
  {x : End × Bytes}

theorem opens_snoc (log : List Event) (e : Event) : opens int (log ++ [e]) = opens int log ++ (openedBy int e).toList := by
  rw [opens, List.filterMap_append]
  cases h : openedBy int e <;> simp [opens, h]

theorem closes_snoc (log : List Event) (e : Event) : closes (log ++ [e]) = closes log ++ (closedBy e).toList := by
  rw [closes, List.filterMap_append]
  cases h : closedBy e <;> simp [closes, h]

theorem Balanced.snoc {log : List Event} (h : Balanced int log)
    (hlast : ∀ x, (closes (log ++ [e])).count x ≤ (opens int (log ++ [e])).count x) : Balanced int (log ++ [e]) := by
  intro pre post heq x
  obtain rfl | ⟨post', last, rfl⟩ := List.eq_nil_or_concat post
  · rw [List.append_nil] at heq
    rw [← heq]
    exact hlast x
  · rw [List.concat_eq_append, ← List.append_assoc] at heq
    exact h pre post' (List.append_inj_left' heq rfl) x

theorem Account.start (w : World) : Account int w.log [] w :=
  ⟨[], (List.append_nil _).symm, .refl _, fun pre post h x => by
    rw [(List.append_eq_nil_iff.mp h.symm).1]
    exact Nat.le_refl _, fun e he => by cases he⟩

/-- An event changes the account as it changes what is open. -/
theorem Account.snoc {held' : List (End × Bytes)} (h : Account int base held w) (hlog : w'.log = w.log ++ [e])
    (hrouter : e.closes = false)
    (hperm : ∀ {during : List Event}, (opens int during).Perm (closes during ++ held) →
      (opens int during ++ (openedBy int e).toList).Perm (closes during ++ (closedBy e).toList ++ held')) :
    Account int base held' w' := by
  obtain ⟨during, hbase, hopen, hbalanced, hrouters⟩ := h
  have hopen' : (opens int (during ++ [e])).Perm (closes (during ++ [e]) ++ held') := by
    rw [opens_snoc, closes_snoc]
    exact hperm hopen
  refine ⟨during ++ [e], by rw [hlog, hbase, List.append_assoc], hopen', hbalanced.snoc fun x => ?_, fun e' he' => ?_⟩
  · rw [hopen'.count_eq]
    exact (List.sublist_append_left _ _).count_le x
  · obtain he' | he' := List.mem_append.mp he'
    · exact hrouters e' he'
    · rw [List.mem_singleton.mp he']
      exact hrouter

/-- What neither opens nor closes is on no account. -/
theorem Account.skip (h : Account int base held w) (hlog : w'.log = w.log ++ [e]) (hopen : openedBy int e = none)
    (hclose : closedBy e = none) (hrouter : e.closes = false) : Account int base held w' := by
  refine h.snoc hlog hrouter fun hperm => ?_
  rw [hopen, hclose, Option.toList_none, List.append_nil, List.append_nil]
  exact hperm

theorem Account.take (h : Account int base held w) (hlog : w'.log = w.log ++ [e]) (hopen : openedBy int e = some x)
    (hclose : closedBy e = none) (hrouter : e.closes = false) : Account int base (x :: held) w' := by
  refine h.snoc hlog hrouter fun hperm => ?_
  rw [hopen, hclose, Option.toList_some, Option.toList_none, List.append_nil]
  refine (hperm.append_right [x]).trans ?_
  rw [List.append_assoc]
  exact .append_left _ (List.perm_append_singleton x held)

/-- What is closed was held. -/
theorem Account.give (h : Account int base (x :: held) w) (hlog : w'.log = w.log ++ [e]) (hopen : openedBy int e = none)
    (hclose : closedBy e = some x) (hrouter : e.closes = false) : Account int base held w' := by
  refine h.snoc hlog hrouter fun hperm => ?_
  rw [hopen, hclose, Option.toList_some, Option.toList_none, List.append_nil, List.append_assoc]
  exact hperm

theorem Account.perm {held' : List (End × Bytes)} (h : Account int base held w) (hheld : held.Perm held') :
    Account int base held' w := by
  obtain ⟨during, hbase, hperm, hrest⟩ := h
  exact ⟨during, hbase, hperm.trans (.append_left _ hheld), hrest⟩

/-! ## Steps and their accounts -/

variable {script : Script} {α β : Type}

/-- A step that takes an account to another, and to a third where it raises. -/
abbrev Settles (base : List Event) (held : List (End × Bytes)) (x : Op α) (ok error : List (End × Bytes)) : Prop :=
  Spec (Account int base held) x (fun _ => Account int base ok) fun _ => Account int base error

/-- What a request does: its answer, and an event with that answer. -/
theorem execute_cases (at_ : End) (ask : Ask) (w : World) :
    (∃ failure w', (script.turn w.log.length).answer = .error failure ∧
      execute script at_ ask w = (.error ⟨failure, none⟩, w') ∧
      w'.log = w.log ++ [.asked at_ ask (.error failure) (script.turn w.log.length).stands]) ∨
    ∃ data w', (script.turn w.log.length).answer = .ok data ∧
      execute script at_ ask w = (.ok (data, (script.turn w.log.length).path), w') ∧
      w'.log = w.log ++ [.asked at_ ask (.ok data) (script.turn w.log.length).stands] := by
  rcases hanswer : (script.turn w.log.length).answer with failure | data
  · refine .inl ⟨failure, _, rfl, Prod.ext ?_ rfl, ?_⟩
    · simp only [execute, hanswer]
    · cases at_ <;> simp only [execute, hanswer]
  · refine .inr ⟨data, _, rfl, Prod.ext ?_ rfl, ?_⟩
    · simp only [execute, hanswer]
    · cases at_ <;> simp only [execute, hanswer]

/-- A request that opens nothing and closes nothing. -/
theorem settles_execute (at_ : End) {ask : Ask} (hopen : ∀ answer stands, openedBy int (.asked at_ ask answer stands) = none)
    (hclose : ∀ answer stands, closedBy (.asked at_ ask answer stands) = none) :
    Spec (Account int base held) (execute script at_ ask) (fun _ => Account int base held)
      fun _ => Account int base held := by
  intro w h
  obtain ⟨failure, w', -, hrun, hlog⟩ | ⟨data, w', -, hrun, hlog⟩ := @execute_cases script at_ ask w
  · rw [hrun]
    exact h.skip hlog (hopen _ _) (hclose _ _) rfl
  · rw [hrun]
    exact h.skip hlog (hopen _ _) (hclose _ _) rfl

/-- An answered open is on the account if its answer is accepted. -/
def Taken (int : Text → Option Int) (base : List Event) (held : List (End × Bytes)) (at_ : End) (path : Text) (data : Bytes)
    (w : World) : Prop :=
  match opened int path data with
  | .ok (handle, _) => Account int base ((at_, handle) :: held) w
  | .error _ => Account int base held w

theorem settles_open (at_ : End) (wire path : Text) (exclusive : Bool) :
    Spec (Account int base held) (execute script at_ (.open wire path exclusive))
      (fun r => Taken int base held at_ path r.1) fun _ => Account int base held := by
  intro w h
  obtain ⟨failure, w', -, hrun, hlog⟩ | ⟨data, w', -, hrun, hlog⟩ :=
    @execute_cases script at_ (.open wire path exclusive) w
  · rw [hrun]
    exact h.skip hlog rfl rfl rfl
  · rw [hrun]
    show Taken int base held at_ path data w'
    unfold Taken
    rcases hopened : opened int path data with e | ⟨handle, size⟩
    · exact h.skip hlog (by simp only [openedBy, hopened]; rfl) rfl rfl
    · exact h.take hlog (by simp only [openedBy, hopened]; rfl) rfl rfl

/-- Its answer, read. -/
theorem settles_opened (at_ : End) (path : Text) (data : Bytes) :
    Spec (Taken int base held at_ path data) (ofExcept (opened int path data) : Op (Bytes × Int))
      (fun r => Account int base ((at_, r.1) :: held)) fun _ => Account int base held := by
  intro w h
  unfold Taken at h
  rcases hopened : opened int path data with e | ⟨handle, size⟩ <;> rw [hopened] at h <;> exact h

theorem settles_close (at_ : End) (handle : Bytes) :
    Spec (Account int base ((at_, handle) :: held)) (execute script at_ (.close handle)) (fun _ => Account int base held)
      fun _ => Account int base held := by
  intro w h
  obtain ⟨failure, w', -, hrun, hlog⟩ | ⟨data, w', -, hrun, hlog⟩ :=
    @execute_cases script at_ (.close handle) w
  · rw [hrun]
    exact h.give hlog rfl rfl rfl
  · rw [hrun]
    exact h.give hlog rfl rfl rfl

/-- Whatever comes of a request that nobody hears of. -/
theorem spec_quietly {at_ : End} {ask : Ask} {P Q : World → Prop}
    (h : Spec P (execute script at_ ask) (fun _ => Q) fun _ => Q) :
    Spec P (quietly script at_ ask) (fun _ => Q) fun _ => Q :=
  .tryExcept (h.bind fun _ => .pure _ fun _ h => h) fun _ => .ite (fun _ => .pure _ fun _ h => h) fun _ =>
    .throw _ fun _ h => h

/-- A step that raises gives the destination's handle back. -/
theorem settles_withHandle {P : World → Prop} {Q : α → World → Prop} {handle : Bytes} {step : Op α}
    (h : Spec P step Q fun _ => Account int base ((.destination, handle) :: held)) :
    Spec P (withHandle script handle step) Q fun _ => Account int base held :=
  .tryExcept h fun _ => (spec_quietly (settles_close _ _)).bind fun _ => .throw _ fun _ h => h

theorem settles_check : Spec (Account int base held) (check script) (fun _ => Account int base held)
    fun _ => Account int base held := by
  intro w h
  unfold check
  cases script.check w.checks <;> exact h

theorem settles_noting {P : World → Prop} {Q : α → World → Prop} {R : World → Prop} (at_ : End) {step : Op α}
    (h : Spec P step Q fun _ => R) : Spec P (noting at_ step) Q fun _ => R :=
  .tryExcept h fun _ => .throw _ fun _ h => h

theorem settles_placeSource (su : XRootDURL) :
    Spec (Account int base held) (placeSource int script su) (fun _ => Account int base held)
      fun _ => Account int base held :=
  (settles_open _ _ _ _).bind fun _ => (settles_opened _ _ _).bind
    fun _ => (spec_quietly (settles_close _ _)).bind fun _ => .pure _ fun _ h => h

theorem settles_placement (su : XRootDURL) (delegate : Bool) :
    Spec (Account int base held) (placement int script su delegate) (fun _ => Account int base held)
      fun _ => Account int base held :=
  .tryExcept ((settles_placeSource su).bind fun _ => .pure _ fun _ h => h) fun _ =>
    .ite (fun _ => .pure _ fun _ h => h) fun _ => .throw _ fun _ h => h

theorem settles_configLines (at_ : End) (names : Text) :
    Spec (Account int base held) (configLines script at_ names) (fun _ => Account int base held)
      fun _ => Account int base held :=
  .tryExcept ((settles_execute _ (fun _ _ => rfl) fun _ _ => rfl).bind fun _ => .pure _ fun _ h => h) fun _ =>
    .ite (fun _ => .pure _ fun _ h => h) fun _ => .throw _ fun _ h => h

theorem settles_settle (placed delegate : Bool) :
    Spec (Account int base held) (settle script placed delegate) (fun _ => Account int base held)
      fun _ => Account int base held := by
  have hlite : Spec (Account int base held) (lite script delegate) (fun _ => Account int base held)
      fun _ => Account int base held :=
    (settles_configLines _ _).bind fun _ => .ite (fun _ => .pure _ fun _ h => h) fun _ => .throw _ fun _ h => h
  have hrequire : Spec (Account int base held) (requireTpc script) (fun _ => Account int base held)
      fun _ => Account int base held :=
    (settles_configLines _ _).bind fun _ => .ite (fun _ => .pure _ fun _ h => h) fun _ => .throw _ fun _ h => h
  refine settles_check.bind fun _ => hlite.bind fun _ => .ite (fun _ => .pure _ fun _ h => h) fun _ => ?_
  refine .ite (fun _ => ?_) fun _ => .throw _ fun _ h => h
  exact settles_check.bind fun _ => hrequire.bind fun _ => settles_check.bind fun _ => .pure _ fun _ h => h

theorem settles_keyed (source : Keyed) :
    Spec (Account int base held) (source.open int script) (fun handle => Account int base ((.source, handle) :: held))
      fun _ => Account int base held :=
  (settles_noting _ (settles_open _ _ _ _)).bind fun _ =>
    (settles_opened _ _ _).bind fun _ => .pure _ fun _ h => h

/-- What the source's half of a rendezvous holds. -/
def heldBySource (held : Option Bytes) : List (End × Bytes) := (held.map fun handle => (End.source, handle)).toList

theorem settles_rendezvous (handle : Bytes) (source : Option Keyed) :
    Spec (Account int base held) (rendezvous int script handle source)
      (fun keyed => Account int base (heldBySource keyed ++ held)) fun _ => Account int base held := by
  refine (settles_noting _ (settles_execute _ (fun _ _ => rfl) fun _ _ => rfl)).bind fun _ => settles_check.bind fun _ => ?_
  cases source with
  | none => exact .pure _ fun _ h => h
  | some source =>
    refine (settles_keyed source).bind fun keyed => ?_
    refine Spec.bind (Q := fun _ => Account int base ((.source, keyed) :: held)) ?_ fun _ => .pure _ fun _ h => h
    exact .tryExcept settles_check fun _ => (spec_quietly (settles_close _ _)).bind fun _ => .throw _ fun _ h => h

theorem settles_report (handle : Bytes) (path : Text) (raises : Option Failure) :
    Spec (Account int base held) (report int script handle path raises) (fun _ => Account int base held)
      fun _ => Account int base held := by
  have hask : Spec (Account int base held) (askSize int script handle path) (fun _ => Account int base held)
      fun _ => Account int base held := by
    refine (settles_execute _ (fun _ _ => rfl) fun _ _ => rfl).bind fun r => ?_
    obtain ⟨data, sent⟩ := r
    simp only
    rcases Proto.Decoders.parseStat int path data with fault | info
    · exact .throw _ fun _ h => h
    · exact .pure _ fun _ h => h
  refine Spec.bind (Q := fun _ => Account int base held) (.tryExcept hask fun _ => ?_) fun known => ?_
  · exact .ite (fun _ => .pure _ fun _ h => h) fun _ => .throw _ fun _ h => h
  · cases known with
    | false => exact .pure _ fun _ h => h
    | true =>
      cases raises with
      | none => exact .pure _ fun _ h => h
      | some failure => exact .throw _ fun _ h => h

theorem settles_emit {e : Event} (hopen : openedBy int e = none) (hclose : closedBy e = none) (hrouter : e.closes = false) :
    Spec (Account int base held) (emit e) (fun _ => Account int base held) fun _ => Account int base held :=
  fun _ h => h.skip rfl hopen hclose hrouter

theorem settles_watch (handle : Bytes) (path : Text) (outcome : Except Raised (Bytes × Text)) (polls : List Poll) :
    Spec (Account int base held) (watch int script handle path outcome polls) (fun _ => Account int base held)
      fun _ => Account int base held := by
  induction polls with
  | nil =>
    cases outcome with
    | ok r => exact .pure _ fun _ h => h
    | error e => exact .throw _ fun _ h => h
  | cons poll polls ih =>
    cases poll with
    | quiet => exact ih
    | report raises => exact (settles_report _ _ _).bind fun _ => ih
    | cancelled heeded =>
      refine Spec.bind (Q := fun _ => Account int base held) ?_ fun _ => .throw _ fun _ h => h
      refine (spec_quietly (settles_execute _ (fun _ _ => rfl) fun _ _ => rfl)).bind fun _ => ?_
      exact .ite (fun _ => .pure _ fun _ h => h) fun _ => settles_emit rfl rfl rfl

theorem settles_pull (handle : Bytes) (path : Text) :
    Spec (Account int base held) (pull int script handle path) (fun _ => Account int base held)
      fun _ => Account int base held := by
  intro w h
  have hsync := (@settles_execute int base held script .destination (.sync handle) (fun _ _ => rfl) fun _ _ => rfl) w h
  unfold pull
  rcases hrun : execute script .destination (.sync handle) w with ⟨outcome, w'⟩
  refine settles_watch handle path outcome (if script.active then script.polls else []) w' ?_
  rw [hrun] at hsync
  cases outcome <;> exact hsync

/-- Both ends are closed, whichever close fails. -/
theorem settles_closeBoth (keyed : Option Bytes) (handle : Bytes) :
    Spec (Account int base ((.destination, handle) :: heldBySource keyed)) (closeBoth script keyed handle)
      (fun _ => Account int base []) fun _ => Account int base [] := by
  have hclosing : ∀ at_ handle held, Spec (Account int base ((at_, handle) :: held)) (closing script at_ handle)
      (fun _ => Account int base held) fun _ => Account int base [] := fun at_ handle held =>
    .tryExcept ((settles_close _ _).bind fun _ => .pure _ fun _ h => h) fun _ => .pure _ fun _ h => h
  refine (hclosing _ _ _).bind fun target => ?_
  cases keyed with
  | none =>
    cases target with
    | none => exact .pure _ fun _ h => h
    | some failure => exact .throw _ fun _ h => h
  | some keyed =>
    refine (hclosing _ _ _).bind fun source => ?_
    beta_reduce
    cases source.or target with
    | none => exact .pure _ fun _ h => h
    | some failure => exact .throw _ fun _ h => h

theorem settles_openTarget (du : XRootDURL) (opaq : Text) (o : Options) :
    Spec (Account int base held) (openTarget script du opaq o)
      (fun data => Taken int base held .destination du.path data) fun _ => Account int base held :=
  .tryExcept ((settles_open _ _ _ _).bind fun _ => .pure _ fun _ h => h) fun _ => .throw _ fun _ h => h

theorem taken_pinned {at_ : End} {path : Text} {data : Bytes} :
    Spec (Taken int base held at_ path data) (emit .pinned) (fun _ => Taken int base held at_ path data)
      fun _ => Account int base held := by
  intro w h
  show Taken int base held at_ path data { w with log := w.log ++ [.pinned] }
  unfold Taken at h ⊢
  rcases hopened : opened int path data with e | ⟨handle, size⟩ <;> rw [hopened] at h <;> exact h.skip rfl rfl rfl rfl

theorem settles_holding (su du : XRootDURL) (key : Text) (o : Options) :
    Spec (Account int base []) (holding int script su du key o)
      (fun r => Account int base ((.destination, r.2.2) :: heldBySource r.2.1)) fun _ => Account int base [] := by
  refine (settles_placement su o.delegate).bind fun placed => settles_check.bind fun _ => ?_
  refine Spec.bind (Q := fun _ => Account int base []) (fun w h => h) fun w => ?_
  refine (settles_openTarget _ _ _).bind fun data => taken_pinned.bind fun _ => (settles_opened _ _ _).bind fun r => ?_
  obtain ⟨handle, size⟩ := r
  refine (settles_withHandle (settles_settle _ _)).bind fun lite => ?_
  refine Spec.bind (Q := fun _ => Account int base [(.destination, handle)]) (fun w h => h) fun w' => ?_
  refine (settles_withHandle ((settles_rendezvous _ _).conseq (fun _ h => h) (fun _ _ h => h) fun _ _ h => h)).bind
    fun keyed => ?_
  -- From here on both ends are held, and the pull gives back the destination's first.
  have hswap : ∀ w, Account int base (heldBySource keyed ++ [(.destination, handle)]) w →
      Account int base ((.destination, handle) :: heldBySource keyed) w :=
    fun w h => h.perm (List.perm_append_singleton _ _)
  have hback : Spec (Account int base (heldBySource keyed))
      (giveBack script keyed) (fun _ => Account int base []) fun _ => Account int base [] := by
    cases keyed with
    | none => exact .pure _ fun _ h => h
    | some keyed => exact spec_quietly (settles_close _ _)
  have hpull : Spec (Account int base ((.destination, handle) :: heldBySource keyed))
      (Act.tryExcept (withHandle script handle (pull int script handle du.path)) fun e => do
        giveBack script keyed
        Act.throw e)
      (fun _ => Account int base ((.destination, handle) :: heldBySource keyed)) fun _ => Account int base [] :=
    .tryExcept (settles_withHandle (settles_pull _ _)) fun _ => hback.bind fun _ => .throw _ fun _ h => h
  exact (hpull.conseq hswap (fun _ _ h => h) fun _ _ h => h).bind fun _ => .pure _ fun _ h => h

theorem settles_transfer (su du : XRootDURL) (key : Text) (o : Options) :
    Spec (Account int base []) (transfer int script su du key o) (fun _ => Account int base [])
      fun _ => Account int base [] :=
  (settles_holding su du key o).bind fun _ => (settles_closeBoth _ _).bind fun _ => .pure _ fun _ h => h

/-- What the copy does behind the transfer. -/
theorem rootCopy_run (su du : XRootDURL) (key : Text) (o : Options) (w : World) :
    (rootCopy int script su du key o w).2.log
        = (transfer int script su du key o w).2.log ++ [.closed .destination, .closed .source] ∧
      (rootCopy int script su du key o w).1 = match (transfer int script su du key o w).1, script.last with
        | .error e, _ => .error e
        | .ok _, some failure => .error ⟨failure, none⟩
        | .ok size, none => .ok (max size 0) := by
  unfold rootCopy
  rcases hstep : transfer int script su du key o w with ⟨e | size, after⟩
  · have hrun : Act.tryFinally (transfer int script su du key o) (do
        emit (.closed .destination)
        emit (.closed .source)) w
        = (.error e, { after with log := after.log ++ [.closed .destination] ++ [.closed .source] }) := by
      unfold Act.tryFinally
      rw [hstep]
      rfl
    rw [bind_of_error hrun, List.append_assoc]
    exact ⟨rfl, rfl⟩
  · have hrun : Act.tryFinally (transfer int script su du key o) (do
        emit (.closed .destination)
        emit (.closed .source)) w
        = (.ok size, { after with log := after.log ++ [.closed .destination] ++ [.closed .source] }) := by
      unfold Act.tryFinally
      rw [hstep]
      rfl
    rw [bind_of_ok hrun, List.append_assoc]
    cases script.last <;> exact ⟨rfl, rfl⟩

/-- A third-party copy closes what it opened.  Whatever the two servers answer at each step of
the rendezvous and whichever check stops it, each open that was answered with a handle is closed
with one request, on the router that it was opened on, behind the open; and both routers are
closed behind that. -/
theorem copy_closes (int : Text → Option Int) (script : Script) (su du : XRootDURL) (key : Text) (o : Options) (w : World) :
    ∃ during, (rootCopy int script su du key o w).2.log = w.log ++ during ++ [.closed .destination, .closed .source] ∧
      (opens int during).Perm (closes during) ∧ Balanced int during ∧ ∀ e ∈ during, e.closes = false := by
  obtain ⟨during, hlog, hperm, hrest⟩ : Account int w.log [] (transfer int script su du key o w).2 :=
    (settles_transfer su du key o).state (.start w)
  rw [List.append_nil] at hperm
  exact ⟨during, by rw [(rootCopy_run su du key o w).1, hlog], hperm, hrest⟩

/-! ## The first failure -/

section

variable (int : Text → Option Int) (script : Script)

/-- `_rendezvous`, with nothing cleaned up. -/
def plainRendezvous (handle : Bytes) (source : Option Keyed) : Op (Option Bytes) := do
  let _ ← noting .destination (execute script .destination (.sync handle))
  check script
  match source with
  | none => pure none
  | some source => do
    let held ← source.open int script
    check script
    pure (some held)

/-- The rendezvous up to the end of the pull, with nothing cleaned up: the size, and the handles
that are held then. -/
def steps (su du : XRootDURL) (key : Text) (o : Options) : Op (Int × Option Bytes × Bytes) := do
  let (size, capability, placed) ← placement int script su o.delegate
  check script
  let w ← Act.get
  let origin := if placed then hostId w.src else hostId su
  let data ← openTarget script du (dstOpaque key su origin size o) o
  emit .pinned
  let (handle, _) ← Act.ofExcept (opened int du.path data)
  let lite ← settle script placed o.delegate
  let w ← Act.get
  let source := if lite then none else some ⟨su, key, w.dst.host, o.tokenMode, capability⟩
  let held ← plainRendezvous int script handle source
  pull int script handle du.path
  pure (size, held, handle)

end

/-- What a clean-up raised: a close that failed with no `OSError` and no `XRootDError`. -/
def Loud (more : List Event) (e : Raised) : Prop :=
  ∃ at_ handle failure stands, .asked at_ (.close handle) (.error failure) stands ∈ more ∧ failure.isQuiet = false ∧
    e = ⟨failure, none⟩

/-- A program that closes handles, and raises what a close did if it must. -/
def Closer (y : Op Unit) : Prop :=
  ∀ w, ∃ more, (y w).2.log = w.log ++ more ∧ (∀ e ∈ more, (closedBy e).isSome = true) ∧
    ((y w).1 = .ok () ∨ ∃ e, (y w).1 = .error e ∧ Loud more e)

/-- A program that does what another does, and that cleans up behind it where that raises: with
closes alone, of which no ordinary failure is heard. -/
def Cleans (x' x : Op α) : Prop :=
  ∀ w, match x w with
    | (.ok a, after) => x' w = (.ok a, after)
    | (.error e, after) => ∃ more, (x' w).2.log = after.log ++ more ∧ (∀ e ∈ more, (closedBy e).isSome = true) ∧
        ∃ e', (x' w).1 = .error e' ∧ (e' = e ∨ Loud more e')

theorem Loud.left {more : List Event} {e : Raised} (h : Loud more e) (rest : List Event) : Loud (more ++ rest) e := by
  obtain ⟨at_, handle, failure, stands, hmem, hrest⟩ := h
  exact ⟨at_, handle, failure, stands, List.mem_append_left _ hmem, hrest⟩

theorem Loud.right {more : List Event} {e : Raised} (h : Loud more e) (first : List Event) : Loud (first ++ more) e := by
  obtain ⟨at_, handle, failure, stands, hmem, hrest⟩ := h
  exact ⟨at_, handle, failure, stands, List.mem_append_right _ hmem, hrest⟩

theorem closer_pure : Closer (pure ()) :=
  fun w => ⟨[], (List.append_nil _).symm, fun _ h => (by cases h), .inl rfl⟩

theorem closer_close (at_ : End) (handle : Bytes) : Closer (quietly script at_ (.close handle)) := by
  intro w
  unfold quietly Act.tryExcept
  obtain ⟨failure, w', -, hrun, hlog⟩ | ⟨data, w', -, hrun, hlog⟩ :=
    @execute_cases script at_ (.close handle) w
  · rw [bind_of_error hrun]
    refine ⟨[.asked at_ (.close handle) (.error failure) (script.turn w.log.length).stands], ?_, fun e he => ?_, ?_⟩
    · simp only
      split <;> exact hlog
    · rw [List.mem_singleton.mp he]
      rfl
    · simp only
      by_cases hquiet : failure.isQuiet = true
      · rw [if_pos hquiet]
        exact .inl rfl
      · rw [if_neg hquiet]
        exact .inr ⟨_, rfl, at_, handle, failure, _, List.mem_singleton_self _, Bool.eq_false_iff.mpr hquiet, rfl⟩
  · rw [bind_of_ok hrun]
    refine ⟨[.asked at_ (.close handle) (.ok data) (script.turn w.log.length).stands], hlog, fun e he => ?_, .inl rfl⟩
    rw [List.mem_singleton.mp he]
    rfl

theorem closer_giveBack (keyed : Option Bytes) : Closer (giveBack script keyed) := by
  cases keyed with
  | none => exact closer_pure
  | some keyed => exact closer_close _ _

theorem Cleans.refl (x : Op α) : Cleans x x := by
  intro w
  rcases hrun : x w with ⟨e | a, after⟩
  · exact ⟨[], (List.append_nil _).symm, fun _ h => (by cases h), e, rfl, .inl rfl⟩
  · rfl

theorem Cleans.bind {x' x : Op α} {f' f : α → Op β} (hx : Cleans x' x) (hf : ∀ a, Cleans (f' a) (f a)) :
    Cleans (x' >>= f') (x >>= f) := by
  intro w
  have hfirst := hx w
  rw [bind_apply]
  rcases hrun : x w with ⟨e | a, after⟩ <;> rw [hrun] at hfirst
  · obtain ⟨more, hlog, hcloses, e', herror, hwhy⟩ := hfirst
    have hrun' : (x' >>= f') w = (.error e', (x' w).2) := bind_of_error (Prod.ext herror rfl) f'
    rw [hrun']
    exact ⟨more, hlog, hcloses, e', rfl, hwhy⟩
  · have hrun' : (x' >>= f') w = f' a after := bind_of_ok hfirst f'
    rw [hrun']
    exact hf a after

theorem Cleans.tryExcept {x' x : Op α} {y : Op Unit} (hx : Cleans x' x) (hy : Closer y) :
    Cleans (Act.tryExcept x' fun e => do
      y
      Act.throw e) x := by
  intro w
  have hfirst := hx w
  rcases hrun : x w with ⟨e | a, after⟩ <;> rw [hrun] at hfirst
  · obtain ⟨more, hlog, hcloses, e', herror, hwhy⟩ := hfirst
    have hrun' : x' w = (.error e', (x' w).2) := Prod.ext herror rfl
    obtain ⟨more', hlog', hcloses', hend⟩ := hy (x' w).2
    have hboth : ∀ e ∈ more ++ more', (closedBy e).isSome = true := fun e he =>
      (List.mem_append.mp he).elim (hcloses e) (hcloses' e)
    have hlogs : (y (x' w).2).2.log = after.log ++ (more ++ more') := by rw [hlog', hlog, List.append_assoc]
    unfold Act.tryExcept
    rw [hrun']
    simp only
    obtain hok | ⟨loud, hraised, hloud⟩ := hend
    · rw [bind_of_ok (Prod.ext hok rfl : y (x' w).2 = (.ok (), (y (x' w).2).2))]
      exact ⟨more ++ more', hlogs, hboth, e', rfl, hwhy.imp_right fun h => h.left more'⟩
    · rw [bind_of_error (Prod.ext hraised rfl : y (x' w).2 = (.error loud, (y (x' w).2).2))]
      exact ⟨more ++ more', hlogs, hboth, loud, rfl, .inr (hloud.right more)⟩
  · unfold Act.tryExcept
    rw [hfirst]

theorem cleans_withHandle (handle : Bytes) {x' x : Op α} (h : Cleans x' x) : Cleans (withHandle script handle x') x :=
  h.tryExcept (closer_close _ _)

theorem cleans_rendezvous (handle : Bytes) (source : Option Keyed) :
    Cleans (rendezvous int script handle source) (plainRendezvous int script handle source) := by
  refine (Cleans.refl _).bind fun _ => (Cleans.refl _).bind fun _ => ?_
  cases source with
  | none => exact .refl _
  | some source => exact (Cleans.refl _).bind fun _ => (Cleans.tryExcept (.refl _) (closer_close _ _)).bind fun _ => .refl _

theorem cleans_holding (su du : XRootDURL) (key : Text) (o : Options) :
    Cleans (holding int script su du key o) (steps int script su du key o) := by
  refine (Cleans.refl _).bind fun placed => (Cleans.refl _).bind fun _ => (Cleans.refl _).bind fun w => ?_
  refine (Cleans.refl _).bind fun data => (Cleans.refl _).bind fun _ => (Cleans.refl _).bind fun r => ?_
  obtain ⟨handle, size⟩ := r
  refine (cleans_withHandle handle (.refl _)).bind fun lite => (Cleans.refl _).bind fun w' => ?_
  refine (cleans_withHandle handle (cleans_rendezvous _ _)).bind fun keyed => ?_
  exact ((cleans_withHandle handle (.refl _)).tryExcept (closer_giveBack keyed)).bind fun _ => .refl _

theorem closing_run (at_ : End) (handle : Bytes) (w : World) :
    (closing script at_ handle w).1 = .ok (match (script.turn w.log.length).answer with
      | .ok _ => none
      | .error failure => some ⟨failure, some at_⟩) ∧
    (closing script at_ handle w).2.log
      = w.log ++ [.asked at_ (.close handle) (script.turn w.log.length).answer (script.turn w.log.length).stands] := by
  unfold closing Act.tryExcept
  obtain ⟨failure, w', hanswer, hrun, hlog⟩ | ⟨data, w', hanswer, hrun, hlog⟩ := @execute_cases script at_ (.close handle) w
  · rw [bind_of_error hrun, hanswer]
    exact ⟨rfl, hlog⟩
  · rw [bind_of_ok hrun, hanswer]
    exact ⟨rfl, hlog⟩

/-- What the closes behind a pull that worked are blamed for: the source's failure before the
destination's. -/
def blamed (held : Option Bytes) (source target : Except Failure Bytes) : Option Raised :=
  match held, source, target with
  | some _, .error failure, _ => some ⟨failure, some .source⟩
  | _, _, .error failure => some ⟨failure, some .destination⟩
  | _, _, .ok _ => none

theorem closeBoth_run (held : Option Bytes) (handle : Bytes) (w : World) :
    (closeBoth script held handle w).1
        = (match blamed held (script.turn (w.log.length + 1)).answer (script.turn w.log.length).answer with
          | some e => .error e
          | none => .ok ()) ∧
      (closeBoth script held handle w).2.log
        = w.log ++ [.asked .destination (.close handle) (script.turn w.log.length).answer (script.turn w.log.length).stands] ++
          (held.map fun keyed => .asked .source (.close keyed) (script.turn (w.log.length + 1)).answer
            (script.turn (w.log.length + 1)).stands).toList := by
  obtain ⟨hvalue, hlog⟩ := @closing_run script .destination handle w
  unfold closeBoth
  rcases htarget : closing script .destination handle w with ⟨result, w'⟩
  rw [htarget] at hvalue hlog
  simp only at hvalue hlog
  subst hvalue
  rw [bind_of_ok htarget]
  cases held with
  | none =>
    simp only [blamed, Option.map_none, Option.toList_none, List.append_nil]
    rcases htarget : (script.turn w.log.length).answer with failure | data <;> rw [htarget] at hlog <;> exact ⟨rfl, hlog⟩
  | some keyed =>
    obtain ⟨hvalue', hlog'⟩ := @closing_run script .source keyed w'
    rcases hsource : closing script .source keyed w' with ⟨result', w''⟩
    rw [hsource] at hvalue' hlog'
    simp only at hvalue' hlog'
    subst hvalue'
    have hlength : w'.log.length = w.log.length + 1 := by rw [hlog, List.length_append, List.length_singleton]
    simp only
    rw [bind_of_ok hsource, ← hlength, Option.map_some, Option.toList_some, ← hlog, ← hlog']
    rcases (script.turn w'.log.length).answer with failure | data <;>
      rcases (script.turn w.log.length).answer with failure' | data' <;> exact ⟨rfl, rfl⟩

/-- What ends a third-party copy is its first failure.  Where a step of the rendezvous raises, the
requests that follow are closes, and the copy raises what that step did, unless a close itself
failed with neither an `OSError` nor an `XRootDError`.  Where the pull worked, the destination is
asked to close and then the source, whatever the destination answers, and a failure of the source
is raised before one of the destination. -/
theorem copy_raises_first (int : Text → Option Int) (script : Script) (su du : XRootDURL) (key : Text) (o : Options)
    (w : World) :
    let out := rootCopy int script su du key o w
    match steps int script su du key o w with
    | (.error e, after) => ∃ more, out.2.log = after.log ++ more ++ [.closed .destination, .closed .source] ∧
        (∀ e ∈ more, (closedBy e).isSome = true) ∧ ∃ e', out.1 = .error e' ∧ (e' = e ∨ Loud more e')
    | (.ok (size, held, handle), after) =>
      let target := script.turn after.log.length
      let source := script.turn (after.log.length + 1)
      out.2.log = after.log ++ [.asked .destination (.close handle) target.answer target.stands] ++
          (held.map fun keyed => .asked .source (.close keyed) source.answer source.stands).toList ++
          [.closed .destination, .closed .source] ∧
        out.1 = match blamed held source.answer target.answer, script.last with
          | some e, _ => .error e
          | none, some failure => .error ⟨failure, none⟩
          | none, none => .ok (max size 0) := by
  intro out
  obtain ⟨hlog, hvalue⟩ : out.2.log = _ ∧ out.1 = _ := @rootCopy_run int script su du key o w
  have hclean := @cleans_holding int script su du key o w
  unfold transfer at hlog hvalue
  rcases hsteps : steps int script su du key o w with ⟨e | ⟨size, held, handle⟩, after⟩ <;> rw [hsteps] at hclean
  · obtain ⟨more, hmore, hcloses, e', herror, hwhy⟩ := hclean
    have hheld : holding int script su du key o w = (.error e', (holding int script su du key o w).2) := Prod.ext herror rfl
    rw [bind_of_error hheld] at hlog hvalue
    exact ⟨more, by rw [hlog, hmore], hcloses, e', hvalue, hwhy⟩
  · obtain ⟨hends, hclosed⟩ := @closeBoth_run script held handle after
    rw [bind_of_ok hclean] at hlog hvalue
    simp only at hlog hvalue
    rw [bind_apply] at hlog hvalue
    have hclosing : closeBoth script held handle after = (_, (closeBoth script held handle after).2) := Prod.ext hends rfl
    rw [hclosing] at hlog hvalue
    show _ ∧ out.1 = match blamed held (script.turn (after.log.length + 1)).answer (script.turn after.log.length).answer,
      script.last with
      | some e, _ => .error e
      | none, some failure => .error ⟨failure, none⟩
      | none, none => .ok (max size 0)
    rcases hblamed : blamed held (script.turn (after.log.length + 1)).answer (script.turn after.log.length).answer with _ | e <;>
      rw [hblamed] at hlog hvalue
    · rcases hlast : script.last with _ | failure <;> rw [hlast] at hvalue <;>
        exact ⟨hlog.trans (congrArg (· ++ _) hclosed), hvalue⟩
    · exact ⟨hlog.trans (congrArg (· ++ _) hclosed), hvalue⟩

end

end XrdClient.Copy.Tpc
