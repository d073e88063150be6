/-
  Client/Append.lean --- a write, a chunk at a time, and how often a chunk lands.

  Source: `client/_writing.py`, `write` and `_event_write`; `client/_handle.py`, `_bulk`
  and `_on_arrival_path`; `execute` and `_await_arrival` of `session/sync.py`.

  On a handle opened to append, the server places each `kXR_write` at the end of the
  file, so that one which it executes twice is there twice.  Such a handle writes over the
  event path.  A chunk goes down an automatic data path if there is one; whatever goes
  wrong there, the chunk goes out once more, over the control link.

  A `Put` is a chunk on the wire, and whether the server executed it.  A server that says
  so has executed it, one that asks to wait, redirects or refuses has not; of one that is
  not heard of in time nobody knows.
-/
import XrdClient.Session.Replay

set_option autoImplicit false

namespace XrdClient.Client

open XrdClient.Lib
open XrdClient.Proto
open XrdClient.Session

/-! ## The handle -/

/-- An open file, and of its session what concerns data paths. -/
structure Handle where
  /-- It was opened with `OpenFlags.APPEND`. -/
  append : Bool
  /-- `config.bulk`. -/
  bulk : Bool := true
  checkpoint : Bool := false
  chunkSize : Nat
  /-- `config.data_streams`. -/
  dataStreams : Nat := 1
  /-- `_data_paths`. -/
  dataPaths : List Nat := []
  multistream : Bool := true
  /-- `_rr`. -/
  rr : Nat := 0
  /-- `_arrives_on_path` of the session. -/
  arrives : Option Bool := none
  /-- `_paths` of the session. -/
  bound : List Nat := []

/-- What one chunk meets. -/
structure Trial where
  /-- There is no session to be had. -/
  gone : Bool := false
  /-- What the server says of `brix.substreams`, if it is asked; and asked again. -/
  asked : Option Bool := none
  askedAgain : Option Bool := none
  /-- What the request meets that was sent down a data path. -/
  arrival : Turn := {}
  /-- The server executes a request whose fate stays open. -/
  executes : Bool := false
  /-- What was raised is neither an `XRootDError` nor a `ValueError`. -/
  foreign : Bool := false
  /-- The ids that `kXR_bind` comes to, 0 for none. -/
  binds : List Nat := []
  /-- There is no session to bind a path to. -/
  lost : Bool := false
  /-- Where the router is by then, and what the control link meets. -/
  router : Router := { url := {} }
  control : Nat → Turn := fun _ => {}

/-- A chunk on the wire. -/
structure Put where
  piece : Bytes
  offset : Nat
  onPath : Bool
  executed : Bool
  deriving DecidableEq

/-- Whether the server executed a request, from what was heard of it. -/
def Trial.executed (t : Trial) : Answer → Bool
  | .completed => true
  | .unknown => t.executes
  | _ => false

/-- A write to a file of this machine is refused. -/
def Trial.controlTurn (t : Trial) (n : Nat) : Turn := { t.control n with disk := .error .unsupported }

/-- `_next_path`. -/
def Handle.nextPath (h : Handle) : Nat × Handle :=
  if !h.multistream || h.dataPaths.isEmpty then (0, h)
  else (h.dataPaths.getD (h.rr % h.dataPaths.length) 0, { h with rr := h.rr + 1 })

/-- `ask_arrival_routing`: a question is asked only while the answer is open. -/
def Handle.ask (h : Handle) (asked : Option Bool) : Handle :=
  if h.arrives = none then { h with arrives := asked } else h

/-- `_bind_data_streams`; `none` if it raises. -/
def Handle.bindDataStreams (h : Handle) (t : Trial) : Option Handle :=
  let want := h.dataStreams - h.dataPaths.length
  if want = 0 then some h
  else if t.lost then none
  else
    let spare := (h.bound.filter (· ∉ h.dataPaths)).take want
    let fresh := (t.binds.take (want - spare.length)).takeWhile (· ≠ 0)
    some { h with dataPaths := h.dataPaths ++ spare ++ fresh, bound := h.bound ++ fresh }

section

variable (parse : Text → Except Misdirected Parsed) (c : Policy)

/-! ## One chunk -/

/-- `Session.execute(…, arrive_on_path=True)`: what is known of the request each time it
was put on the wire, what comes of it, and what the session makes of the path. -/
def Handle.executeOnPath (h : Handle) (t : Trial) (pathid : Nat) :
    List Answer × Except Thrown Bytes × Handle :=
  if pathid ∈ h.bound then
    let h := h.ask t.askedAgain
    let (answers, result) := t.arrival.answers c
    if h.arrives = some false then
      -- the standard split: the header on the control link, the payload on the path
      (answers, result, h)
    else match result with
      | .ok data => (answers, .ok data, { h with arrives := some true })
      | .error e => (answers, .error e, { h with arrives := some false, bound := h.bound.erase pathid })
  else ([], .error (.other "data path is not bound".toList), h)

/-- `_on_arrival_path`: the result, if there is one, or else what is raised, if anything. -/
def Handle.onArrivalPath (h : Handle) (t : Trial) (piece : Bytes) (offset pathid : Nat) :
    List Put × Except (Option Thrown) Bytes × Handle :=
  let (answers, result, h) := h.executeOnPath c t pathid
  let puts := answers.map fun a => ⟨piece, offset, true, t.executed a⟩
  match result with
  | .ok data => (puts, .ok data, h)
  | .error e =>
      if t.foreign then (puts, .error (some e), h)
      else match Handle.bindDataStreams { h with dataPaths := h.dataPaths.erase pathid } t with
        | none => (puts, .error (some (.connection false)), h)
        | some h => (puts, .error none, h)

/-- `_execute` of a write, whose handle is never opened again: the router, on the control
link. -/
def Handle.execute (t : Trial) (piece : Bytes) (offset : Nat) : List Put × Except Thrown Bytes :=
  let (log, result) := t.router.execute parse c t.controlTurn { idempotent := false }
  -- the router always comes to a result
  ((puts log).map fun a => ⟨piece, offset, false, t.executed a⟩, result.getD (.error .expired))

/-- `_bulk`, of a write. -/
def Handle.bulkWrite (h : Handle) (t : Trial) (piece : Bytes) (offset : Nat) :
    List Put × Except Thrown Bytes × Handle :=
  let (pathid, h) := h.nextPath
  if pathid = 0 ∨ h.checkpoint = true then
    let (log, result) := Handle.execute parse c t piece offset
    (log, result, h)
  else if t.gone then ([], .error (.connection false), h)
  else
    let h := h.ask t.asked
    if h.arrives = some false then
      let (log, result) := Handle.execute parse c t piece offset
      (log, result, h)
    else
      match h.onArrivalPath c t piece offset pathid with
      | (log, .ok data, h) => (log, .ok data, h)
      | (log, .error (some e), h) => (log, .error e, h)
      | (log, .error none, h) =>
          let (_, h) := h.nextPath
          let (more, result) := Handle.execute parse c t piece offset
          (log ++ more, result, h)

/-! ## The whole write -/

/-- The slices of at most `limit` bytes that `_event_write` makes of its data. -/
def cut (limit : Nat) : Nat → Bytes → List Bytes
  | 0, _ => []
  | left + 1, view => if view = [] then [] else view.take limit :: cut limit left (view.drop limit)

def pieces (limit : Nat) (view : Bytes) : List Bytes := cut limit view.length view

/-- The loop of `_event_write`: what each chunk met, and how much is written. -/
def Handle.writePieces : Handle → List Bytes → (Nat → Trial) → Nat → Nat →
    List (List Put) × Except Thrown Nat
  | _, [], _, _, written => ([], .ok written)
  | h, piece :: rest, trials, offset, written =>
      let t := trials 0
      -- inside a checkpoint the write is handed over as a part of it
      let (log, result, h) :=
        if h.checkpoint then
          let (log, result) := Handle.execute parse c t piece (offset + written)
          (log, result, h)
        else h.bulkWrite parse c t piece (offset + written)
      match result with
      | .error e => ([log], .error e)
      | .ok _ =>
          let (logs, result) := h.writePieces rest (fun n => trials (n + 1)) offset (written + piece.length)
          (log :: logs, result)

/-- `_writes_on_plane`, which may ask about arrival. -/
def Handle.writesOnPlane (h : Handle) (asked : Option Bool) : Bool × Handle :=
  if !h.bulk || h.checkpoint || h.append then (false, h)
  else if h.dataPaths.isEmpty || !h.multistream then (true, h)
  else (decide ((h.ask asked).arrives = some false), h.ask asked)

/-- `write`.  `plane` is what the bulk plane does with the data, `none` if it declines;
`none` is a call that does not end. -/
def Handle.write (h : Handle) (plane : Option (List (List Put) × Except Thrown Nat))
    (asked : Option Bool) (trials : Nat → Trial) (data : Bytes) (offset : Nat) :
    Option (List (List Put) × Except Thrown Nat) :=
  let (onPlane, h) := if data = [] then (false, h) else h.writesOnPlane asked
  match (if onPlane then plane else none) with
  | some done => some done
  | none =>
      if h.chunkSize = 0 ∧ data ≠ [] then none
      else some (h.writePieces parse c (pieces h.chunkSize data) trials offset 0)

/-! ## How often a chunk lands -/

/-- The chunk is tried on a data path. -/
def Handle.triesPath (h : Handle) (t : Trial) : Bool :=
  let (pathid, h) := h.nextPath
  decide (pathid ≠ 0) && !h.checkpoint && !t.gone && decide ((h.ask t.asked).arrives ≠ some false) &&
    decide (pathid ∈ h.bound)

/-- The server executes what arrives on the path, and is not heard of in time. -/
def Trial.silent (t : Trial) : Bool :=
  decide ((t.arrival.answers c).1.getLast? = some .unknown) && t.executes

/-- How often a server executed a chunk. -/
def executions (log : List Put) : Nat := log.countP Put.executed

/-- The handle after a chunk, which what the chunk holds has no part in. -/
def Handle.next (h : Handle) (t : Trial) : Handle :=
  if h.checkpoint then h else (h.bulkWrite parse c t [] 0).2.2

/-- The handle before each chunk. -/
def Handle.before (h : Handle) (trials : Nat → Trial) : Nat → Handle
  | 0 => h
  | n + 1 => (h.next parse c (trials 0)).before (fun n => trials (n + 1)) n

end

section

variable {parse : Text → Except Misdirected Parsed} {c : Policy} {h : Handle} {t : Trial}

theorem Trial.executed_mayRepeat {a : Answer} (h : a.mayRepeat = true) : t.executed a = false := by
  cases a with
  | redirected => rfl
  | wait => rfl
  | completed => cases h
  | refused => cases h
  | unknown => cases h

/-- Of some answers all but the last of which are to be repeated after, the last one
counts. -/
theorem executions_concat {piece : Bytes} {offset : Nat} {onPath : Bool} {earlier : List Answer}
    (hearlier : ∀ a ∈ earlier, a.mayRepeat = true) (final : Answer) :
    executions ((earlier ++ [final]).map fun a => ⟨piece, offset, onPath, t.executed a⟩) =
      (t.executed final).toNat := by
  have hnone : executions (earlier.map fun a => ⟨piece, offset, onPath, t.executed a⟩) = 0 := by
    refine List.countP_eq_zero.mpr fun p hp => ?_
    obtain ⟨a, ha, rfl⟩ := List.mem_map.mp hp
    simp [Trial.executed_mayRepeat (hearlier a ha)]
  unfold executions at hnone ⊢
  rw [List.map_append, List.countP_append, hnone]
  cases hfinal : t.executed final <;> simp [hfinal]

/-- **On the control link, once.** -/
theorem Handle.execute_once {piece : Bytes} {offset : Nat} {data : Bytes}
    (h : (Handle.execute parse c t piece offset).2 = .ok data) :
    executions (Handle.execute parse c t piece offset).1 = 1 := by
  have hdisk : ∀ n data, (t.controlTurn n).disk ≠ .ok data := fun n data h => by cases h
  unfold Handle.execute at h ⊢
  cases hrun : t.router.execute parse c t.controlTurn { idempotent := false } with
  | mk log result =>
    rw [hrun] at h
    cases result with
    | none => cases h
    | some result =>
      obtain rfl : result = .ok data := h
      obtain ⟨earlier, hearlier, hrepeats⟩ := Router.execute_completed hdisk rfl hrun
      dsimp only
      rw [hearlier]
      exact executions_concat hrepeats .completed

theorem Handle.execute_piece {piece : Bytes} {offset : Nat} :
    ∀ p ∈ (Handle.execute parse c t piece offset).1, p.piece = piece := by
  intro p hp
  unfold Handle.execute at hp
  obtain ⟨a, -, rfl⟩ := List.mem_map.mp hp
  rfl

/-- A request whose answer is known, and which is to be repeated after each one before. -/
theorem arrival_executions (c : Policy) (t : Trial) (piece : Bytes) (offset : Nat) :
    executions ((t.arrival.answers c).1.map fun a => ⟨piece, offset, true, t.executed a⟩) =
      if (t.arrival.answers c).2.isOk then 1 else (t.silent c).toNat := by
  have hearlier := (t.arrival.answers_mayRepeat c).1
  cases hresult : (t.arrival.answers c).2 with
  | ok data =>
    obtain ⟨earlier, hanswers⟩ := t.arrival.answers_completed c data hresult
    rw [hanswers, List.dropLast_concat] at hearlier
    rw [hanswers]
    exact executions_concat hearlier .completed
  | error e =>
    have hlast := t.arrival.answers_failed c hresult
    change _ = (t.silent c).toNat
    unfold Trial.silent
    rcases List.eq_nil_or_concat (t.arrival.answers c).1 with hnil | ⟨earlier, final, hanswers⟩
    · rw [hnil]
      rfl
    · rw [List.concat_eq_append] at hanswers
      rw [hanswers, List.dropLast_concat] at hearlier
      rw [hanswers, List.getLast?_concat] at hlast
      rw [hanswers, List.getLast?_concat, executions_concat hearlier final]
      cases final with
      | completed => exact absurd rfl hlast
      | unknown => simp [Trial.executed]
      | refused => rfl
      | redirected => rfl
      | wait => rfl

/-- A path that is bound is tried; one that is not carries nothing. -/
theorem Handle.executeOnPath_eq (c : Policy) (h : Handle) (t : Trial) (pathid : Nat) :
    ((h.executeOnPath c t pathid).1, (h.executeOnPath c t pathid).2.1) =
      if pathid ∈ h.bound then t.arrival.answers c
      else ([], .error (.other "data path is not bound".toList)) := by
  unfold Handle.executeOnPath
  by_cases hbound : pathid ∈ h.bound
  · simp only [if_pos hbound]
    split
    · rfl
    · cases hresult : (t.arrival.answers c).2 <;> exact Prod.ext rfl hresult.symm
  · simp only [if_neg hbound]

/-- **On a data path**: a chunk that is answered there has landed once; one that is not has
landed if the server kept silent about it. -/
theorem Handle.onArrivalPath_spec (c : Policy) (h : Handle) (t : Trial) (piece : Bytes) (offset pathid : Nat) :
    (∀ p ∈ (h.onArrivalPath c t piece offset pathid).1, p.piece = piece) ∧
      executions (h.onArrivalPath c t piece offset pathid).1 =
        if (h.onArrivalPath c t piece offset pathid).2.1.isOk then 1
        else (decide (pathid ∈ h.bound) && t.silent c).toNat := by
  have heq := executeOnPath_eq c h t pathid
  have hcount := arrival_executions c t piece offset
  unfold Handle.onArrivalPath
  cases hrun : h.executeOnPath c t pathid with
  | mk answers rest =>
    obtain ⟨result, h'⟩ := rest
    rw [hrun] at heq
    dsimp only at heq ⊢
    have hpiece : ∀ p ∈ answers.map (fun a => (⟨piece, offset, true, t.executed a⟩ : Put)), p.piece = piece := by
      intro p hp
      obtain ⟨a, -, rfl⟩ := List.mem_map.mp hp
      rfl
    have hlanded : executions (answers.map fun a => ⟨piece, offset, true, t.executed a⟩) =
        if result.isOk then 1 else (decide (pathid ∈ h.bound) && t.silent c).toNat := by
      by_cases hbound : pathid ∈ h.bound
      · rw [if_pos hbound] at heq
        rw [← heq] at hcount
        rw [hcount, decide_eq_true hbound, Bool.true_and]
      · rw [if_neg hbound] at heq
        obtain ⟨rfl, rfl⟩ := Prod.mk.inj heq
        rw [decide_eq_false hbound]
        rfl
    cases result with
    | ok data => exact ⟨hpiece, hlanded⟩
    | error e =>
      dsimp only
      split
      · exact ⟨hpiece, hlanded⟩
      · split <;> exact ⟨hpiece, hlanded⟩

/-- A server that answers has not kept silent. -/
theorem Handle.onArrivalPath_ok {h : Handle} {t : Trial} {piece : Bytes} {offset pathid : Nat} {data : Bytes}
    (hok : (h.onArrivalPath c t piece offset pathid).2.1 = .ok data) :
    (decide (pathid ∈ h.bound) && t.silent c) = false := by
  have heq := executeOnPath_eq c h t pathid
  have hresult : (h.executeOnPath c t pathid).2.1 = .ok data := by
    unfold Handle.onArrivalPath at hok
    cases hrun : h.executeOnPath c t pathid with
    | mk answers rest =>
      obtain ⟨result, h'⟩ := rest
      rw [hrun] at hok
      cases result with
      | ok data => exact congrArg Except.ok (Except.ok.inj hok)
      | error e =>
        dsimp only at hok
        split at hok
        · cases hok
        · split at hok <;> cases hok
  by_cases hbound : pathid ∈ h.bound
  · rw [if_pos hbound] at heq
    have hanswered : (t.arrival.answers c).2 = .ok data := by rw [← heq]; exact hresult
    obtain ⟨earlier, hanswers⟩ := t.arrival.answers_completed c data hanswered
    rw [Trial.silent, hanswers, List.getLast?_concat]
    simp
  · simp [hbound]

/-- **A chunk that is written has landed once, or twice** if it was tried on a data path and
the server kept silent about it. -/
theorem Handle.bulkWrite_executions (h : Handle) (t : Trial) (piece : Bytes) (offset : Nat) {data : Bytes}
    (hok : (h.bulkWrite parse c t piece offset).2.1 = .ok data) :
    (∀ p ∈ (h.bulkWrite parse c t piece offset).1, p.piece = piece) ∧
      executions (h.bulkWrite parse c t piece offset).1 =
        1 + (h.triesPath t && t.silent c).toNat := by
  unfold Handle.bulkWrite at hok ⊢
  unfold Handle.triesPath
  cases hpath : h.nextPath with
  | mk pathid h' =>
    rw [hpath] at hok
    dsimp only at hok ⊢
    split at hok
    · next hcontrol =>
      have hno : (decide (pathid ≠ 0) && !h'.checkpoint) = false := by
        rcases hcontrol with hzero | hcheck
        · simp [hzero]
        · simp [hcheck]
      rw [if_pos hcontrol, hno]
      exact ⟨execute_piece, execute_once hok⟩
    next hdata =>
    rw [if_neg hdata]
    split at hok
    · cases hok
    next hgone =>
    rw [if_neg hgone]
    split at hok
    · next harrives =>
      rw [if_pos harrives]
      refine ⟨execute_piece, ?_⟩
      rw [execute_once hok]
      simp [harrives]
    next harrives =>
    rw [if_neg harrives]
    have hbound : (h'.ask t.asked).bound = h'.bound := by
      unfold Handle.ask
      split <;> rfl
    have htries : (decide (pathid ≠ 0) && !h'.checkpoint && !t.gone &&
        decide ((h'.ask t.asked).arrives ≠ some false) && decide (pathid ∈ h'.bound)) =
        decide (pathid ∈ (h'.ask t.asked).bound) := by
      push Not at hdata
      simp [hdata.1, hdata.2, hgone, harrives, hbound]
    rw [htries]
    obtain ⟨hpieces, hlanded⟩ := onArrivalPath_spec c (h'.ask t.asked) t piece offset pathid
    have hanswered : ∀ data, ((h'.ask t.asked).onArrivalPath c t piece offset pathid).2.1 = .ok data →
        (decide (pathid ∈ (h'.ask t.asked).bound) && t.silent c) = false := fun _ => onArrivalPath_ok
    cases hrun : (h'.ask t.asked).onArrivalPath c t piece offset pathid with
    | mk log rest =>
      obtain ⟨result, h''⟩ := rest
      rw [hrun] at hok hpieces hlanded hanswered
      dsimp only at hok hpieces hlanded hanswered ⊢
      cases result with
      | ok data' =>
        rw [hanswered data' rfl]
        exact ⟨hpieces, hlanded⟩
      | error raised =>
        cases raised with
        | some e => cases hok
        | none =>
          dsimp only at hok ⊢
          have honce := execute_once hok
          refine ⟨?_, ?_⟩
          · intro p hp
            rcases List.mem_append.mp hp with hp | hp
            · exact hpieces p hp
            · exact execute_piece p hp
          · unfold executions at hlanded honce ⊢
            rw [List.countP_append, hlanded, honce, Nat.add_comm]
            rfl

/-! ## The whole write -/

theorem Handle.bulkWrite_handle (h : Handle) (t : Trial) (piece : Bytes) (offset : Nat) :
    (h.bulkWrite parse c t piece offset).2.2 = (h.bulkWrite parse c t [] 0).2.2 := by
  have hpath : ∀ (h : Handle) (pathid : Nat),
      (h.onArrivalPath c t piece offset pathid).2 = (h.onArrivalPath c t [] 0 pathid).2 := by
    intro h pathid
    unfold Handle.onArrivalPath
    dsimp only
    split
    · rfl
    · split
      · rfl
      · split <;> rfl
  unfold Handle.bulkWrite
  dsimp only
  split
  · rfl
  split
  · rfl
  split
  · rfl
  have hsame := hpath (h.nextPath.2.ask t.asked) h.nextPath.1
  cases hrun : (h.nextPath.2.ask t.asked).onArrivalPath c t piece offset h.nextPath.1 with
  | mk log rest =>
    cases hrun' : (h.nextPath.2.ask t.asked).onArrivalPath c t [] 0 h.nextPath.1 with
    | mk log' rest' =>
      rw [hrun, hrun'] at hsame
      dsimp only at hsame
      subst hsame
      obtain ⟨result, h'⟩ := rest
      cases result with
      | ok data => rfl
      | error raised => cases raised <;> rfl

/-- A chunk of a write, inside a checkpoint or not. -/
theorem Handle.chunk_executions (h : Handle) (t : Trial) (piece : Bytes) (offset : Nat) {data : Bytes}
    {log : List Put} {h' : Handle}
    (hrun : (if h.checkpoint then
        ((Handle.execute parse c t piece offset).1, (Handle.execute parse c t piece offset).2, h)
      else h.bulkWrite parse c t piece offset) = (log, .ok data, h')) :
    h' = h.next parse c t ∧ (∀ p ∈ log, p.piece = piece) ∧
      executions log = 1 + (h.triesPath t && t.silent c).toNat := by
  split at hrun
  · next hcheck =>
    obtain ⟨rfl, hrest⟩ := Prod.mk.inj hrun
    obtain ⟨hok, rfl⟩ := Prod.mk.inj hrest
    have hno : h.triesPath t = false := by
      have hsame : h.nextPath.2.checkpoint = true := by
        unfold Handle.nextPath
        split <;> exact hcheck
      simp [Handle.triesPath, hsame]
    refine ⟨by rw [Handle.next, if_pos hcheck], execute_piece, ?_⟩
    rw [execute_once hok, hno]
    rfl
  · next hcheck =>
    have hlog : (h.bulkWrite parse c t piece offset).1 = log := congrArg Prod.fst hrun
    have hok : (h.bulkWrite parse c t piece offset).2.1 = .ok data :=
      congrArg (fun x => x.2.1) hrun
    have hnext : (h.bulkWrite parse c t piece offset).2.2 = h' := congrArg (fun x => x.2.2) hrun
    obtain ⟨hpieces, hcount⟩ := h.bulkWrite_executions t piece offset hok
    rw [hlog] at hpieces hcount
    exact ⟨by rw [Handle.next, if_neg hcheck, ← hnext, bulkWrite_handle], hpieces, hcount⟩

/-- A chunk that is there once. -/
def Once (piece : Bytes) (log : List Put) : Prop := (∀ p ∈ log, p.piece = piece) ∧ executions log = 1

/-- **Each chunk once**, exactly if none is tried on a data path and left without an answer. -/
theorem Handle.writePieces_once_iff : ∀ (pieces : List Bytes) (h : Handle) (trials : Nat → Trial)
    (offset written : Nat) {n : Nat} {logs : List (List Put)},
    h.writePieces parse c pieces trials offset written = (logs, .ok n) →
    n = written + pieces.flatten.length ∧
    (List.Forall₂ Once pieces logs ↔
      ∀ i < pieces.length, ((h.before parse c trials i).triesPath (trials i) && (trials i).silent c) = false) := by
  intro pieces
  induction pieces with
  | nil =>
    intro h trials offset written n logs hrun
    cases hrun
    simp
  | cons piece rest ih =>
    intro h trials offset written n logs hrun
    unfold Handle.writePieces at hrun
    dsimp only at hrun
    generalize hchunk : (if h.checkpoint = true then
        ((Handle.execute parse c (trials 0) piece (offset + written)).1,
          (Handle.execute parse c (trials 0) piece (offset + written)).2, h)
      else h.bulkWrite parse c (trials 0) piece (offset + written)) = chunk at hrun
    obtain ⟨log, result, h'⟩ := chunk
    cases result with
    | error e => cases hrun
    | ok data =>
    obtain ⟨rfl, hpieces, hcount⟩ := h.chunk_executions (trials 0) piece (offset + written) hchunk
    cases hmore : Handle.writePieces parse c (h.next parse c (trials 0)) rest (fun n => trials (n + 1))
        offset (written + piece.length) with
    | mk more result =>
      rw [hmore] at hrun
      cases hrun
      obtain ⟨htotal, hiff⟩ := ih _ _ _ _ hmore
      refine ⟨by rw [htotal, List.flatten_cons, List.length_append, Nat.add_assoc], ?_⟩
      rw [List.forall₂_cons, hiff]
      constructor
      · rintro ⟨⟨-, honce⟩, hrest⟩ i hi
        cases i with
        | zero =>
          rw [hcount] at honce
          simpa [Handle.before] using honce
        | succ i => exact hrest i (by simpa using hi)
      · intro hall
        refine ⟨⟨hpieces, ?_⟩, fun i hi => hall (i + 1) (by simpa using hi)⟩
        have hfirst : (h.triesPath (trials 0) && (trials 0).silent c) = false := hall 0 (by simp)
        rw [hcount, hfirst]
        rfl

/-- The chunks are the data. -/
theorem pieces_flatten {limit : Nat} (hlimit : limit ≠ 0) (view : Bytes) : (pieces limit view).flatten = view := by
  have hcut : ∀ (left : Nat) (view : Bytes), view.length ≤ left → (cut limit left view).flatten = view := by
    intro left
    induction left with
    | zero =>
      intro view hle
      rw [List.length_eq_zero_iff.mp (Nat.le_zero.mp hle)]
      rfl
    | succ left ih =>
      intro view hle
      unfold cut
      split
      · next hnil => rw [hnil]; rfl
      · rw [List.flatten_cons, ih _ (by rw [List.length_drop]; omega), List.take_append_drop]
  exact hcut view.length view (Nat.le_refl _)

/-- **An append happens once.**  Of a write that returns, each chunk has been executed once
exactly if no chunk was tried on a data path by a server that executed it and was not heard
of. -/
theorem append_once_iff {h : Handle} (happend : h.append = true)
    {plane : Option (List (List Put) × Except Thrown Nat)} {asked : Option Bool}
    {trials : Nat → Trial} {data : Bytes} {offset n : Nat} {logs : List (List Put)}
    (hreturns : h.write parse c plane asked trials data offset = some (logs, .ok n)) :
    n = data.length ∧ (pieces h.chunkSize data).flatten = data ∧
    (List.Forall₂ Once (pieces h.chunkSize data) logs ↔
      ∀ i < (pieces h.chunkSize data).length,
        ((h.before parse c trials i).triesPath (trials i) && (trials i).silent c) = false) := by
  have hplane : (if data = [] then (false, h) else h.writesOnPlane asked) = (false, h) := by
    split
    · rfl
    · simp [Handle.writesOnPlane, happend]
  unfold Handle.write at hreturns
  rw [hplane] at hreturns
  simp only [Bool.false_eq_true, if_false] at hreturns
  split at hreturns
  · cases hreturns
  next hends =>
  have hflatten : (pieces h.chunkSize data).flatten = data := by
    by_cases hnil : data = []
    · subst hnil
      rfl
    · exact pieces_flatten (fun hzero => hends ⟨hzero, hnil⟩) data
  obtain ⟨htotal, hiff⟩ := Handle.writePieces_once_iff _ _ _ _ _ (Option.some.inj hreturns)
  rw [hflatten, Nat.zero_add] at htotal
  exact ⟨htotal, hflatten, hiff⟩

end

/-- A handle that appends, with one data path. -/
def appending : Handle where
  append := true
  chunkSize := 4
  dataPaths := [1]
  bound := [1]

/-- The data path answers. -/
theorem append_once_iff_answered :
    List.Forall₂ Once (pieces 4 [1, 2]) [[⟨[1, 2], 0, true, true⟩]] := by
  have hreturns : appending.write (fun _ => .error (.unparsed [])) {} none none (fun _ => {}) [1, 2] 0 =
      some ([[⟨[1, 2], 0, true, true⟩]], .ok 2) := by decide +kernel
  apply (append_once_iff rfl hreturns).2.2.mpr
  decide +kernel

/-- The server executes what arrives on the data path, and its answer does not come in
time: the chunk goes out again, over the control link. -/
def late : Trial where
  asked := some true
  arrival := { last := .lost true }
  executes := true

theorem append_lands_twice :
    ¬ ∀ (parse : Text → Except Misdirected Parsed) (c : Policy) (h : Handle)
      (plane : Option (List (List Put) × Except Thrown Nat)) (asked : Option Bool) (trials : Nat → Trial)
      (data : Bytes) (offset n : Nat) (logs : List (List Put)), h.append = true →
      h.write parse c plane asked trials data offset = some (logs, .ok n) →
      List.Forall₂ Once (pieces h.chunkSize data) logs := by
  intro hall
  have hreturns : appending.write (fun _ => .error (.unparsed [])) {} none none (fun _ => late) [1, 2] 0 =
      some ([[⟨[1, 2], 0, true, true⟩, ⟨[1, 2], 0, false, true⟩]], .ok 2) := by decide +kernel
  have honce := hall _ _ appending _ _ _ _ _ _ _ rfl hreturns
  have hpieces : pieces appending.chunkSize [1, 2] = [[1, 2]] := by decide
  rw [hpieces, List.forall₂_cons] at honce
  exact absurd honce.1.2 (by decide)

end XrdClient.Client
