/-
  Session/Answer.lean --- the body of an answer that the server interrupts.

  Source: `session/sync.py`, `_answer`, `_consume_event`, `_wait_event` and
  `_resend_after`; `proto/machine.py`, `resume` and the handlers of replies.

  Two layers keep count of one answer.  The machine joins the partial bodies of a
  stream, and the session counts what it has streamed to `on_chunk`, so that it can
  hand over the rest when the answer is complete.  A `kXR_wait` makes the session
  send the request again and start its count over.

  A conversation is one request: what the server sends on its stream, what its
  waiter takes from its mailbox, and whatever happens to the machine elsewhere.
  Budgets and deadlines end a conversation early; here they do not run out.
-/
import XrdClient.Proto.World

set_option autoImplicit false

namespace XrdClient.Session

open XrdClient.Lib
open XrdClient.Proto

/-! ## Replies -/

/-- A reply that is part of an answer. -/
inductive Reply where
  /-- `kXR_oksofar`. -/
  | sofar (body : Bytes)
  /-- `kXR_status`, partial or final as its block says, and its data. -/
  | status (block data : Bytes)
  | wait (body : Bytes)
  /-- `kXR_ok`. -/
  | ok (body : Bytes)
  deriving DecidableEq

namespace Reply

/-- What it is on the wire. -/
def units (sid : Nat) : Reply → List Decoded
  | .sofar body => [.frame ⟨sid, kXR_oksofar, body.length⟩ body]
  | .status block data =>
      .frame ⟨sid, kXR_status, block.length⟩ block ::
        (if data = [] then [] else [.trailer sid data])
  | .wait body => [.frame ⟨sid, kXR_wait, body.length⟩ body]
  | .ok body => [.frame ⟨sid, kXR_ok, body.length⟩ body]

/-- The part of the answer's body it brings. -/
def body : Reply → Bytes
  | .sofar body => body
  | .status _ data => data
  | .wait _ => []
  | .ok body => body

/-- It ends the answer. -/
def isFinal : Reply → Bool
  | .sofar _ => false
  | .status block _ =>
      match parseStatus block with
      | .ok info => info.isFinal
      | .error _ => false
  | .wait _ => false
  | .ok _ => true

/-- It asks for the request again. -/
def isWait : Reply → Bool
  | .wait _ => true
  | _ => false

/-- It can be parsed, and a status block declares the data that follows it. -/
def WellFormed : Reply → Prop
  | .sofar _ => True
  | .status block data => ∃ info, parseStatus block = .ok info ∧ info.dlen = data.length
  | .wait body => ∃ info, parseWait body = .ok info
  | .ok _ => True

end Reply

/-! ## The conversation -/

/-- One request of a session, its waiter, and what has come for it. -/
structure Talk where
  core : MachineState
  /-- The mailbox. -/
  mail : List Event := []
  /-- The caller gave an `on_chunk`. -/
  onChunk : Bool
  /-- `state.streamed`. -/
  streamed : Nat := 0
  /-- What `on_chunk` was given since the request was last sent. -/
  pieces : List Bytes := []
  /-- `Result.data`, once `_answer` has returned. -/
  result : Option Bytes := none
  /-- The data of the `Completed` event, of which the code keeps no record. -/
  completed : Option Bytes := none
  /-- The bodies that came before the request was last sent, and those since. -/
  stale : Bytes := []
  heard : Bytes := []
  /-- The server asked to wait, and the request has not been sent again yet. -/
  waits : Bool := false
  /-- The final reply has come. -/
  ended : Bool := false

namespace Talk

/-- The data of a completion among some events. -/
def completion : List Event → Option Bytes
  | [] => none
  | .completed _ _ data _ :: _ => some data
  | _ :: events => completion events

/-- A reply comes on the stream: the machine takes it, and what it reports of the
stream is put in the mailbox. -/
def hear (t : Talk) (sid : Nat) (r : Reply) : Talk :=
  let core := replay t.core (r.units sid)
  let news := (core.events.drop t.core.events.length).filter (·.stream = some sid)
  { t with
    core := { core with events := t.core.events }
    mail := t.mail ++ news
    completed := t.completed <|> completion news
    heard := t.heard ++ r.body
    waits := r.isWait
    ended := r.isFinal }

/-- `on_chunk(piece)`. -/
def hand (t : Talk) (piece : Bytes) : Talk :=
  if t.onChunk then { t with pieces := t.pieces ++ [piece] } else t

/-- `_answer`, on the next event in the mailbox. -/
def look (t : Talk) (sid : Nat) : Talk :=
  match t.mail with
  | [] => t
  | event :: mail =>
      let t := { t with mail := mail }
      match event with
      | .completed _ _ data _ =>
          let t := if t.streamed < data.length then t.hand (data.drop t.streamed) else t
          { t with result := some data }
      | .chunk _ _ data => { t.hand data with streamed := t.streamed + data.length }
      | .waiting _ _ _ _ true =>
          { t with
            core := (t.core.resume sid).1
            streamed := 0, pieces := []
            stale := t.stale ++ t.heard, heard := [], waits := false }
      | _ => t

end Talk

/-- What happens in a conversation. -/
inductive TalkTurn where
  | hear (r : Reply)
  | look
  /-- Something else happens to the machine. -/
  | elsewhere (core : MachineState)

namespace Talk

/-- A change of the machine that is none of the stream's. -/
def Apart (sid : Nat) (core core' : MachineState) : Prop :=
  core'.pending.get sid = core.pending.get sid ∧ MachineState.inBringup core'.state = false

instance (sid : Nat) (core core' : MachineState) : Decidable (Apart sid core core') :=
  inferInstanceAs (Decidable (_ ∧ _))

/-- The conversation after a turn. -/
def step (sid : Nat) (t : Talk) : TalkTurn → Talk
  | .hear r => t.hear sid r
  | .look => t.look sid
  | .elsewhere core => if Apart sid t.core core then { t with core := core } else t

/-- The conversation after some turns. -/
def run (sid : Nat) (t : Talk) (turns : List TalkTurn) : Talk := turns.foldl (step sid) t

/-- The server keeps to the protocol: nothing after the final reply, and nothing between a
`kXR_wait` and the request sent again. -/
def Fair (t : Talk) : TalkTurn → Prop
  | .hear r => r.WellFormed ∧ t.ended = false ∧ t.waits = false
  | _ => True

/-- Every turn is fair. -/
def Follows (sid : Nat) : Talk → List TalkTurn → Prop
  | _, [] => True
  | t, x :: xs => Fair t x ∧ Follows sid (t.step sid x) xs

/-- A request that has just been submitted. -/
def opened (core : MachineState) (onChunk : Bool) : Talk := { core := core, onChunk := onChunk }

end Talk

/-! ## What the machine makes of a reply -/

section Machine

variable {m : MachineState} {sid : Nat} {p : Pending}

theorem deliver_frame (hup : MachineState.inBringup m.state = false)
    (hp : m.pending.get sid = some p) {status : Nat} (hstatus : status ≠ kXR_attn) (body : Bytes) :
    (deliver m (.frame ⟨sid, status, body.length⟩ body)).1 =
      (m.respond sid status body p {}).1 := by
  simp [deliver, MachineState.dispatch, hstatus, MachineState.route, hup, hp]

/-- A reply is within the cap of its request. -/
def Fits (p : Pending) (body : Bytes) : Prop := p.cap = 0 ∨ p.buffer.length + body.length ≤ p.cap

/-- What a reply does to its stream, and what it makes the machine report. -/
inductive Told (m : MachineState) (sid : Nat) (p : Pending) (r : Reply) (m' : MachineState) :
    Prop where
  | waiting (seconds : Int) (message : Text) (hwait : r.isWait = true)
      (hsame : m'.pending.get sid = some p)
      (hevents : m'.events = m.events ++ [.waiting sid p.request seconds message true])
  | more (hwait : r.isWait = false) (hfinal : r.isFinal = false) (hfits : Fits p r.body)
      (status : Option StatusInfo)
      (hmore : m'.pending.get sid = some { p with buffer := p.buffer ++ r.body, status := status })
      (hevents : m'.events = m.events ++ [.chunk sid p.request r.body])
  | done (hwait : r.isWait = false) (hfinal : r.isFinal = true) (hfits : Fits p r.body)
      (status : Option StatusInfo)
      (hevents : m'.events = m.events ++
        [.completed sid p.request (p.buffer ++ r.body) status])
  | tooLong (hwait : r.isWait = false) (hover : ¬ Fits p r.body)
      (hgone : m'.pending.get sid = none) (error : SessionError)
      (hevents : m'.events = m.events ++ [.failed (some sid) (some p.request) error])

theorem release_forgets (m : MachineState) (sid : Nat) :
    (m.release sid).pending.get sid = none ∧ (m.release sid).events = m.events ∧
      (m.release sid).state = m.state := by
  unfold MachineState.release
  split
  · exact ⟨by simp, rfl, rfl⟩
  · rename_i hno
    refine ⟨?_, rfl, rfl⟩
    have hfalse : m.pending.has sid = false := by simpa using hno
    exact Assoc.has_eq_false.mp hfalse

/-- A reply over the cap finishes its stream off. -/
theorem withinCap_over (m : MachineState) (sid : Nat) {p : Pending} {body : Bytes}
    (h : ¬ Fits p body) :
    m.withinCap sid p body.length = (false, (m.release sid).emit
      (.failed (some sid) (some p.request) (.protocol (.overCap p.cap)))) := by
  unfold MachineState.withinCap
  exact if_neg h

theorem withinCap_fits (m : MachineState) (sid : Nat) {p : Pending} {body : Bytes}
    (h : Fits p body) : m.withinCap sid p body.length = (true, m) := by
  unfold MachineState.withinCap
  exact if_pos h

theorem told_over {r : Reply} (hwait : r.isWait = false) (h : ¬ Fits p r.body) :
    Told m sid p r ((m.release sid).emit
      (.failed (some sid) (some p.request) (.protocol (.overCap p.cap)))) := by
  obtain ⟨hgone, hevents, _⟩ := release_forgets m sid
  exact .tooLong hwait h hgone (.protocol (.overCap p.cap)) (by simp [MachineState.emit, hevents])

theorem told_done {r : Reply} (hwait : r.isWait = false) (hfinal : r.isFinal = true)
    (h : Fits p r.body) (status : Option StatusInfo) :
    Told m sid p r ((m.release sid).emit
      (.completed sid p.request (p.buffer ++ r.body) status)) := by
  obtain ⟨_, hevents, _⟩ := release_forgets m sid
  exact .done hwait hfinal h status (by simp [MachineState.emit, hevents])

/-- What the machine makes of a well-formed reply on a stream that is owed one. -/
theorem replay_told (hup : MachineState.inBringup m.state = false)
    (hp : m.pending.get sid = some p) {r : Reply} (hr : r.WellFormed) :
    Told m sid p r (replay m (r.units sid)) ∧
      (replay m (r.units sid)).state = m.state := by
  cases r with
  | sofar body =>
      have hm : replay m ((Reply.sofar body).units sid) = m.responseChunk sid body p := by
        simp only [Reply.units, replay_cons, replay_nil]
        rw [deliver_frame hup hp (by decide)]
        simp [MachineState.respond, kXR_oksofar, kXR_ok]
      rw [hm]
      unfold MachineState.responseChunk
      by_cases hfits : Fits p body
      · rw [withinCap_fits m sid hfits]
        exact ⟨.more rfl rfl hfits p.status (by simp [MachineState.emit, Reply.body])
          (by simp [MachineState.emit, Reply.body]), rfl⟩
      · rw [withinCap_over m sid hfits]
        exact ⟨told_over rfl hfits, (release_forgets m sid).2.2⟩
  | ok body =>
      have hm : replay m ((Reply.ok body).units sid) = m.responseOk sid body p := by
        simp only [Reply.units, replay_cons, replay_nil]
        rw [deliver_frame hup hp (by decide)]
        simp [MachineState.respond]
      rw [hm]
      unfold MachineState.responseOk
      by_cases hfits : Fits p body
      · rw [withinCap_fits m sid hfits]
        exact ⟨told_done (r := .ok body) rfl rfl hfits p.status, (release_forgets m sid).2.2⟩
      · rw [withinCap_over m sid hfits]
        exact ⟨told_over rfl hfits, (release_forgets m sid).2.2⟩
  | wait body =>
      obtain ⟨info, hinfo⟩ := hr
      have hm : replay m ((Reply.wait body).units sid) = (m.responseWait sid body p).1 := by
        simp only [Reply.units, replay_cons, replay_nil]
        rw [deliver_frame hup hp (by decide)]
        simp [MachineState.respond, kXR_wait, kXR_ok, kXR_oksofar, kXR_error, kXR_redirect]
      rw [hm]
      simp only [MachineState.responseWait, hinfo]
      exact ⟨.waiting _ _ rfl (by simp [MachineState.emit, hp]) rfl, rfl⟩
  | status block data =>
      obtain ⟨info, hinfo, hdlen⟩ := hr
      let p' : Pending := { p with status := some info }
      let m' : MachineState := { m with pending := m.pending.set sid p' }
      have hm : replay m ((Reply.status block data).units sid) = m'.onStatusData sid data := by
        simp only [Reply.units, replay_cons]
        rw [deliver_frame hup hp (by decide)]
        have hrespond : m.respond sid kXR_status block p {} = m.responseStatus sid block p {} := by
          simp [MachineState.respond, kXR_status, kXR_ok, kXR_oksofar, kXR_error, kXR_redirect,
            kXR_wait, kXR_waitresp]
        rw [hrespond]
        by_cases hnil : data = []
        · subst hnil
          have hzero : info.dlen = 0 := by simpa using hdlen
          simp [MachineState.responseStatus, hinfo, hzero, m', p']
        · have hsome : info.dlen ≠ 0 := by
            rw [hdlen]
            simpa using hnil
          simp [MachineState.responseStatus, hinfo, hsome, hnil, deliver, m', p']
      rw [hm]
      have hp' : m'.pending.get sid = some p' := by simp [m']
      have hfinal : (Reply.status block data).isFinal = info.isFinal := by
        simp [Reply.isFinal, hinfo]
      simp only [MachineState.onStatusData, hp', p']
      by_cases hfits : Fits p data
      · rw [withinCap_fits m' sid (p := { p with status := some info }) hfits]
        by_cases hlast : info.isFinal = true
        · simp only [hlast, if_true]
          refine ⟨?_, (release_forgets m' sid).2.2⟩
          exact .done rfl (hfinal.trans hlast) hfits (some info)
            (by simp [MachineState.emit, (release_forgets m' sid).2.1, Reply.body, m'])
        · simp only [hlast, if_false, Bool.false_eq_true]
          have hmore : (Reply.status block data).isFinal = false := by
            rw [hfinal]
            simpa using hlast
          exact ⟨.more rfl hmore hfits (some info) (by simp [MachineState.emit, Reply.body, m'])
            (by simp [MachineState.emit, Reply.body, m']), rfl⟩
      · rw [withinCap_over m' sid (p := { p with status := some info }) hfits]
        refine ⟨?_, (release_forgets m' sid).2.2⟩
        exact .tooLong rfl hfits (release_forgets m' sid).1 (.protocol (.overCap p.cap))
          (by simp [MachineState.emit, (release_forgets m' sid).2.1, m'])

/-- A reply on a stream that is owed none is dropped. -/
theorem replay_gone (hup : MachineState.inBringup m.state = false)
    (hp : m.pending.get sid = none) (r : Reply) :
    (replay m (r.units sid)).pending.get sid = none ∧
      (replay m (r.units sid)).events = m.events ∧
      (replay m (r.units sid)).state = m.state := by
  have hframe : ∀ status body, status ≠ kXR_attn →
      (deliver m (.frame ⟨sid, status, body.length⟩ body)).1.pending = m.pending ∧
      (deliver m (.frame ⟨sid, status, body.length⟩ body)).1.events = m.events ∧
      (deliver m (.frame ⟨sid, status, body.length⟩ body)).1.state = m.state := by
    intro status body hstatus
    simp only [deliver, MachineState.dispatch, hstatus, if_false, MachineState.route, hup, hp,
      Bool.false_eq_true]
    split
    · unfold MachineState.retiredReply
      simp only
      split
      · split
        · exact ⟨rfl, rfl, rfl⟩
        · split <;> exact ⟨rfl, rfl, rfl⟩
      · split <;> exact ⟨rfl, rfl, rfl⟩
    · exact ⟨rfl, rfl, rfl⟩
  cases r with
  | sofar body =>
      obtain ⟨hpending, hevents, hstate⟩ := hframe kXR_oksofar body (by decide)
      exact ⟨hpending ▸ hp, hevents, hstate⟩
  | wait body =>
      obtain ⟨hpending, hevents, hstate⟩ := hframe kXR_wait body (by decide)
      exact ⟨hpending ▸ hp, hevents, hstate⟩
  | ok body =>
      obtain ⟨hpending, hevents, hstate⟩ := hframe kXR_ok body (by decide)
      exact ⟨hpending ▸ hp, hevents, hstate⟩
  | status block data =>
      obtain ⟨hpending, hevents, hstate⟩ := hframe kXR_status block (by decide)
      have hgone : (deliver m (.frame ⟨sid, kXR_status, block.length⟩ block)).1.pending.get sid =
          none := hpending ▸ hp
      by_cases hnil : data = []
      · simp only [Reply.units, hnil, if_true, replay_cons, replay_nil]
        exact ⟨hgone, hevents, hstate⟩
      · have htrailer : ∀ m' : MachineState, m'.pending.get sid = none →
            (deliver m' (.trailer sid data)).1 = m' := by
          intro m' hm'
          simp [deliver, MachineState.onStatusData, hm']
        simp only [Reply.units, hnil, if_false, replay_cons, replay_nil]
        rw [htrailer _ hgone]
        exact ⟨hgone, hevents, hstate⟩

/-- Sending a request again leaves its record as it was: what it gathered stays. -/
theorem resume_keeps (m : MachineState) (sid : Nat) :
    (m.resume sid).1.pending = m.pending ∧ (m.resume sid).1.state = m.state := by
  unfold MachineState.resume
  split
  · exact ⟨rfl, rfl⟩
  · split <;> exact ⟨rfl, rfl⟩

end Machine

/-! ## Where a conversation can be -/

namespace Talk

/-- All the bodies that came are within the cap of the request. -/
def Within (cap : Nat) (t : Talk) : Prop := cap = 0 ∨ (t.stale ++ t.heard).length ≤ cap

/-- What was streamed since the request was last sent. -/
structure Streamed (t : Talk) (done : Bytes) : Prop where
  count : t.streamed = done.length
  pieces : t.onChunk = true → t.pieces.flatten = done

/-- The stages of a conversation. -/
inductive Stage (sid cap : Nat) (t : Talk) : Prop where
  /-- The answer is coming, or has to be asked for again. -/
  | coming (p : Pending) (bodies : List Bytes) (done : Bytes) (notice : List Event)
      (hp : t.core.pending.get sid = some p) (hcap : p.cap = cap)
      (hbuffer : p.buffer = t.stale ++ t.heard)
      (hmail : t.mail = bodies.map (.chunk sid p.request) ++ notice)
      (hnotice : (notice = [] ∧ t.waits = false) ∨
        (∃ seconds message, notice = [.waiting sid p.request seconds message true]) ∧
          t.waits = true)
      (hheard : done ++ bodies.flatten = t.heard) (hstreamed : t.Streamed done)
      (hopen : t.completed = none ∧ t.result = none ∧ t.ended = false)
      (hwithin : t.Within cap)
  /-- The machine has completed it. -/
  | complete (request : Request) (status : Option StatusInfo) (bodies : List Bytes)
      (done last : Bytes)
      (hmail : t.mail = bodies.map (.chunk sid request) ++
        [.completed sid request (t.stale ++ t.heard) status])
      (hheard : done ++ bodies.flatten ++ last = t.heard) (hstreamed : t.Streamed done)
      (hcompleted : t.completed = some (t.stale ++ t.heard) ∧ t.ended = true)
      (hwithin : t.Within cap)
  /-- `_answer` has returned. -/
  | returned (done last : Bytes) (hmail : t.mail = []) (hheard : done ++ last = t.heard)
      (hpieces : t.onChunk = true →
        t.pieces.flatten = done ++ (t.stale ++ t.heard).drop done.length)
      (hresult : t.result = some (t.stale ++ t.heard))
      (hcompleted : t.completed = some (t.stale ++ t.heard) ∧ t.ended = true)
      (hwithin : t.Within cap)
  /-- The machine gave the stream up: more came than the request asked for. -/
  | overrun (hgone : t.core.pending.get sid = none) (hover : ¬ t.Within cap)
      (hmail : completion t.mail = none) (hnone : t.completed = none ∧ t.result = none)

/-- What every fair turn keeps. -/
structure Sound (sid cap : Nat) (t : Talk) : Prop where
  up : MachineState.inBringup t.core.state = false
  stage : Stage sid cap t

theorem completion_append (es fs : List Event) :
    completion (es ++ fs) = (completion es <|> completion fs) := by
  induction es with
  | nil => rfl
  | cons e es ih => cases e <;> simp [completion, ih]

theorem completion_chunks (sid : Nat) (request : Request) (bodies : List Bytes) :
    completion (bodies.map (.chunk sid request)) = none := by
  induction bodies with
  | nil => rfl
  | cons b bodies ih => exact ih

/-- What a reply adds to a conversation, when the machine reports one event of it. -/
theorem hear_eq {t : Talk} {sid : Nat} {r : Reply} {e : Event}
    (hevents : (replay t.core (r.units sid)).events = t.core.events ++ [e])
    (hstream : e.stream = some sid) :
    t.hear sid r =
      { t with
        core := { replay t.core (r.units sid) with events := t.core.events }
        mail := t.mail ++ [e]
        completed := t.completed <|> completion [e]
        heard := t.heard ++ r.body
        waits := r.isWait
        ended := r.isFinal } := by
  simp [hear, hevents, hstream]

theorem hear_silent {t : Talk} {sid : Nat} {r : Reply}
    (hevents : (replay t.core (r.units sid)).events = t.core.events) :
    t.hear sid r =
      { t with
        core := { replay t.core (r.units sid) with events := t.core.events }
        heard := t.heard ++ r.body
        waits := r.isWait
        ended := r.isFinal } := by
  simp [hear, hevents, completion]

/-! ## One turn -/

variable {sid cap : Nat} {t : Talk}

theorem Streamed.of_eq {t' : Talk} {done : Bytes} (h : t.Streamed done)
    (hcount : t'.streamed = t.streamed) (hpieces : t'.pieces = t.pieces)
    (hchunk : t'.onChunk = t.onChunk) : t'.Streamed done :=
  ⟨hcount.trans h.count, fun hon => by rw [hpieces]; exact h.pieces (hchunk ▸ hon)⟩

/-- A fair reply keeps the conversation sound. -/
theorem hear_sound (h : t.Sound sid cap) {r : Reply} (hfair : Fair t (.hear r)) :
    (t.hear sid r).Sound sid cap := by
  obtain ⟨hwell, hended, hwaits⟩ := hfair
  cases h.stage with
  | coming p bodies done notice hp hcap hbuffer hmail hnotice hheard hstreamed hopen hwithin =>
      obtain ⟨htold, hstate⟩ := replay_told h.up hp hwell
      have hnil : notice = [] := by
        rcases hnotice with ⟨hnil, _⟩ | ⟨_, hyes⟩
        · exact hnil
        · rw [hwaits] at hyes
          cases hyes
      subst hnil
      rw [List.append_nil] at hmail
      obtain ⟨hcompleted, hresult, _⟩ := hopen
      have hfits_iff : Fits p r.body ↔ cap = 0 ∨ (t.stale ++ (t.heard ++ r.body)).length ≤ cap := by
        unfold Fits
        rw [hcap, hbuffer]
        simp only [List.length_append, Nat.add_assoc]
      cases htold with
      | waiting seconds message hwait hsame hevents =>
          have hbody : r.body = [] := by
            cases r with
            | wait body => rfl
            | _ => cases hwait
          have hfinal : r.isFinal = false := by
            cases r with
            | wait body => rfl
            | _ => cases hwait
          rw [hear_eq hevents rfl]
          refine ⟨hstate ▸ h.up, .coming p bodies done
            [.waiting sid p.request seconds message true] hsame hcap ?_ ?_ ?_ ?_
            (hstreamed.of_eq rfl rfl rfl) ?_ ?_⟩
          · simpa [hbody] using hbuffer
          · simp [hmail]
          · exact .inr ⟨⟨seconds, message, rfl⟩, hwait⟩
          · simpa [hbody] using hheard
          · exact ⟨by simp [hcompleted, completion], hresult, hfinal⟩
          · simpa [Within, hbody] using hwithin
      | more hwait hfinal hfits status hmore hevents =>
          rw [hear_eq hevents rfl]
          refine ⟨hstate ▸ h.up, .coming _ (bodies ++ [r.body]) done [] hmore hcap ?_ ?_
            (.inl ⟨rfl, hwait⟩) ?_ (hstreamed.of_eq rfl rfl rfl) ?_ (hfits_iff.mp hfits)⟩
          · simp [hbuffer]
          · simp [hmail]
          · simp [← hheard]
          · exact ⟨by simp [hcompleted, completion], hresult, hfinal⟩
      | done hwait hfinal hfits status hevents =>
          rw [hear_eq hevents rfl]
          refine ⟨hstate ▸ h.up, .complete p.request status bodies done r.body ?_ ?_
            (hstreamed.of_eq rfl rfl rfl) ?_ (hfits_iff.mp hfits)⟩
          · simp [hmail, hbuffer]
          · simp [← hheard]
          · exact ⟨by simp [hcompleted, completion, hbuffer], hfinal⟩
      | tooLong hwait hover hgone error hevents =>
          rw [hear_eq hevents rfl]
          refine ⟨hstate ▸ h.up, .overrun hgone (fun hin => hover (hfits_iff.mpr hin)) ?_ ?_⟩
          · rw [hmail, completion_append, completion_chunks]
            rfl
          · exact ⟨by simp [hcompleted, completion], hresult⟩
  | complete request status bodies done last hmail hheard hstreamed hcompleted hwithin =>
      rw [hended] at hcompleted
      cases hcompleted.2
  | returned done last hmail hheard hpieces hresult hcompleted hwithin =>
      rw [hended] at hcompleted
      cases hcompleted.2
  | overrun hgone hover hmail hnone =>
      obtain ⟨hstill, hevents, hstate⟩ := replay_gone h.up hgone r
      rw [hear_silent hevents]
      refine ⟨hstate ▸ h.up, .overrun hstill ?_ hmail hnone⟩
      intro hin
      apply hover
      rcases hin with hzero | hle
      · exact .inl hzero
      · refine .inr (Nat.le_trans ?_ hle)
        simp only [List.length_append]
        omega

/-- Handing a piece over. -/
theorem hand_streamed {done : Bytes} (h : t.Streamed done) (piece : Bytes) :
    ({ t.hand piece with streamed := t.streamed + piece.length } : Talk).Streamed
      (done ++ piece) := by
  refine ⟨by simp [h.count], ?_⟩
  intro hon
  unfold hand at hon ⊢
  split at hon
  · rename_i hyes
    simp only [hyes, if_true, List.flatten_append, List.flatten_singleton]
    rw [h.pieces hyes]
  · rename_i hno
    exact absurd hon hno

theorem hand_fields (t : Talk) (piece : Bytes) :
    (t.hand piece).core = t.core ∧ (t.hand piece).mail = t.mail ∧
      (t.hand piece).stale = t.stale ∧ (t.hand piece).heard = t.heard ∧
      (t.hand piece).completed = t.completed ∧ (t.hand piece).result = t.result ∧
      (t.hand piece).waits = t.waits ∧ (t.hand piece).ended = t.ended ∧
      (t.hand piece).streamed = t.streamed ∧ (t.hand piece).onChunk = t.onChunk := by
  unfold hand
  split <;> exact ⟨rfl, rfl, rfl, rfl, rfl, rfl, rfl, rfl, rfl, rfl⟩

theorem look_chunk {s : Nat} {request : Request} {data : Bytes} {mail : List Event}
    (h : t.mail = .chunk s request data :: mail) :
    t.look sid = { ({ t with mail := mail } : Talk).hand data with
      streamed := t.streamed + data.length } := by
  simp [look, h]

/-- A partial body is taken from the mailbox. -/
theorem look_chunk_fields (sid : Nat) {s : Nat} {request : Request} {data : Bytes} {mail : List Event}
    (h : t.mail = .chunk s request data :: mail) :
    (t.look sid).core = t.core ∧ (t.look sid).mail = mail ∧
      (t.look sid).stale = t.stale ∧ (t.look sid).heard = t.heard ∧
      (t.look sid).completed = t.completed ∧ (t.look sid).result = t.result ∧
      (t.look sid).waits = t.waits ∧ (t.look sid).ended = t.ended ∧
      ∀ done, t.Streamed done → (t.look sid).Streamed (done ++ data) := by
  obtain ⟨hcore, hmail, hstale, hheard, hcompleted, hresult, hwaits, hended, _, _⟩ :=
    hand_fields ({ t with mail := mail } : Talk) data
  rw [look_chunk h]
  refine ⟨hcore, hmail, hstale, hheard, hcompleted, hresult, hwaits, hended, ?_⟩
  intro done hstreamed
  exact hand_streamed (t := { t with mail := mail }) (hstreamed.of_eq rfl rfl rfl) data

/-- The answer is taken from the mailbox: the rest of it is streamed, and it is returned. -/
theorem look_completed {request : Request} {data : Bytes} {status : Option StatusInfo}
    (h : t.mail = [.completed sid request data status]) :
    (t.look sid).core = t.core ∧ (t.look sid).mail = [] ∧
      (t.look sid).stale = t.stale ∧ (t.look sid).heard = t.heard ∧
      (t.look sid).completed = t.completed ∧ (t.look sid).result = some data ∧
      (t.look sid).ended = t.ended ∧
      ∀ done, t.Streamed done → (t.look sid).onChunk = true →
        (t.look sid).pieces.flatten = done ++ data.drop done.length := by
  have hlook : t.look sid =
      { (if t.streamed < data.length then
          ({ t with mail := [] } : Talk).hand (data.drop t.streamed)
        else { t with mail := [] }) with result := some data } := by
    simp [look, h]
  rw [hlook]
  split
  · obtain ⟨hcore, hmail, hstale, hheard, hcompleted, _, _, hended, _, hchunk⟩ :=
      hand_fields ({ t with mail := [] } : Talk) (data.drop t.streamed)
    refine ⟨hcore, hmail, hstale, hheard, hcompleted, rfl, hended, ?_⟩
    intro done hstreamed hon
    have hon' : t.onChunk = true := hchunk.symm.trans hon
    simp only [hand, hon', if_true, List.flatten_append, List.flatten_singleton,
      hstreamed.pieces hon', hstreamed.count]
  · rename_i hall
    refine ⟨rfl, rfl, rfl, rfl, rfl, rfl, rfl, ?_⟩
    intro done hstreamed hon
    have hnil : data.drop done.length = [] := by
      rw [List.drop_eq_nil_iff, ← hstreamed.count]
      exact Nat.le_of_not_lt hall
    rw [hnil, List.append_nil]
    exact hstreamed.pieces hon

/-- A look in the mailbox keeps the conversation sound. -/
theorem look_sound (h : t.Sound sid cap) : (t.look sid).Sound sid cap := by
  cases h.stage with
  | coming p bodies done notice hp hcap hbuffer hmail hnotice hheard hstreamed hopen hwithin =>
      cases bodies with
      | cons data bodies =>
          have hfirst : t.mail = .chunk sid p.request data ::
              (bodies.map (.chunk sid p.request) ++ notice) := by simp [hmail]
          obtain ⟨hcore, hrest, hstale, hheard', hcompleted, hresult, hwaits, hended, hcount⟩ :=
            look_chunk_fields sid hfirst
          refine ⟨hcore ▸ h.up, .coming p bodies (done ++ data) notice (hcore ▸ hp) hcap ?_ hrest ?_
            ?_ (hcount done hstreamed) ?_ ?_⟩
          · rw [hstale, hheard', hbuffer]
          · rwa [hwaits]
          · rw [hheard', ← hheard]
            simp
          · rw [hcompleted, hresult, hended]
            exact hopen
          · rwa [Within, hstale, hheard']
      | nil =>
          rcases hnotice with ⟨rfl, hwaits⟩ | ⟨⟨seconds, message, rfl⟩, hwaits⟩
          · have hempty : t.mail = [] := by simpa using hmail
            have hsame : t.look sid = t := by simp [look, hempty]
            rw [hsame]
            exact h
          · -- The request is sent again, and everything so far belongs to the past.
            have hfirst : t.mail = [.waiting sid p.request seconds message true] := by
              simpa using hmail
            obtain ⟨hpending, hstate⟩ := resume_keeps t.core sid
            simp only [look, hfirst]
            refine ⟨hstate ▸ h.up, .coming p [] [] [] (hpending ▸ hp) hcap ?_ rfl
              (.inl ⟨rfl, rfl⟩) rfl ⟨rfl, fun _ => rfl⟩ hopen ?_⟩
            · simpa using hbuffer
            · simpa [Within] using hwithin
  | complete request status bodies done last hmail hheard hstreamed hcompleted hwithin =>
      cases bodies with
      | cons data bodies =>
          have hfirst : t.mail = .chunk sid request data ::
              (bodies.map (.chunk sid request) ++
                [.completed sid request (t.stale ++ t.heard) status]) := by simp [hmail]
          obtain ⟨hcore, hrest, hstale, hheard', hsaid, hresult, hwaits, hended, hcount⟩ :=
            look_chunk_fields sid hfirst
          refine ⟨hcore ▸ h.up, .complete request status bodies (done ++ data) last ?_ ?_
            (hcount done hstreamed) ?_ ?_⟩
          · rw [hrest, hstale, hheard']
          · rw [hheard', ← hheard]
            simp
          · rw [hsaid, hended, hstale, hheard']
            exact hcompleted
          · rwa [Within, hstale, hheard']
      | nil =>
          have hlast : t.mail = [.completed sid request (t.stale ++ t.heard) status] := by
            simpa using hmail
          obtain ⟨hcore, hrest, hstale, hheard', hsaid, hresult, hended, hpieces⟩ :=
            look_completed hlast
          refine ⟨hcore ▸ h.up, .returned done last hrest ?_ ?_ ?_ ?_ ?_⟩
          · rw [hheard', ← hheard]
            simp
          · rw [hstale, hheard']
            exact hpieces done hstreamed
          · rw [hresult, hstale, hheard']
          · rw [hsaid, hended, hstale, hheard']
            exact hcompleted
          · rwa [Within, hstale, hheard']
  | returned done last hmail hheard hpieces hresult hcompleted hwithin =>
      have hsame : t.look sid = t := by simp [look, hmail]
      rw [hsame]
      exact h
  | overrun hgone hover hmail hnone =>
      cases hfirst : t.mail with
      | nil =>
          have hsame : t.look sid = t := by simp [look, hfirst]
          rw [hsame]
          exact h
      | cons e mail =>
          rw [hfirst] at hmail
          cases e with
          | completed s request data status => cases hmail
          | chunk s request data =>
              obtain ⟨hcore, hrest, hstale, hheard, hsaid, hresult, _, _, _⟩ :=
                look_chunk_fields sid hfirst
              refine ⟨hcore ▸ h.up, .overrun (hcore ▸ hgone) ?_ (hrest ▸ hmail) ?_⟩
              · rwa [Within, hstale, hheard]
              · rwa [hsaid, hresult]
          | waiting s request seconds message resend =>
              cases resend with
              | true =>
                  obtain ⟨hpending, hstate⟩ := resume_keeps t.core sid
                  simp only [look, hfirst]
                  refine ⟨hstate ▸ h.up, .overrun (hpending ▸ hgone) ?_ hmail hnone⟩
                  simpa [Within] using hover
              | false =>
                  simp only [look, hfirst]
                  exact ⟨h.up, .overrun hgone hover hmail hnone⟩
          | _ =>
              simp only [look, hfirst]
              exact ⟨h.up, .overrun hgone hover hmail hnone⟩

/-- Every fair turn keeps the conversation sound. -/
theorem step_sound (h : t.Sound sid cap) (x : TalkTurn) (hfair : Fair t x) :
    (t.step sid x).Sound sid cap := by
  cases x with
  | hear r => exact hear_sound h hfair
  | look => exact look_sound h
  | elsewhere core =>
      simp only [step]
      split
      · rename_i happart
        obtain ⟨hsame, hup⟩ := happart
        refine ⟨hup, ?_⟩
        cases h.stage with
        | coming p bodies done notice hp hcap hbuffer hmail hnotice hheard hstreamed hopen hwithin =>
            exact .coming p bodies done notice (hsame.trans hp) hcap hbuffer hmail hnotice hheard
              (hstreamed.of_eq rfl rfl rfl) hopen hwithin
        | complete request status bodies done last hmail hheard hstreamed hcompleted hwithin =>
            exact .complete request status bodies done last hmail hheard
              (hstreamed.of_eq rfl rfl rfl) hcompleted hwithin
        | returned done last hmail hheard hpieces hresult hcompleted hwithin =>
            exact .returned done last hmail hheard hpieces hresult hcompleted hwithin
        | overrun hgone hover hmail hnone =>
            exact .overrun (hsame.trans hgone) hover hmail hnone
      · exact h

/-- A whole fair conversation stays sound. -/
theorem run_sound : ∀ (turns : List TalkTurn) (t : Talk), t.Sound sid cap → Follows sid t turns →
    (t.run sid turns).Sound sid cap := by
  intro turns
  induction turns with
  | nil => intro t h _; exact h
  | cons x turns ih =>
      intro t h hfollows
      exact ih _ (step_sound h x hfollows.1) hfollows.2

/-! ## The body of an answer -/

/-- The record of a request that has just been submitted. -/
theorem submit_record {m core : MachineState} {request : Request} {path : Text}
    {arriveOnPath : Bool} (h : m.submit request path arriveOnPath = (.ok sid, core)) :
    (∃ p, core.pending.get sid = some p ∧ p.buffer = [] ∧ p.cap = request.replyCap) ∧
      core.state = .ready := by
  unfold MachineState.submit at h
  split at h
  · cases h
  rename_i hstate
  have hready : m.state = .ready := not_not.mp hstate
  cases hacquire : m.acquireSid with
  | mk got taken =>
  have htaken : taken.state = m.state := by
    have hfrom : taken = m.acquireSid.2 := by rw [hacquire]
    rw [hfrom]
    unfold MachineState.acquireSid
    split
    · rfl
    · dsimp only
      split <;> rfl
  cases got with
  | error e =>
      simp only [hacquire] at h
      cases h
  | ok got =>
      simp only [hacquire] at h
      cases hframe : taken.frame request got with
      | mk parts framed =>
      have hframed : framed.state = taken.state := by
        have := (MachineState.frame_streams taken request got).state
        rwa [hframe] at this
      cases parts with
      | error e =>
          simp only [MachineState.send, hframe] at h
          cases h
      | ok parts =>
          simp only [MachineState.send, hframe] at h
          split at h
          · rename_i heq
            split_ifs at heq <;> cases heq
          · rename_i heq
            obtain ⟨hsid, rfl⟩ := Prod.mk.inj h
            obtain rfl := Except.ok.inj hsid
            split_ifs at heq <;> obtain ⟨rfl, _⟩ := Prod.mk.inj heq <;>
              exact ⟨⟨_, by simp [MachineState.queuePath, MachineState.queue]; rfl, rfl, rfl⟩,
                hframed.trans (htaken.trans hready)⟩

/-- A conversation from a submitted request on is sound. -/
theorem opened_sound {m core : MachineState} {request : Request} {path : Text}
    {arriveOnPath : Bool} (h : m.submit request path arriveOnPath = (.ok sid, core))
    (onChunk : Bool) : (opened core onChunk).Sound sid request.replyCap := by
  obtain ⟨⟨p, hp, hbuffer, hcap⟩, hready⟩ := submit_record h
  refine ⟨?_, .coming p [] [] [] hp hcap hbuffer rfl (.inl ⟨rfl, rfl⟩) rfl ⟨rfl, fun _ => rfl⟩
    ⟨rfl, rfl, rfl⟩ ?_⟩
  · show MachineState.inBringup core.state = false
    rw [hready]
    rfl
  · exact .inr (Nat.zero_le _)

/-- The answer came out as it was given since the request was last sent: the event, the
result and the pieces all hold those bodies, unless the server sent more than was asked
for, and then there is no completion at all. -/
structure Faithful (cap : Nat) (t : Talk) : Prop where
  only : ∀ data, t.completed = some data → data = t.heard
  whole : (cap = 0 ∨ t.heard.length ≤ cap) →
    t.completed = some t.heard ∧ t.result = some t.heard ∧
      (t.onChunk = true → t.pieces.flatten = t.heard)

/-- For every request and every answer, however it is cut, however often it is
interrupted by `kXR_wait`, and whatever else goes on: the body of the answer is what
came since the request was last sent, exactly when nothing had come before that (or
more came since than was asked for, and the stream has failed). -/
theorem answer_faithful_iff {m core : MachineState} {request : Request} {path : Text}
    {arriveOnPath : Bool} (h : m.submit request path arriveOnPath = (.ok sid, core))
    (onChunk : Bool) (turns : List TalkTurn) (hfollows : Follows sid (opened core onChunk) turns)
    (hended : ((opened core onChunk).run sid turns).ended = true)
    (hread : ((opened core onChunk).run sid turns).mail = []) :
    Faithful request.replyCap ((opened core onChunk).run sid turns) ↔
      ((opened core onChunk).run sid turns).stale = [] ∨
        (request.replyCap ≠ 0 ∧
          request.replyCap < ((opened core onChunk).run sid turns).heard.length) := by
  have hsound := run_sound turns _ (opened_sound h onChunk) hfollows
  generalize (opened core onChunk).run sid turns = t at *
  cases hsound.stage with
  | coming p bodies done notice hp hcap hbuffer hmail hnotice hheard hstreamed hopen hwithin =>
      rw [hopen.2.2] at hended
      cases hended
  | complete request status bodies done last hmail hheard hstreamed hcompleted hwithin =>
      rw [hmail] at hread
      simp at hread
  | returned done last hmail hheard hpieces hresult hcompleted hwithin =>
      constructor
      · intro hfaithful
        have hall : t.stale ++ t.heard = t.heard := hfaithful.only _ hcompleted.1
        exact .inl (by simpa using hall)
      · rintro (hstale | ⟨hcap, hover⟩)
        · rw [hstale, List.nil_append] at hcompleted hresult hpieces
          refine ⟨?_, ?_⟩
          · intro data hdata
            rw [hcompleted.1] at hdata
            exact (Option.some.inj hdata).symm
          · intro _
            refine ⟨hcompleted.1, hresult, ?_⟩
            intro hon
            rw [hpieces hon, ← hheard]
            simp
        · rcases hwithin with hzero | hle
          · exact absurd hzero hcap
          · rw [List.length_append] at hle
            omega
  | overrun hgone hover hmail hnone =>
      have hover' : ¬ (request.replyCap = 0 ∨ (t.stale ++ t.heard).length ≤ request.replyCap) := hover
      constructor
      · intro hfaithful
        right
        by_contra hfits
        have hin : request.replyCap = 0 ∨ t.heard.length ≤ request.replyCap := by omega
        have := (hfaithful.whole hin).1
        rw [hnone.1] at this
        cases this
      · intro hcond
        have hbig : ¬ (request.replyCap = 0 ∨ t.heard.length ≤ request.replyCap) := by
          rcases hcond with hstale | ⟨hcap, hlt⟩
          · rwa [hstale, List.nil_append] at hover'
          · omega
        refine ⟨?_, fun hin => absurd hin hbig⟩
        intro data hdata
        rw [hnone.1] at hdata
        cases hdata

/-- A directory listing, on a machine that is logged in. -/
def listing : Request := { opcode := 3004, params := List.replicate 16 0 }

/-- The machine with the listing submitted. -/
def asked : MachineState := ((MachineState.bare .ready).submit listing).2

theorem asked_submit : (MachineState.bare .ready).submit listing = (.ok 4, asked) :=
  Prod.ext rfl rfl

/-- An answer in two parts, to a request that is sent again behind a wait. -/
def inTwoParts : List TalkTurn :=
  [.hear (.wait [0, 0, 0, 1]), .look, .hear (.sofar [1]), .look, .hear (.ok [2]), .look]

theorem answer_faithful_iff_in_two_parts :
    Faithful 0 ((opened asked true).run 4 inTwoParts) := by
  refine (answer_faithful_iff asked_submit true inTwoParts ?_ rfl rfl).mpr (.inl rfl)
  exact ⟨⟨⟨_, rfl⟩, rfl, rfl⟩, trivial, ⟨trivial, rfl, rfl⟩, trivial, ⟨trivial, rfl, rfl⟩, trivial, trivial⟩

/-- An answer that the server breaks off after its first part, and gives from the
beginning when it is asked again. -/
def brokenOff : List TalkTurn :=
  [.hear (.sofar [1]), .look, .hear (.wait [0, 0, 0, 1]), .look, .hear (.ok [1, 2]), .look]

/-- The part that came before the resend is in the answer twice. -/
theorem brokenOff_not_faithful :
    Follows 4 (opened asked true) brokenOff ∧
      ((opened asked true).run 4 brokenOff).ended = true ∧
      ((opened asked true).run 4 brokenOff).mail = [] ∧
      ((opened asked true).run 4 brokenOff).heard = [1, 2] ∧
      ((opened asked true).run 4 brokenOff).result = some [1, 1, 2] ∧
      ¬ Faithful listing.replyCap ((opened asked true).run 4 brokenOff) := by
  refine ⟨?_, rfl, rfl, rfl, rfl, ?_⟩
  · exact ⟨⟨trivial, rfl, rfl⟩, trivial, ⟨⟨_, rfl⟩, rfl, rfl⟩, trivial, ⟨trivial, rfl, rfl⟩,
      trivial, trivial⟩
  · intro h
    have := h.only [1, 1, 2] rfl
    exact absurd this (by decide)

end Talk

end XrdClient.Session
