/-
  Proto/Outgoing.lean --- what the machine has queued, and what it keeps for a resend.

  Source: `proto/machine.py`, every method of `SessionMachine` that a driver calls
  between framing a request and draining the queues.

  A driver takes what is queued whenever it holds the session's lock, so what matters
  of any other call is that it leaves the queues alone, or adds to their end, and that
  the frames kept for a `kXR_wait` stay as they went out (`Carries`).  Handlers of a
  reply to a request leave the queues alone (`Unmoved`) and the records as they are
  (`Recorded`); those of bring-up add to the control queue (`Grows`).
-/
import XrdClient.Proto.Pool
import XrdClient.Proto.TlsPolicy
import XrdClient.Proto.TlsBoundary

set_option autoImplicit false

namespace XrdClient.Proto

open XrdClient.Lib
open XrdClient.Auth

/-- The same frame is kept for a resend. -/
structure SameFrame (p p' : Pending) : Prop where
  parts : p'.parts = p.parts
  pathid : p'.pathid = p.pathid
  pathBytes : p'.pathBytes = p.pathBytes

theorem SameFrame.refl (p : Pending) : SameFrame p p := ⟨rfl, rfl, rfl⟩

theorem SameFrame.trans {p p' p'' : Pending} (h : SameFrame p p') (h' : SameFrame p' p'') :
    SameFrame p p'' :=
  ⟨h'.parts.trans h.parts, h'.pathid.trans h.pathid, h'.pathBytes.trans h.pathBytes⟩

namespace MachineState

/-- The bring-up is over, for better or worse. -/
def isPast : State → Bool
  | .ready | .failed | .closed => true
  | _ => false

/-- What is queued for a data path. -/
def pathQueue (m : MachineState) (pathid : Nat) : List Bytes := (m.outPath.get pathid).getD []

/-! ## Replies to requests -/

/-- Every record is one that was there, with the same frame. -/
def Records (m m' : MachineState) : Prop :=
  ∀ sid p', m'.pending.get sid = some p' → ∃ p, m.pending.get sid = some p ∧ SameFrame p p'

theorem Records.of_get {m m' : MachineState}
    (h : ∀ sid p, m'.pending.get sid = some p → m.pending.get sid = some p) : Records m m' :=
  fun sid p hp => ⟨p, h sid p hp, .refl p⟩

theorem Records.of_eq {m m' : MachineState} (h : m'.pending = m.pending) : Records m m' :=
  .of_get fun sid p hp => by rw [← h]; exact hp

theorem Records.trans {m m' m'' : MachineState} (h : Records m m') (h' : Records m' m'') :
    Records m m'' := by
  intro sid p hp
  obtain ⟨p', hp', hsame'⟩ := h' sid p hp
  obtain ⟨p'', hp'', hsame⟩ := h sid p' hp'
  exact ⟨p'', hp'', hsame.trans hsame'⟩

/-- Neither the signer nor a kept frame changes. -/
structure Recorded (m m' : MachineState) : Prop where
  signer : m'.signer = m.signer
  records : Records m m'

theorem Recorded.of_eq {m m' : MachineState} (hs : m'.signer = m.signer)
    (hp : m'.pending = m.pending) : Recorded m m' := ⟨hs, .of_eq hp⟩

theorem Recorded.refl (m : MachineState) : Recorded m m := .of_eq rfl rfl

theorem Recorded.trans {m m' m'' : MachineState} (h : Recorded m m') (h' : Recorded m' m'') : Recorded m m'' :=
  ⟨h'.signer.trans h.signer, h.records.trans h'.records⟩

theorem Recorded.foldl {f : MachineState → Nat → MachineState} (hf : ∀ m sid, Recorded m (f m sid)) :
    ∀ (sids : List Nat) (m : MachineState), Recorded m (sids.foldl f m) := by
  intro sids
  induction sids with
  | nil => intro m; exact .refl m
  | cons sid sids ih => intro m; exact (hf m sid).trans (ih _)

theorem emit_recorded (m : MachineState) (e : Event) : Recorded m (m.emit e) := .of_eq rfl rfl

theorem release_recorded (m : MachineState) (sid : Nat) : Recorded m (m.release sid) := by
  refine ⟨?_, .of_get fun s p hp => (release_get hp).1⟩
  unfold release
  split <;> rfl

theorem abandon_recorded (m : MachineState) (sid : Nat) : Recorded m (m.abandon sid) := by
  refine ⟨?_, .of_get fun s p hp => abandon_get hp⟩
  unfold abandon
  split <;> rfl

theorem giveBack_recorded (owed : Nat → Bool) (m : MachineState) (sid : Nat) :
    Recorded m (giveBack owed m sid) := by
  unfold giveBack
  simp only
  split <;> exact .of_eq rfl rfl

theorem acquireSid_recorded (m : MachineState) : Recorded m m.acquireSid.2 := by
  unfold acquireSid
  split
  · exact .of_eq rfl rfl
  · simp only
    split <;> exact .of_eq rfl rfl

theorem acquireSid_pending (m : MachineState) : m.acquireSid.2.pending = m.pending := by
  unfold acquireSid
  split
  · rfl
  · simp only
    split <;> rfl

theorem leaseLoop_recorded : ∀ (count : Nat) (m : MachineState) (leased : List Nat),
    Recorded m (leaseLoop count m leased).2 := by
  intro count
  induction count with
  | zero => intro m leased; exact .refl m
  | succ count ih =>
    intro m leased
    have hacq := acquireSid_recorded m
    unfold leaseLoop
    split
    · next heq =>
      rw [heq] at hacq
      exact hacq
    · next sid m' heq =>
      rw [heq] at hacq
      have hlease : Recorded m' { m' with leased := m'.leased ++ [sid] } := .of_eq rfl rfl
      exact (hacq.trans hlease).trans (ih _ _)

/-- Replacing a record by one with the same frame. -/
theorem setPending_recorded {m : MachineState} {sid : Nat} {p : Pending}
    (h : m.pending.get sid = some p) (p' : Pending) (hsame : SameFrame p p') :
    Recorded m { m with pending := m.pending.set sid p' } := by
  refine ⟨rfl, fun s q hq => ?_⟩
  simp only [Assoc.get_set] at hq
  split at hq
  · next hs =>
    cases hq
    exact ⟨p, hs ▸ h, hsame⟩
  · exact ⟨q, hq, .refl q⟩

theorem withinCap_recorded (m : MachineState) (sid : Nat) (p : Pending) (extra : Nat) :
    Recorded m (m.withinCap sid p extra).2 := by
  unfold withinCap
  split
  · exact .refl m
  · exact (release_recorded m sid).trans (emit_recorded _ _)

theorem responseChunk_recorded {m : MachineState} {sid : Nat} {p : Pending}
    (h : m.pending.get sid = some p) (body : Bytes) : Recorded m (m.responseChunk sid body p) := by
  have hcap := withinCap_recorded m sid p body.length
  unfold responseChunk
  split
  · next heq =>
    rw [heq] at hcap
    exact hcap
  · next heq =>
    rw [withinCap_true heq]
    refine Recorded.trans (setPending_recorded h _ ?_) (emit_recorded _ _)
    exact ⟨rfl, rfl, rfl⟩

theorem responseOk_recorded (m : MachineState) (sid : Nat) (body : Bytes) (p : Pending) :
    Recorded m (m.responseOk sid body p) := by
  have hcap := withinCap_recorded m sid p body.length
  unfold responseOk
  split
  · next heq =>
    rw [heq] at hcap
    exact hcap
  · next heq =>
    rw [withinCap_true heq]
    exact (release_recorded m sid).trans (emit_recorded _ _)

theorem onStatusData_recorded (m : MachineState) (sid : Nat) (data : Bytes) :
    Recorded m (m.onStatusData sid data) := by
  unfold onStatusData
  split
  · exact .refl m
  · next p hp =>
    split
    · exact .refl m
    · have hcap := withinCap_recorded m sid p data.length
      split
      · next heq =>
        rw [heq] at hcap
        exact hcap
      · next heq =>
        rw [withinCap_true heq]
        split
        · exact (release_recorded m sid).trans (emit_recorded _ _)
        · refine Recorded.trans (setPending_recorded hp _ ?_) (emit_recorded _ _)
          exact ⟨rfl, rfl, rfl⟩

theorem respond_recorded {m : MachineState} {sid : Nat} {p : Pending}
    (h : m.pending.get sid = some p) (status : Nat) (body : Bytes) (f : Framer) :
    Recorded m (m.respond sid status body p f).1 := by
  unfold respond
  split_ifs
  · exact responseOk_recorded m sid body p
  · exact responseChunk_recorded h body
  · unfold responseError
    split
    · exact .refl m
    · exact (release_recorded m sid).trans (emit_recorded _ _)
  · unfold responseRedirect
    split
    · exact .refl m
    · exact emit_recorded _ _
  · unfold responseWait
    split
    · exact .refl m
    · exact emit_recorded _ _
  · unfold responseWaitresp
    split
    · exact .refl m
    · exact emit_recorded _ _
  · unfold responseStatus
    split
    · exact .refl m
    · next info _ =>
      have hset : Recorded m { m with pending := m.pending.set sid { p with status := some info } } :=
        setPending_recorded h _ ⟨rfl, rfl, rfl⟩
      simp only
      split
      · exact hset
      · exact hset.trans (onStatusData_recorded _ _ _)
  · exact (release_recorded m sid).trans (emit_recorded _ _)

theorem retiredReply_recorded (m : MachineState) (sid status : Nat) (body : Bytes) (f : Framer) :
    Recorded m (m.retiredReply sid status body f).1 := by
  have hfreed : Recorded m
      { m with retired := m.retired.filter (· ≠ sid), free := m.free ++ [sid] } := .of_eq rfl rfl
  unfold retiredReply
  simp only
  split
  · split
    · exact .refl m
    · simp only
      split
      · exact hfreed
      · exact .refl m
  · split
    · exact hfreed
    · exact .refl m

/-! ## Bring-up -/

/-- What the machine sends for itself goes to the end of the control queue. -/
structure Grows (m m' : MachineState) : Prop where
  out : m.out <+: m'.out
  outPath : m'.outPath = m.outPath
  pending : m'.pending = m.pending

theorem Grows.of_eq {m m' : MachineState} (ho : m'.out = m.out) (hpath : m'.outPath = m.outPath)
    (hp : m'.pending = m.pending) : Grows m m' := ⟨ho.symm ▸ List.prefix_refl m.out, hpath, hp⟩

theorem Grows.refl (m : MachineState) : Grows m m := .of_eq rfl rfl rfl

theorem Grows.trans {m m' m'' : MachineState} (h : Grows m m') (h' : Grows m' m'') :
    Grows m m'' :=
  ⟨h.out.trans h'.out, h'.outPath.trans h.outPath, h'.pending.trans h.pending⟩

/-- Fields that are not sent may change first. -/
theorem Grows.after {m m' m'' : MachineState} (h : Grows m' m'') (ho : m'.out = m.out)
    (hpath : m'.outPath = m.outPath) (hp : m'.pending = m.pending) : Grows m m'' :=
  Grows.trans (.of_eq ho hpath hp) h

theorem queue_grows (m : MachineState) (parts : List Bytes) : Grows m (m.queue parts) :=
  ⟨List.prefix_append _ _, rfl, rfl⟩

theorem queueEncoded_grows (m : MachineState) (request : Request) (sid : Nat) :
    Grows m (m.queueEncoded request sid).1 := by
  unfold queueEncoded
  split
  · exact .refl m
  · exact queue_grows m _

theorem start_grows (m : MachineState) : Grows m m.start.1 := by
  unfold start
  split
  · exact .refl m
  · dsimp only
    have hqueued := (queue_grows m [HANDSHAKE]).trans (queueEncoded_grows (m.queue [HANDSHAKE])
      (protocolRequest (kXR_secreqs ||| kXR_ableTLS ||| (if m.wantTls then kXR_wantTLS else 0)))
      SID_PROTOCOL)
    split
    · next heq =>
      rw [heq] at hqueued
      exact hqueued
    · next heq =>
      rw [heq] at hqueued
      exact hqueued.trans (.of_eq rfl rfl rfl)

theorem beginLogin_grows (m : MachineState) : Grows m m.beginLogin.1 := by
  unfold beginLogin
  split
  · exact (queueEncoded_grows { m with state := .bind } _ _).after rfl rfl rfl
  · exact (queueEncoded_grows { m with state := .login } _ _).after rfl rfl rfl

theorem tlsEstablished_grows (m : MachineState) : Grows m m.tlsEstablished.1 := by
  unfold tlsEstablished
  split
  · exact .refl m
  · exact (beginLogin_grows { m with tlsActive := true }).after rfl rfl rfl

theorem afterProtocol_grows (m : MachineState) : Grows m m.afterProtocol.1 := by
  unfold afterProtocol
  dsimp only
  split
  · split <;> exact .of_eq rfl rfl rfl
  · exact beginLogin_grows m

theorem ladderSpent_grows (m : MachineState) : Grows m m.ladderSpent := by
  unfold ladderSpent
  split <;> exact .of_eq rfl rfl rfl

theorem climb_grows : ∀ (fuel : Nat) (m : MachineState) (l : Ladder),
    Grows m (climb fuel m l).1 := by
  intro fuel
  induction fuel with
  | zero => intro m l; exact ladderSpent_grows m
  | succ fuel ih =>
    intro m l
    unfold climb
    split
    · exact .of_eq rfl rfl rfl
    · exact (ladderSpent_grows _).after rfl rfl rfl
    · dsimp only
      split
      · exact (ih _ _).after rfl rfl rfl
      · split
        · exact .of_eq rfl rfl rfl
        · exact (queueEncoded_grows _ _ _).after rfl rfl rfl

theorem nextCredential_grows (m : MachineState) (sec : Text) :
    Grows m (m.nextCredential sec).1 := by
  unfold nextCredential
  split
  · exact climb_grows _ m _
  · exact (climb_grows _ _ _).after rfl rfl rfl

theorem authStep_grows (m : MachineState) (challenge : Bytes) :
    Grows m (m.authStep challenge).1 := by
  unfold authStep
  split
  · exact .of_eq rfl rfl rfl
  · dsimp only
    split
    · exact (nextCredential_grows _ _).after rfl rfl rfl
    · exact (nextCredential_grows _ _).after rfl rfl rfl
    · split
      · exact .of_eq rfl rfl rfl
      · exact (queueEncoded_grows _ _ _).after rfl rfl rfl

theorem bringupReply_grows (m : MachineState) (status : Nat) (body : Bytes) :
    Grows m (m.bringupReply status body).1 := by
  unfold bringupReply
  split
  · exact .of_eq rfl rfl rfl
  · split
    · exact .refl m
    · exact (afterProtocol_grows _).after rfl rfl rfl
  · split
    · exact .refl m
    · exact .of_eq rfl rfl rfl
  · dsimp only
    split
    · exact .of_eq rfl rfl rfl
    · exact (nextCredential_grows _ _).after rfl rfl rfl
  · split
    · exact authStep_grows m body
    · exact .of_eq rfl rfl rfl

theorem bringup_grows (m : MachineState) (status : Nat) (body : Bytes) :
    Grows m (m.bringup status body).1 := by
  unfold bringup
  split
  · unfold bringupError
    split
    · exact .refl m
    · split
      · exact (nextCredential_grows _ _).after rfl rfl rfl
      · exact .of_eq rfl rfl rfl
  · split
    · exact .of_eq rfl rfl rfl
    · exact bringupReply_grows m status body

/-! ## Any call -/

/-- What a call does that frames nothing for anybody else: it adds to the end of the
control queue at most, and past the bring-up not even that. -/
structure Carries (m m' : MachineState) : Prop where
  out : m.out <+: m'.out
  path : ∀ pathid, m.pathQueue pathid = [] → m'.pathQueue pathid = []
  records : Records m m'
  past : isPast m.state = true → isPast m'.state = true ∧ m'.out = m.out ∧ m'.signer = m.signer

theorem Carries.refl (m : MachineState) : Carries m m :=
  ⟨List.prefix_refl _, fun _ h => h, .of_eq rfl, fun h => ⟨h, rfl, rfl⟩⟩

theorem Carries.trans {m m' m'' : MachineState} (h : Carries m m') (h' : Carries m' m'') :
    Carries m m'' := by
  refine ⟨h.out.trans h'.out, fun p hp => h'.path p (h.path p hp), h.records.trans h'.records,
    fun hpast => ?_⟩
  obtain ⟨hpast', hout, hsigner⟩ := h.past hpast
  obtain ⟨hpast'', hout', hsigner'⟩ := h'.past hpast'
  exact ⟨hpast'', hout'.trans hout, hsigner'.trans hsigner⟩

theorem pathQueue_congr {m m' : MachineState} (h : m'.outPath = m.outPath) (pathid : Nat) :
    m'.pathQueue pathid = m.pathQueue pathid := by
  rw [pathQueue, pathQueue, h]

/-- A handler that neither moves the connection nor touches a record. -/
theorem Carries.of_unmoved {m m' : MachineState} (h : Unmoved m m') (hr : Recorded m m') :
    Carries m m' := by
  refine ⟨h.out.symm ▸ List.prefix_refl m.out, fun p hp => ?_, hr.records, fun hpast => ⟨?_, h.out, hr.signer⟩⟩
  · rw [pathQueue_congr h.outPath]
    exact hp
  · rw [h.state]
    exact hpast

/-- A handler of the bring-up. -/
theorem Carries.of_grows {m m' : MachineState} (h : Grows m m') (hup : isPast m.state = false) :
    Carries m m' := by
  refine ⟨h.out, fun p hp => ?_, .of_eq h.pending, fun hpast => absurd hpast (by simp [hup])⟩
  rw [pathQueue_congr h.outPath]
  exact hp

theorem route_carries (m : MachineState) (sid status : Nat) (body : Bytes) (f : Framer) :
    Carries m (m.route sid status body f).1 := by
  unfold route
  split
  · next hup =>
    refine .of_grows (bringup_grows m status body) ?_
    cases hstate : m.state <;> rw [hstate] at hup <;> first | rfl | cases hup
  · split
    · next hp =>
      exact .of_unmoved (respond_unmoved hp status body f) (respond_recorded hp status body f)
    · split
      · exact .of_unmoved (retiredReply_unmoved m sid status body f)
          (retiredReply_recorded m sid status body f)
      · exact .refl m

theorem deliver_carries (m : MachineState) (u : Decoded) : Carries m (deliver m u).1 := by
  cases u with
  | trailer sid data =>
    exact .of_unmoved (onStatusData_unmoved m sid data) (onStatusData_recorded m sid data)
  | frame h body =>
    simp only [deliver, dispatch]
    split
    · split
      · exact .refl m
      · exact .of_unmoved (emit_unmoved m _) (emit_recorded m _)
      · exact route_carries m _ _ _ _
    · exact route_carries m _ _ _ _

/-! ## Requests -/

theorem framePartsFor_unmoved (m : MachineState) (request : Request) (sid : Nat) :
    Unmoved m (m.framePartsFor request sid).2 := by
  unfold framePartsFor
  split
  · exact frame_unmoved m request sid
  · exact .refl m

theorem pathQueue_queuePath (m : MachineState) (pathid : Nat) (parts : List Bytes) (p : Nat) :
    (m.queuePath pathid parts).pathQueue p =
      m.pathQueue p ++ (if p = pathid then parts else []) := by
  unfold queuePath pathQueue
  rw [Assoc.get_set]
  by_cases h : p = pathid <;> simp [h]

/-- What `submit` queues of a request: its frame on the control link, or with its data on
its path. -/
structure Submits (m : MachineState) (request : Request) (arrive : Bool) (sid : Nat)
    (parts : List Bytes) (m' : MachineState) : Prop where
  framed : ∃ m₁ : MachineState, m₁.signer = m.signer ∧ (m₁.frame request sid).1 = .ok parts ∧
    m'.signer = (m₁.frame request sid).2.signer
  out : m'.out = m.out ++ (if arrive = true ∧ request.pathid ≠ 0 then [] else parts)
  path : ∀ p, m'.pathQueue p = m.pathQueue p ++ (if p = request.pathid then
    (if arrive = true ∧ request.pathid ≠ 0 then parts else []) ++
      (if request.pathData = [] then [] else [request.pathData]) else [])
  pending : ∃ q : Pending, q.parts = parts ∧ q.pathid = request.pathid ∧
    q.pathBytes = request.pathData ∧ m'.pending = m.pending.set sid q
  state : m'.state = m.state

theorem send_ok {m m' : MachineState} {request : Request} {path : Text} {arrive : Bool}
    {sid : Nat} (h : m.send request sid path arrive = (m', none)) :
    ∃ parts, Submits m request arrive sid parts m' := by
  have hframe := m.frame_unmoved request sid
  have hstreams := m.frame_streams request sid
  unfold send at h
  rcases hf : m.frame request sid with ⟨e | parts, m₁⟩
  · rw [hf] at h
    cases h
  rw [hf] at hframe hstreams h
  dsimp only at hframe hstreams h
  have hsigner : m₁.signer = (m.frame request sid).2.signer := by rw [hf]
  have hframed : (m.frame request sid).1 = .ok parts := by rw [hf]
  have hqueue : ∀ p, m₁.pathQueue p = m.pathQueue p := fun p => pathQueue_congr hframe.outPath p
  let record : Pending := {
    request := request, parts := parts, path := path, pathid := request.pathid
    pathBytes := request.pathData, cap := request.replyCap }
  by_cases harrive : arrive = true ∧ request.pathid ≠ 0
  · rw [if_pos harrive] at h
    obtain ⟨rfl, -⟩ := Prod.mk.inj h
    refine ⟨parts, ⟨m, rfl, hframed, hsigner⟩, ?_, fun p => ?_, ⟨record, rfl, rfl, rfl, ?_⟩,
      hframe.state⟩
    · simp [queuePath, hframe.out, harrive]
    · rw [pathQueue_queuePath, if_pos harrive]
      congr 1
      exact hqueue p
    · simp only [queuePath, hstreams.pending, record]
  · rw [if_neg harrive] at h
    by_cases hdata : request.pathData = []
    · rw [if_pos hdata] at h
      obtain ⟨rfl, -⟩ := Prod.mk.inj h
      refine ⟨parts, ⟨m, rfl, hframed, hsigner⟩, ?_, fun p => ?_, ⟨record, rfl, rfl, rfl, ?_⟩,
        hframe.state⟩
      · simp only [queue, hframe.out, if_neg harrive]
      · simp only [hdata, if_neg harrive, if_true, List.append_nil, ite_self]
        exact hqueue p
      · simp only [queue, hstreams.pending, record]
    · rw [if_neg hdata] at h
      obtain ⟨rfl, -⟩ := Prod.mk.inj h
      refine ⟨parts, ⟨m, rfl, hframed, hsigner⟩, ?_, fun p => ?_, ⟨record, rfl, rfl, rfl, ?_⟩,
        hframe.state⟩
      · simp only [queue, queuePath, hframe.out, if_neg harrive]
      · rw [pathQueue_queuePath, if_neg harrive, List.nil_append]
        congr 1
        exact hqueue p
      · simp only [queue, queuePath, hstreams.pending, record]

theorem submit_ok {m m' : MachineState} {request : Request} {path : Text} {arrive : Bool}
    {sid : Nat} (h : m.submit request path arrive = (.ok sid, m')) :
    ∃ parts, Submits m request arrive sid parts m' := by
  have hmoved := m.acquireSid_unmoved
  have hkept := m.acquireSid_recorded
  have hpending := m.acquireSid_pending
  unfold submit at h
  split at h
  · cases h
  · rcases hacq : m.acquireSid with ⟨e | sid', m₁⟩
    · rw [hacq] at h
      cases h
    · rw [hacq] at hmoved hkept hpending h
      dsimp only at h hmoved hkept hpending
      rcases hsend : m₁.send request sid' path arrive with ⟨m₂, _ | e⟩
      · rw [hsend] at h
        cases h
        obtain ⟨parts, ⟨m₃, hsigner, hframed, hsigned⟩, hout, hpath, ⟨q, h₁, h₂, h₃, hset⟩, hstate⟩ :=
          send_ok hsend
        refine ⟨parts, ⟨m₃, hsigner.trans hkept.signer, hframed, hsigned⟩, ?_, fun p => ?_,
          ⟨q, h₁, h₂, h₃, ?_⟩, hstate.trans hmoved.state⟩
        · rw [hout, hmoved.out]
        · rw [hpath, pathQueue_congr hmoved.outPath]
        · rw [hset, hpending]
      · rw [hsend] at h
        cases h

/-- A request that is refused leaves nothing behind, but for the number of a signature
that was made. -/
theorem submit_error {m m' : MachineState} {request : Request} {path : Text} {arrive : Bool}
    {e : Raised} (h : m.submit request path arrive = (.error e, m')) :
    Unmoved m m' ∧ m'.pending = m.pending ∧ (m'.signer = m.signer ∨
      ∃ (m₁ : MachineState) (sid : Nat), m₁.signer = m.signer ∧
        m'.signer = (m₁.frame request sid).2.signer) := by
  unfold submit at h
  split at h
  · cases h
    exact ⟨.refl m, rfl, .inl rfl⟩
  · have hmoved := m.acquireSid_unmoved
    have hkept := m.acquireSid_recorded
    have hpending := m.acquireSid_pending
    rcases hacq : m.acquireSid with ⟨e' | sid, m₁⟩
    · rw [hacq] at hmoved hkept hpending h
      cases h
      exact ⟨hmoved, hpending, .inl hkept.signer⟩
    · rw [hacq] at hmoved hkept hpending h
      have hframe := m₁.frame_unmoved request sid
      have hstreams := m₁.frame_streams request sid
      dsimp only at h
      unfold send at h
      rcases hf : m₁.frame request sid with ⟨e' | parts, m₂⟩
      · rw [hf] at hframe hstreams h
        cases h
        exact ⟨hmoved.trans hframe, hstreams.pending.trans hpending,
          .inr ⟨m₁, sid, hkept.signer, by rw [hf]⟩⟩
      · rw [hf] at h
        dsimp only at h
        split_ifs at h <;> cases h

/-- What `resume` queues: what the request left with, on the control link. -/
structure Resumes (m : MachineState) (p : Pending) (m' : MachineState) : Prop where
  out : m'.out = m.out ++ p.parts
  path : ∀ pathid, m'.pathQueue pathid = m.pathQueue pathid ++
    (if pathid = p.pathid then if p.pathBytes = [] then [] else [p.pathBytes] else [])
  pending : m'.pending = m.pending
  state : m'.state = m.state
  signer : m'.signer = m.signer

theorem resume_cases {m m' : MachineState} {sid : Nat} {raised : Option Raised}
    (h : m.resume sid = (m', raised)) :
    (raised ≠ none ∧ m' = m ∧ m.pending.get sid = none) ∨
      (raised = none ∧ ∃ p, m.pending.get sid = some p ∧ Resumes m p m') := by
  unfold resume at h
  split at h
  · next hnone =>
    cases h
    exact .inl ⟨Option.some_ne_none _, rfl, hnone⟩
  · next p hp =>
    split at h
    · next hdata =>
      cases h
      exact .inr ⟨rfl, p, hp, rfl, fun pathid => by simp [queue, pathQueue, hdata], rfl, rfl, rfl⟩
    · next hdata =>
      cases h
      refine .inr ⟨rfl, p, hp, rfl, fun pathid => ?_, rfl, rfl, rfl⟩
      rw [pathQueue_queuePath, if_neg hdata]
      rfl

end MachineState

namespace SessionMachine

open MachineState

theorem forgetPath_carries (m : SessionMachine) (pathid : Nat) :
    Carries m.core (m.forgetPath pathid).core := by
  have hreleased := Carries.of_unmoved
    (foldl_unmoved release_unmoved (streamsOn m.core pathid) m.core)
    (Recorded.foldl release_recorded (streamsOn m.core pathid) m.core)
  refine hreleased.trans ⟨List.prefix_refl _, fun p hp => ?_, .of_eq rfl, fun h => ⟨h, rfl, rfl⟩⟩
  simp only [pathQueue, forgetPath, Assoc.get_del] at hp ⊢
  split
  · rfl
  · exact hp

/-- The streams of a path are gone with it. -/
theorem forgetPath_gone (m : SessionMachine) (pathid : Nat) {sid : Nat} {p : Pending}
    (h : (m.forgetPath pathid).core.pending.get sid = some p) : p.pathid ≠ pathid := by
  have hgone : ∀ (sids : List Nat) (core : MachineState), sid ∈ sids →
      (sids.foldl MachineState.release core).pending.get sid = none := by
    intro sids
    induction sids with
    | nil => intro core hmem; cases hmem
    | cons s sids ih =>
      intro core hmem
      rw [List.foldl_cons]
      rcases List.mem_cons.mp hmem with rfl | hmem
      · have hnone : (core.release sid).pending.get sid = none := by
          cases hget : (core.release sid).pending.get sid with
          | none => rfl
          | some p' =>
            obtain ⟨hold, hne⟩ := release_get hget
            exact absurd rfl (hne (Assoc.has_eq_true.mpr ⟨p', hold⟩))
        cases hget : (sids.foldl MachineState.release (core.release sid)).pending.get sid with
        | none => rfl
        | some p' =>
          obtain ⟨_, hold, _⟩ :=
            (Recorded.foldl release_recorded sids (core.release sid)).records sid p' hget
          rw [hnone] at hold
          cases hold
      · exact ih _ hmem
  have hrecords := (Recorded.foldl release_recorded (streamsOn m.core pathid) m.core).records
  obtain ⟨q, hq, hsame⟩ := hrecords sid p h
  intro hpathid
  have hmem : sid ∈ streamsOn m.core pathid := by
    refine List.mem_map.mpr ⟨(sid, q), List.mem_filter.mpr ⟨Assoc.mem_of_get hq, ?_⟩, rfl⟩
    simpa [hsame.pathid] using hpathid
  cases (hgone _ m.core hmem).symm.trans h

theorem receiveData_carries (m : SessionMachine) (data : Bytes) (pathid : Nat) :
    Carries m.core (m.receiveData data pathid).1.core := by
  unfold receiveData receiveLog
  by_cases hdata : data = []
  · rw [if_pos hdata]
    by_cases hpath : pathid = 0
    · simp only [hpath, if_true, onEof]
      split
      · exact .refl _
      · refine ⟨List.prefix_refl _, fun _ hp => hp, .of_get fun sid p hp => ?_, fun _ => ⟨rfl, rfl, rfl⟩⟩
        cases hp
    · simp only [if_neg hpath, onPathEof]
      refine Carries.trans ?_ (.of_unmoved (emit_unmoved _ _) (emit_recorded _ _))
      refine Carries.trans ?_ (forgetPath_carries _ pathid)
      exact ⟨List.prefix_refl _, fun _ hp => hp, .of_eq rfl, fun h => ⟨h, rfl, rfl⟩⟩
  · rw [if_neg hdata]
    exact decode_invariant (I := fun core => Carries m.core core)
      (fun core u h => h.trans (deliver_carries core u)) (m.framer pathid) data (.refl _)

/-- The calls that no section of a sender makes. -/
def isAside : Op → Bool
  | .start | .release _ | .abandon _ | .tlsEstablished | .leaseSids _ | .releaseSids _
  | .retireSids _ _ | .receiveData _ _ | .nextEvent | .drain => true
  | _ => false

theorem step_carries (m : SessionMachine) {op : Op} (h : isAside op = true) :
    Carries m.core (m.step op).1.core := by
  cases op with
  | start =>
    by_cases hnew : m.core.state = .new
    · exact .of_grows (start_grows m.core) (by rw [hnew]; rfl)
    · have hrefused : m.core.start.1 = m.core := by
        unfold MachineState.start
        rw [if_pos hnew]
      simp only [step, onCore, hrefused]
      exact .refl _
  | release sid => exact .of_unmoved (release_unmoved _ sid) (release_recorded _ sid)
  | abandon sid => exact .of_unmoved (abandon_unmoved _ sid) (abandon_recorded _ sid)
  | tlsEstablished =>
    by_cases htls : m.core.state = .tls
    · exact .of_grows (tlsEstablished_grows m.core) (by rw [htls]; rfl)
    · have hrefused : m.core.tlsEstablished.1 = m.core := by
        unfold MachineState.tlsEstablished
        rw [if_pos htls]
      simp only [step, onCore, hrefused]
      exact .refl _
  | leaseSids count =>
    simp only [step, onCore, leaseSids]
    split
    · exact .refl _
    · exact .of_unmoved (leaseLoop_unmoved count _ []) (leaseLoop_recorded count _ [])
  | releaseSids sids =>
    exact .of_unmoved (foldl_unmoved (giveBack_unmoved _) sids _)
      (Recorded.foldl (giveBack_recorded _) sids _)
  | retireSids sids owed =>
    exact .of_unmoved (foldl_unmoved (giveBack_unmoved _) sids _)
      (Recorded.foldl (giveBack_recorded _) sids _)
  | receiveData pathid data => exact receiveData_carries m data pathid
  | nextEvent => exact ⟨List.prefix_refl _, fun _ hp => hp, .of_eq rfl, fun h => ⟨h, rfl, rfl⟩⟩
  | drain => exact ⟨List.prefix_refl _, fun _ hp => hp, .of_eq rfl, fun h => ⟨h, rfl, rfl⟩⟩
  | submit | resume | close | framePartsFor | forgetPath | buffersToSend | pathBuffersToSend =>
    cases h

end SessionMachine

end XrdClient.Proto
