/-
  Proto/TlsPolicy.lean --- nothing in the clear when TLS is required.

  Bring-up replies are matched by state and not by stream, so a server can put
  any reply in any state.  `Guarded` is what survives all of them: a machine that
  can queue anything has TLS, or has been told by the server that it needs none.

  Handlers of replies to requests touch none of the fields `Guarded` reads
  (`Unmoved`); the handlers of bring-up do, and are taken one by one.
-/
import XrdClient.Proto.Run

set_option autoImplicit false

namespace XrdClient.Proto

open XrdClient.Lib
open XrdClient.Auth

namespace MachineState

/-! ## The policy -/

/-- The client wants TLS, or the server's reply demands it. -/
def required (m : MachineState) : Bool := m.wantTls || demandsTls m.protocolInfo.flags

/-- Before the server's flags are known. -/
def isEarly : State → Bool
  | .new | .handshake | .protocol => true
  | _ => false

/-- The states in which the machine sends credentials or requests. -/
def isLive : State → Bool
  | .login | .auth | .bind | .ready => true
  | _ => false

/-- The socket is encrypted, or it is known that it need not be. -/
def Allowed (m : MachineState) : Prop :=
  m.tlsActive = true ∨ (isEarly m.state = false ∧ m.required = false)

/-- A bearer token may be sent. -/
def TokenAllowed (m : MachineState) : Prop := m.tlsActive = true ∨ m.config.ztnCleartext = true

/-- The invariant of a connection. -/
structure Guarded (m : MachineState) : Prop where
  live : isLive m.state = true → m.Allowed
  pending : m.pending ≠ [] → m.Allowed
  tls_offered : m.tlsActive = true ∨ m.state = .tls → haveTls m.protocolInfo.flags = true
  tls_late : m.tlsActive = true → isEarly m.state = false
  credential : ∀ c, m.credential = some c → c.name = ztn → m.TokenAllowed
  ladder : ∀ l, m.credentials = some l → l.offers.has ztn = true → m.TokenAllowed

/-- Nothing was queued: each queue is as it was, or was emptied by its driver. -/
structure NothingQueued (m m' : MachineState) : Prop where
  out : m'.out = m.out ∨ m'.out = []
  path : ∀ pathid, m'.outPath.get pathid = m.outPath.get pathid ∨ m'.outPath.get pathid = none

theorem NothingQueued.of_eq {m m' : MachineState} (ho : m'.out = m.out)
    (hp : m'.outPath = m.outPath) : NothingQueued m m' :=
  ⟨.inl ho, fun _ => .inl (by rw [hp])⟩

theorem NothingQueued.trans {m m' m'' : MachineState} (h : NothingQueued m m')
    (h' : NothingQueued m' m'') : NothingQueued m m'' := by
  constructor
  · obtain ho | ho := h'.out
    · rw [ho]
      exact h.out
    · exact .inr ho
  · intro pathid
    obtain hp | hp := h'.path pathid
    · rw [hp]
      exact h.path pathid
    · exact .inr hp

/-- What a call may do: keep the invariant, what is allowed and, once it is known,
what is required; and queue something only if it is allowed. -/
structure Keeps (m m' : MachineState) : Prop where
  guarded : m'.Guarded
  allowed : m.Allowed → m'.Allowed
  quiet : m'.Allowed ∨ NothingQueued m m'
  tls : m'.tlsActive = m.tlsActive
  settled : isEarly m.state = false → isEarly m'.state = false ∧ m'.required = m.required

theorem Keeps.refl {m : MachineState} (h : m.Guarded) : Keeps m m :=
  ⟨h, id, .inr (.of_eq rfl rfl), rfl, fun he => ⟨he, rfl⟩⟩

theorem Keeps.trans {m m' m'' : MachineState} (h : Keeps m m') (h' : Keeps m' m'') :
    Keeps m m'' := by
  refine ⟨h'.guarded, fun ha => h'.allowed (h.allowed ha), ?_, h'.tls.trans h.tls,
    fun he => ⟨(h'.settled (h.settled he).1).1,
      (h'.settled (h.settled he).1).2.trans (h.settled he).2⟩⟩
  obtain ha | hq := h'.quiet
  · exact .inl ha
  · obtain ha' | hq' := h.quiet
    · exact .inl (h'.allowed ha')
    · exact .inr (hq'.trans hq)

/-- An early machine has queued nothing and has nothing in flight. -/
theorem Guarded.not_allowed_of_early {m : MachineState} (h : m.Guarded)
    (he : isEarly m.state = true) : ¬ m.Allowed := by
  rintro (ht | ⟨hl, _⟩)
  · simp [h.tls_late ht] at he
  · simp [hl] at he

/-! ## Handlers that do not move the connection -/

/-- Same phase, same credentials, same queues, and nothing new in flight. -/
structure Unmoved (m m' : MachineState) : Prop where
  state : m'.state = m.state
  wantTls : m'.wantTls = m.wantTls
  protocolInfo : m'.protocolInfo = m.protocolInfo
  tlsActive : m'.tlsActive = m.tlsActive
  config : m'.config = m.config
  credential : m'.credential = m.credential
  credentials : m'.credentials = m.credentials
  out : m'.out = m.out
  outPath : m'.outPath = m.outPath
  pending : m.pending = [] → m'.pending = []

theorem Unmoved.refl (m : MachineState) : Unmoved m m :=
  ⟨rfl, rfl, rfl, rfl, rfl, rfl, rfl, rfl, rfl, id⟩

theorem Unmoved.trans {m m' m'' : MachineState} (h : Unmoved m m') (h' : Unmoved m' m'') :
    Unmoved m m'' :=
  ⟨h'.state.trans h.state, h'.wantTls.trans h.wantTls, h'.protocolInfo.trans h.protocolInfo,
    h'.tlsActive.trans h.tlsActive, h'.config.trans h.config, h'.credential.trans h.credential,
    h'.credentials.trans h.credentials, h'.out.trans h.out, h'.outPath.trans h.outPath,
    fun hp => h'.pending (h.pending hp)⟩

theorem Unmoved.allowed {m m' : MachineState} (h : Unmoved m m') : m'.Allowed ↔ m.Allowed := by
  simp only [Allowed, required, h.state, h.wantTls, h.protocolInfo, h.tlsActive]

theorem Unmoved.tokenAllowed {m m' : MachineState} (h : Unmoved m m') :
    m'.TokenAllowed ↔ m.TokenAllowed := by
  simp only [TokenAllowed, h.tlsActive, h.config]

theorem Unmoved.keeps {m m' : MachineState} (h : Unmoved m m') (hg : m.Guarded) : Keeps m m' := by
  refine ⟨⟨?_, ?_, ?_, ?_, ?_, ?_⟩, h.allowed.mpr, .inr (.of_eq h.out h.outPath),
    h.tlsActive, fun he => ⟨h.state ▸ he, by simp only [required, h.wantTls, h.protocolInfo]⟩⟩
  · rw [h.state, h.allowed]
    exact hg.live
  · rw [h.allowed]
    exact fun hp => hg.pending fun hnil => hp (h.pending hnil)
  · rw [h.tlsActive, h.state, h.protocolInfo]
    exact hg.tls_offered
  · rw [h.tlsActive, h.state]
    exact hg.tls_late
  · rw [h.credential, h.tokenAllowed]
    exact hg.credential
  · rw [h.credentials, h.tokenAllowed]
    exact hg.ladder

theorem emit_unmoved (m : MachineState) (e : Event) : Unmoved m (m.emit e) :=
  ⟨rfl, rfl, rfl, rfl, rfl, rfl, rfl, rfl, rfl, id⟩

theorem release_unmoved (m : MachineState) (sid : Nat) : Unmoved m (m.release sid) := by
  unfold release
  split
  · exact ⟨rfl, rfl, rfl, rfl, rfl, rfl, rfl, rfl, rfl, fun h => by simp [h, Assoc.del]⟩
  · exact .refl m

theorem abandon_unmoved (m : MachineState) (sid : Nat) : Unmoved m (m.abandon sid) := by
  unfold abandon
  split
  · exact ⟨rfl, rfl, rfl, rfl, rfl, rfl, rfl, rfl, rfl, fun h => by simp [h, Assoc.del]⟩
  · exact .refl m

theorem giveBack_unmoved (owed : Nat → Bool) (m : MachineState) (sid : Nat) :
    Unmoved m (giveBack owed m sid) := by
  unfold giveBack
  simp only
  split <;> exact ⟨rfl, rfl, rfl, rfl, rfl, rfl, rfl, rfl, rfl, id⟩

/-- A fold of calls none of which moves the connection. -/
theorem foldl_unmoved {f : MachineState → Nat → MachineState}
    (hf : ∀ m sid, Unmoved m (f m sid)) :
    ∀ (sids : List Nat) (m : MachineState), Unmoved m (sids.foldl f m) := by
  intro sids
  induction sids with
  | nil => intro m; exact .refl m
  | cons sid sids ih => intro m; exact (hf m sid).trans (ih _)

theorem acquireSid_unmoved (m : MachineState) : Unmoved m m.acquireSid.2 := by
  unfold acquireSid
  split
  · exact ⟨rfl, rfl, rfl, rfl, rfl, rfl, rfl, rfl, rfl, id⟩
  · simp only
    split <;> exact ⟨rfl, rfl, rfl, rfl, rfl, rfl, rfl, rfl, rfl, id⟩

theorem leaseLoop_unmoved : ∀ (count : Nat) (m : MachineState) (leased : List Nat),
    Unmoved m (leaseLoop count m leased).2 := by
  intro count
  induction count with
  | zero => intro m leased; exact .refl m
  | succ count ih =>
    intro m leased
    have hacq := acquireSid_unmoved m
    unfold leaseLoop
    split
    · rename_i heq
      rw [heq] at hacq
      exact hacq
    · rename_i sid m' heq
      rw [heq] at hacq
      have hlease : Unmoved m' { m' with leased := m'.leased ++ [sid] } :=
        ⟨rfl, rfl, rfl, rfl, rfl, rfl, rfl, rfl, rfl, id⟩
      exact (hacq.trans hlease).trans (ih _ _)

theorem frame_unmoved (m : MachineState) (request : Request) (sid : Nat) :
    Unmoved m (m.frame request sid).2 := by
  unfold frame
  split
  · exact .refl m
  · split
    · exact .refl m
    · split
      · exact ⟨rfl, rfl, rfl, rfl, rfl, rfl, rfl, rfl, rfl, id⟩
      · split <;> exact ⟨rfl, rfl, rfl, rfl, rfl, rfl, rfl, rfl, rfl, id⟩

/-- Replacing the record of a stream that is in flight. -/
theorem setPending_unmoved {m : MachineState} {sid : Nat} {p : Pending}
    (h : m.pending.get sid = some p) (p' : Pending) :
    Unmoved m { m with pending := m.pending.set sid p' } :=
  ⟨rfl, rfl, rfl, rfl, rfl, rfl, rfl, rfl, rfl, fun hnil => by simp [hnil] at h⟩

theorem withinCap_unmoved (m : MachineState) (sid : Nat) (p : Pending) (extra : Nat) :
    Unmoved m (m.withinCap sid p extra).2 := by
  unfold withinCap
  split
  · exact .refl m
  · exact (release_unmoved m sid).trans (emit_unmoved _ _)

/-- Within the cap, the machine is as it was. -/
theorem withinCap_true {m m' : MachineState} {sid extra : Nat} {p : Pending}
    (h : m.withinCap sid p extra = (true, m')) : m' = m := by
  unfold withinCap at h
  split at h
  · exact (Prod.mk.inj h).2.symm
  · cases (Prod.mk.inj h).1

theorem responseChunk_unmoved {m : MachineState} {sid : Nat} {p : Pending}
    (h : m.pending.get sid = some p) (body : Bytes) : Unmoved m (m.responseChunk sid body p) := by
  have hcap := withinCap_unmoved m sid p body.length
  unfold responseChunk
  split
  · rename_i heq
    rw [heq] at hcap
    exact hcap
  · rename_i heq
    rw [withinCap_true heq]
    exact (setPending_unmoved h _).trans (emit_unmoved _ _)

theorem responseOk_unmoved (m : MachineState) (sid : Nat) (body : Bytes) (p : Pending) :
    Unmoved m (m.responseOk sid body p) := by
  have hcap := withinCap_unmoved m sid p body.length
  unfold responseOk
  split
  · rename_i heq
    rw [heq] at hcap
    exact hcap
  · rename_i heq
    rw [withinCap_true heq]
    exact (release_unmoved m sid).trans (emit_unmoved _ _)

theorem onStatusData_unmoved (m : MachineState) (sid : Nat) (data : Bytes) :
    Unmoved m (m.onStatusData sid data) := by
  unfold onStatusData
  split
  · exact .refl m
  · rename_i p hp
    split
    · exact .refl m
    · have hcap := withinCap_unmoved m sid p data.length
      split
      · rename_i heq
        rw [heq] at hcap
        exact hcap
      · rename_i heq
        rw [withinCap_true heq]
        split
        · exact (release_unmoved m sid).trans (emit_unmoved _ _)
        · exact (setPending_unmoved hp _).trans (emit_unmoved _ _)

theorem respond_unmoved {m : MachineState} {sid : Nat} {p : Pending}
    (h : m.pending.get sid = some p) (status : Nat) (body : Bytes) (f : Framer) :
    Unmoved m (m.respond sid status body p f).1 := by
  unfold respond
  split_ifs
  · exact responseOk_unmoved m sid body p
  · exact responseChunk_unmoved h body
  · unfold responseError
    split
    · exact .refl m
    · exact (release_unmoved m sid).trans (emit_unmoved _ _)
  · unfold responseRedirect
    split
    · exact .refl m
    · exact emit_unmoved _ _
  · unfold responseWait
    split
    · exact .refl m
    · exact emit_unmoved _ _
  · unfold responseWaitresp
    split
    · exact .refl m
    · exact emit_unmoved _ _
  · unfold responseStatus
    split
    · exact .refl m
    · rename_i info hinfo
      have hset := setPending_unmoved h { p with status := some info }
      simp only
      split
      · exact hset
      · exact hset.trans (onStatusData_unmoved _ _ _)
  · exact (release_unmoved m sid).trans (emit_unmoved _ _)

theorem retiredReply_unmoved (m : MachineState) (sid status : Nat) (body : Bytes) (f : Framer) :
    Unmoved m (m.retiredReply sid status body f).1 := by
  have hfreed : Unmoved m
      { m with retired := m.retired.filter (· ≠ sid), free := m.free ++ [sid] } :=
    ⟨rfl, rfl, rfl, rfl, rfl, rfl, rfl, rfl, rfl, id⟩
  unfold retiredReply
  simp only
  split
  · split
    · exact .refl m
    · simp only
      split
      · exact hfreed
      · exact .refl m
  · split
    · exact hfreed
    · exact .refl m

/-! ## Handlers of bring-up -/

/-- Moving on to a state in which the server's flags are known takes nothing
away. -/
theorem Allowed.move {m : MachineState} (h : m.Allowed) {state : State}
    (hs : isEarly state = false) : { m with state := state }.Allowed :=
  h.imp id fun hr => ⟨hs, hr.2⟩

theorem Guarded.move {m : MachineState} (h : m.Guarded) (state : State)
    (hs : isEarly state = false) (ht : state ≠ .tls)
    (hl : isLive state = true → { m with state := state }.Allowed) :
    { m with state := state }.Guarded :=
  ⟨hl, fun hp => (h.pending hp).move hs, fun ho => h.tls_offered (.inl (ho.resolve_right ht)),
    fun _ => hs, h.credential, h.ladder⟩

theorem fail_keeps {m : MachineState} (h : m.Guarded) (e : SessionError) : Keeps m (m.fail e) := by
  have hmove : { m with state := .failed }.Guarded := h.move .failed rfl (by simp) (by simp [isLive])
  refine Keeps.trans ⟨hmove, fun ha => ha.move rfl, .inr (.of_eq rfl rfl), rfl, fun _ => ⟨rfl, rfl⟩⟩ ?_
  exact (emit_unmoved _ _).keeps hmove

theorem queue_keeps {m : MachineState} (h : m.Guarded) (ha : m.Allowed) (parts : List Bytes) :
    Keeps m (m.queue parts) :=
  ⟨⟨h.live, h.pending, h.tls_offered, h.tls_late, h.credential, h.ladder⟩, id, .inl ha, rfl, fun he => ⟨he, rfl⟩⟩

theorem queueEncoded_keeps {m : MachineState} (h : m.Guarded) (ha : m.Allowed)
    (request : Request) (sid : Nat) : Keeps m (m.queueEncoded request sid).1 := by
  unfold queueEncoded
  split
  · exact .refl h
  · exact queue_keeps h ha _

theorem becomeReady_keeps {m : MachineState} (h : m.Guarded) (ha : m.Allowed) :
    Keeps m m.becomeReady := by
  have hallowed : { m with state := .ready }.Allowed := ha.move rfl
  have hmove : { m with state := .ready }.Guarded := h.move .ready rfl (by simp) fun _ => hallowed
  exact ⟨⟨hmove.live, hmove.pending, hmove.tls_offered, hmove.tls_late, hmove.credential,
    hmove.ladder⟩, fun _ => hallowed, .inl hallowed, rfl, fun _ => ⟨rfl, rfl⟩⟩

/-- Logging in, once the socket is encrypted or need not be. -/
theorem beginLogin_keeps {m : MachineState} (h : m.Guarded)
    (ha : m.tlsActive = true ∨ m.required = false) : Keeps m m.beginLogin.1 := by
  have hmove : ∀ state, isEarly state = false → state ≠ .tls →
      Keeps m { m with state := state } ∧ { m with state := state }.Allowed := by
    intro state hs ht
    have hallowed : { m with state := state }.Allowed := ha.imp id fun hr => ⟨hs, hr⟩
    exact ⟨⟨h.move _ hs ht fun _ => hallowed, fun _ => hallowed, .inl hallowed, rfl, fun _ => ⟨hs, rfl⟩⟩, hallowed⟩
  unfold beginLogin
  split
  · obtain ⟨hk, hal⟩ := hmove .bind rfl (by simp)
    exact hk.trans (queueEncoded_keeps hk.guarded hal _ _)
  · obtain ⟨hk, hal⟩ := hmove .login rfl (by simp)
    exact hk.trans (queueEncoded_keeps hk.guarded hal _ _)

/-- `tls_established` does nothing, or leaves a machine that is allowed to send. -/
theorem tlsEstablished_keeps {m : MachineState} (h : m.Guarded) :
    m.tlsEstablished.1 = m ∨
      (m.tlsEstablished.1.Guarded ∧ m.tlsEstablished.1.tlsActive = true ∧
        isEarly m.tlsEstablished.1.state = false ∧ m.tlsEstablished.1.required = m.required) := by
  unfold tlsEstablished
  split
  · exact .inl rfl
  · rename_i hstate
    have hs : m.state = .tls := by simpa using hstate
    have hg : { m with tlsActive := true }.Guarded :=
      ⟨fun _ => .inl rfl, fun _ => .inl rfl, fun _ => h.tls_offered (.inr hs),
        fun _ => by simp [hs, isEarly], fun _ _ _ => .inl rfl, fun _ _ _ => .inl rfl⟩
    have hk := beginLogin_keeps hg (.inl rfl)
    exact .inr ⟨hk.guarded, hk.tls, hk.settled (by simp [hs, isEarly])⟩

theorem afterProtocol_keeps {m : MachineState} (h : m.Guarded) (hearly : isEarly m.state = true) :
    Keeps m m.afterProtocol.1 := by
  have hnot := h.not_allowed_of_early hearly
  unfold afterProtocol
  simp only
  split
  · split
    · exact fail_keeps h _
    · rename_i hhave
      have hg : { m with state := .tls }.Guarded :=
        ⟨by simp [isLive], fun hp => absurd (h.pending hp) hnot, fun _ => by simpa using hhave,
          fun ht => absurd (.inl ht) hnot, h.credential, h.ladder⟩
      have hk : Keeps m { m with state := .tls } :=
        ⟨hg, fun ha => absurd ha hnot, .inr (.of_eq rfl rfl), rfl,
          fun hl => absurd hl (by simp [hearly])⟩
      exact hk.trans ((emit_unmoved _ _).keeps hg)
  · rename_i hreq
    apply beginLogin_keeps h
    right
    simp only [not_or, Bool.not_eq_true] at hreq
    simp [required, hreq.1, hreq.2]

/-- The ladder, from a machine that may send credentials.  `hz` is what a rung for
a bearer token needs. -/
theorem climb_keeps : ∀ (fuel : Nat) (m : MachineState) (l : Ladder), m.Guarded → m.Allowed →
    (l.offers.has ztn = true → m.TokenAllowed) → Keeps m (climb fuel m l).1 := by
  intro fuel
  induction fuel with
  | zero =>
    intro m l h _ _
    unfold climb ladderSpent
    split <;> exact fail_keeps h _
  | succ fuel ih =>
    intro m l h ha hz
    -- Stepping along the ladder changes what the machine knows of it and no more.
    have hladder : ∀ (l' : Ladder) (why : Assoc Text Why), l'.offers = l.offers →
        Keeps m { m with credentials := some l', authRejected := why } ∧
          { m with credentials := some l', authRejected := why }.Allowed := by
      intro l' why hoffers
      have hg : { m with credentials := some l', authRejected := why }.Guarded := by
        refine ⟨h.live, h.pending, h.tls_offered, h.tls_late, h.credential, ?_⟩
        intro l'' hl'' hhas
        obtain rfl := Option.some.inj hl''
        exact hz (hoffers ▸ hhas)
      exact ⟨⟨hg, id, .inl ha, rfl, fun he => ⟨he, rfl⟩⟩, ha⟩
    have hoffers := Ladder.next_offers m.env.mechanisms l m.authRejected
    unfold climb
    split
    · rename_i e l' why heq
      rw [heq] at hoffers
      exact (hladder l' why hoffers).1
    · rename_i l' why heq
      rw [heq] at hoffers
      have hk := (hladder l' why hoffers).1
      unfold ladderSpent
      split <;> exact hk.trans (fail_keeps hk.guarded _)
    · rename_i cred l' why heq
      have hname := Ladder.next_offered heq
      rw [heq] at hoffers
      obtain ⟨hk, hal⟩ := hladder l' why hoffers
      simp only
      split
      · rename_i text _
        have hk' := (hladder l' (why.set cred.name (.raised text)) hoffers)
        exact hk'.1.trans (ih _ l' hk'.1.guarded hk'.2 (fun hhas => hz (hoffers ▸ hhas)))
      · have hg : { m with
            credentials := some l', authRejected := why, credential := some cred
            mechanism := cred.name }.Guarded := by
          refine ⟨h.live, h.pending, h.tls_offered, h.tls_late, ?_, hk.guarded.ladder⟩
          intro c hc hztn
          obtain rfl := Option.some.inj hc
          exact hz (hztn ▸ hname)
        have hk' : Keeps m { m with
            credentials := some l', authRejected := why, credential := some cred
            mechanism := cred.name } := ⟨hg, id, .inl ha, rfl, fun he => ⟨he, rfl⟩⟩
        split
        · exact hk'
        · exact hk'.trans (queueEncoded_keeps hg ha _ _)

theorem nextCredential_keeps {m : MachineState} (h : m.Guarded) (ha : m.Allowed) (sec : Text) :
    Keeps m (m.nextCredential sec).1 := by
  unfold nextCredential
  split
  · rename_i l hl
    exact climb_keeps _ m l h ha (h.ladder l hl)
  · -- A new ladder has no rung for the token, unless the token may be sent.
    have hz : (select sec m.config m.authRejected (some m.tlsActive)).1.offers.has ztn = true →
        m.TokenAllowed := by
      intro hhas
      cases ht : m.tlsActive with
      | true => exact .inl ht
      | false =>
        cases hc : m.config.ztnCleartext with
        | true => exact .inr hc
        | false =>
          rw [ht, select_withholds sec m.config m.authRejected hc] at hhas
          cases hhas
    simp only
    have hg : { m with
        credentials := some (select sec m.config m.authRejected (some m.tlsActive)).1
        authRejected := (select sec m.config m.authRejected (some m.tlsActive)).2 }.Guarded := by
      refine ⟨h.live, h.pending, h.tls_offered, h.tls_late, h.credential, ?_⟩
      intro l hl hhas
      obtain rfl := Option.some.inj hl
      exact hz hhas
    have hset : Keeps m { m with
        credentials := some (select sec m.config m.authRejected (some m.tlsActive)).1
        authRejected := (select sec m.config m.authRejected (some m.tlsActive)).2 } :=
      ⟨hg, id, .inl ha, rfl, fun he => ⟨he, rfl⟩⟩
    exact hset.trans (climb_keeps _ _ _ hg ha hz)

theorem authRefused_keeps {m : MachineState} (h : m.Guarded) (ha : m.Allowed) (cred : Credential)
    (info : ErrorInfo) : Keeps m (m.authRefused cred info).1 := by
  unfold authRefused
  have hg : { m with
      authRejected := m.authRejected.set cred.name (.refused info.code (strip info.message))
      authRefusal := some (info.code, info.message)
      credential := none }.Guarded :=
    ⟨h.live, h.pending, h.tls_offered, h.tls_late, fun _ hc => (by cases hc), h.ladder⟩
  exact Keeps.trans ⟨hg, id, .inl ha, rfl, fun he => ⟨he, rfl⟩⟩ (nextCredential_keeps hg ha [])

theorem authStep_keeps {m : MachineState} (h : m.Guarded) (ha : m.Allowed) (challenge : Bytes) :
    Keeps m (m.authStep challenge).1 := by
  unfold authStep
  split
  · exact fail_keeps h _
  · rename_i cred hcred
    -- The credential in play keeps its name.
    have hstep : ∀ why : Assoc Text Why, Keeps m { m with
        credential := some { cred with challenges := cred.challenges ++ [challenge] }
        authRejected := why } := by
      intro why
      refine ⟨⟨h.live, h.pending, h.tls_offered, h.tls_late, ?_, h.ladder⟩, id, .inl ha, rfl, fun he => ⟨he, rfl⟩⟩
      intro c hc hztn
      obtain rfl := Option.some.inj hc
      exact h.credential cred hcred hztn
    simp only
    split
    · exact (hstep _).trans (nextCredential_keeps (hstep _).guarded ha [])
    · exact (hstep _).trans (nextCredential_keeps (hstep _).guarded ha [])
    · split
      · exact hstep m.authRejected
      · exact (hstep m.authRejected).trans
          (queueEncoded_keeps (hstep m.authRejected).guarded ha _ _)

theorem bringup_keeps {m : MachineState} (h : m.Guarded) (hs : inBringup m.state = true)
    (status : Nat) (body : Bytes) : Keeps m (m.bringup status body).1 := by
  unfold bringup
  split
  · unfold bringupError
    split
    · exact .refl h
    · split
      · rename_i hstate _
        exact authRefused_keeps h (h.live (by simp [hstate, isLive])) _ _
      · exact fail_keeps h _
  · split
    · exact fail_keeps h _
    · unfold bringupReply
      split
      · -- The handshake: on to the next early state.
        rename_i hstate
        have hearly : isEarly m.state = true := by simp [hstate, isEarly]
        have hnot := h.not_allowed_of_early hearly
        have hg : { m with handshakeVersion := beNat (body.take 4), state := .protocol }.Guarded :=
          ⟨by simp [isLive], fun hp => absurd (h.pending hp) hnot,
            fun ht => h.tls_offered (.inl (ht.resolve_right (by simp))),
            fun ht => absurd (.inl ht) hnot, h.credential, h.ladder⟩
        exact ⟨hg, fun ha => absurd ha hnot, .inr (.of_eq rfl rfl), rfl,
          fun hl => absurd hl (by simp [hearly])⟩
      · -- The flags arrive: nothing has been queued or sent that they could forbid.
        rename_i hstate
        have hearly : isEarly m.state = true := by simp [hstate, isEarly]
        have hnot := h.not_allowed_of_early hearly
        split
        · exact .refl h
        · rename_i info _
          have hg : { m with protocolInfo := info }.Guarded :=
            ⟨by simp [hstate, isLive], fun hp => absurd (h.pending hp) hnot,
              fun ht => ht.elim (fun ha => absurd (.inl ha) hnot) (by simp [hstate]),
              fun ht => absurd (.inl ht) hnot, h.credential, h.ladder⟩
          have hk : Keeps m { m with protocolInfo := info } :=
            ⟨hg, fun ha => absurd ha hnot, .inr (.of_eq rfl rfl), rfl,
          fun hl => absurd hl (by simp [hearly])⟩
          have hk' := hk.trans ((emit_unmoved _ (.negotiated info)).keeps hg)
          exact hk'.trans (afterProtocol_keeps hk'.guarded hearly)
      · rename_i hstate
        have ha := h.live (by simp [hstate, isLive])
        split
        · exact .refl h
        · rename_i pathid _
          have hg : { m with pathid := pathid }.Guarded :=
            ⟨h.live, h.pending, h.tls_offered, h.tls_late, h.credential, h.ladder⟩
          exact Keeps.trans ⟨hg, id, .inl ha, rfl, fun he => ⟨he, rfl⟩⟩ (becomeReady_keeps hg ha)
      · rename_i hstate
        have ha := h.live (by simp [hstate, isLive])
        have hg : { m with sessionId := (parseLogin body).sessid
                           offered := (parseLogin body).mechanisms }.Guarded :=
          ⟨h.live, h.pending, h.tls_offered, h.tls_late, h.credential, h.ladder⟩
        simp only
        split
        · exact Keeps.trans ⟨hg, id, .inl ha, rfl, fun he => ⟨he, rfl⟩⟩ (becomeReady_keeps hg ha)
        · have hal : { m with
              sessionId := (parseLogin body).sessid, offered := (parseLogin body).mechanisms
              state := .auth }.Allowed := ha.move rfl
          have hg' := hg.move .auth rfl (by simp) fun _ => hal
          exact Keeps.trans ⟨hg', fun _ => hal, .inl hal, rfl, fun _ => ⟨rfl, rfl⟩⟩ (nextCredential_keeps hg' hal _)
      · rename_i h1 h2 h3 h4
        have hstate : m.state = .auth := by
          cases hm : m.state <;> simp_all [inBringup]
        have ha := h.live (by simp [hstate, isLive])
        split
        · exact authStep_keeps h ha body
        · exact becomeReady_keeps h ha

theorem dispatch_keeps {m : MachineState} (h : m.Guarded) (sid status : Nat) (body : Bytes)
    (f : Framer) : Keeps m (m.dispatch sid status body f).1 := by
  have hroute : ∀ sid status body, Keeps m (m.route sid status body f).1 := by
    intro sid status body
    unfold route
    split
    · rename_i hs
      exact bringup_keeps h hs status body
    · split
      · rename_i p hp
        exact (respond_unmoved hp status body f).keeps h
      · split
        · exact (retiredReply_unmoved m sid status body f).keeps h
        · exact .refl h
  unfold dispatch
  split
  · split
    · exact .refl h
    · exact (emit_unmoved m _).keeps h
    · exact hroute _ _ _
  · exact hroute _ _ _

end MachineState

open MachineState

/-! ## Reads -/

theorem turn_keeps {c c' : Cursor} {out : List Decoded} (hturn : c.turn = some (out, c'))
    (h : c.machine.Guarded) : Keeps c.machine c'.machine := by
  obtain ⟨_, ⟨_, _, heq⟩ | ⟨_, _, _, _, heq⟩ | ⟨hd, _, _, _, heq⟩⟩ := Cursor.turn_cases hturn
  · unfold Cursor.takeTrailer at heq
    split at heq <;> rw [(Prod.mk.inj heq).2]
    · exact .refl h
    · exact (onStatusData_unmoved _ _ _).keeps h
  · rw [heq]
    unfold Cursor.readHeader
    split <;> exact .refl h
  · simp only [Cursor.takeBody, Prod.mk.injEq] at heq
    rw [heq.2]
    exact dispatch_keeps h _ _ _ _

theorem decode_keeps {m : MachineState} (h : m.Guarded) (f : Framer) (data : Bytes) :
    Keeps m (decode m f data).2.machine := by
  unfold decode
  cases hw : wholeFrame m f data with
  | none =>
    refine decodeLoop.run_invariant (I := fun c => Keeps m c.machine) ?_ (.refl h)
    intro s s' out hturn hs
    exact hs.trans (turn_keeps hturn hs.guarded)
  | some result =>
    obtain ⟨_, _, _, _, ⟨e, _, hresult⟩ | ⟨hd, c, _, _, hturn, hturn', _⟩⟩ := wholeFrame_cases hw
    · rw [hresult]
      exact .refl h
    · have hk := turn_keeps hturn h
      exact hk.trans (turn_keeps hturn' hk.guarded)

/-! ## Calls -/

theorem submit_keeps {m : MachineState} (h : m.Guarded) (request : Request) (path : Text)
    (arriveOnPath : Bool) : Keeps m (m.submit request path arriveOnPath).2 := by
  unfold submit
  split
  · exact .refl h
  · rename_i hstate
    have ha : m.Allowed := h.live (by simp_all [isLive])
    have hacq := (acquireSid_unmoved m).keeps h
    split
    · rename_i heq
      rw [heq] at hacq
      exact hacq
    · rename_i sid m₁ heq
      rw [heq] at hacq
      have hsend : Keeps m₁ (m₁.send request sid path arriveOnPath).1 := by
        have hframe := (frame_unmoved m₁ request sid).keeps hacq.guarded
        unfold send
        split
        · rename_i heq'
          rw [heq'] at hframe
          exact hframe
        · rename_i parts m₂ heq'
          rw [heq'] at hframe
          have ha₂ : m₂.Allowed := hframe.allowed (hacq.allowed ha)
          have hg := hframe.guarded
          refine hframe.trans ?_
          simp only
          split
          · exact ⟨⟨hg.live, fun _ => ha₂, hg.tls_offered, hg.tls_late, hg.credential, hg.ladder⟩,
              id, .inl ha₂, rfl, fun he => ⟨he, rfl⟩⟩
          · split <;>
              exact ⟨⟨hg.live, fun _ => ha₂, hg.tls_offered, hg.tls_late, hg.credential,
                hg.ladder⟩, id, .inl ha₂, rfl, fun he => ⟨he, rfl⟩⟩
      split <;> rename_i heq' <;> rw [heq'] at hsend <;> exact hacq.trans hsend

theorem resume_keeps {m : MachineState} (h : m.Guarded) (sid : Nat) :
    Keeps m (m.resume sid).1 := by
  unfold resume
  split
  · exact .refl h
  · rename_i p hp
    have ha : m.Allowed := h.pending fun hnil => by simp [hnil] at hp
    split <;> exact ⟨⟨h.live, h.pending, h.tls_offered, h.tls_late, h.credential, h.ladder⟩, id,
      .inl ha, rfl, fun he => ⟨he, rfl⟩⟩

theorem close_keeps {m : MachineState} (h : m.Guarded) (graceful : Bool) :
    Keeps m (m.close graceful).1 := by
  have hclosed : ∀ n : MachineState, n.Guarded →
      Keeps n ({ n with state := .closed }.emit (.disconnected .byClient)) := by
    intro n hn
    have hmove : { n with state := .closed }.Guarded := hn.move .closed rfl (by simp) (by simp [isLive])
    exact Keeps.trans ⟨hmove, fun ha => ha.move rfl, .inr (.of_eq rfl rfl), rfl, fun _ => ⟨rfl, rfl⟩⟩
      ((emit_unmoved _ _).keeps hmove)
  unfold close
  simp only
  split
  · rename_i hstate
    have ha : m.Allowed := h.live (by simp [hstate.1, isLive])
    have hacq := (acquireSid_unmoved m).keeps h
    split
    · rename_i heq
      rw [heq] at hacq
      exact hacq
    · rename_i sid m₁ heq
      rw [heq] at hacq
      have hq := queueEncoded_keeps hacq.guarded (hacq.allowed ha)
        (endSessionRequest m₁.sessionId) sid
      split <;> rename_i heq' <;> rw [heq'] at hq
      · exact hacq.trans hq
      · exact (hacq.trans hq).trans (hclosed _ hq.guarded)
  · exact hclosed m h

/-- Dropping what is queued for a path. -/
theorem dropPath_keeps {m : MachineState} (h : m.Guarded) (pathid : Nat) :
    Keeps m { m with outPath := m.outPath.del pathid } := by
  refine ⟨⟨h.live, h.pending, h.tls_offered, h.tls_late, h.credential, h.ladder⟩, id,
    .inr ⟨.inl rfl, fun p => ?_⟩, rfl, fun he => ⟨he, rfl⟩⟩
  rw [Assoc.get_del]
  split
  · exact .inr rfl
  · exact .inl rfl

theorem forgetPath_keeps {m : SessionMachine} (h : m.core.Guarded) (pathid : Nat) :
    Keeps m.core (m.forgetPath pathid).core := by
  have hrel := (foldl_unmoved release_unmoved (SessionMachine.streamsOn m.core pathid)
    m.core).keeps h
  exact hrel.trans (dropPath_keeps hrel.guarded pathid)

theorem receiveData_keeps {m : SessionMachine} (h : m.core.Guarded) (data : Bytes)
    (pathid : Nat) : Keeps m.core (m.receiveData data pathid).1.core := by
  unfold SessionMachine.receiveData SessionMachine.receiveLog
  split
  · split
    · unfold SessionMachine.onEof
      simp only
      split
      · exact .refl h
      · have hg : { m.core with state := .closed, pending := [] }.Guarded :=
          ⟨by simp [isLive], fun hp => absurd rfl hp,
            fun ht => h.tls_offered (.inl (ht.resolve_right (by simp))), fun _ => rfl,
            h.credential, h.ladder⟩
        exact ⟨⟨hg.live, hg.pending, hg.tls_offered, hg.tls_late, hg.credential, hg.ladder⟩,
          fun ha => ha.move rfl, .inr (.of_eq rfl rfl), rfl, fun _ => ⟨rfl, rfl⟩⟩
    · have hev : ∀ events, Keeps m.core { m.core with events := events } := by
        intro events
        exact ⟨⟨h.live, h.pending, h.tls_offered, h.tls_late, h.credential, h.ladder⟩, id,
          .inr (.of_eq rfl rfl), rfl, fun he => ⟨he, rfl⟩⟩
      have hforget := (hev _).trans (forgetPath_keeps (m := ⟨_, m.framers.set pathid
        (m.framer pathid)⟩) (hev (m.core.events ++
          (m.core.pending.filter fun p => p.2.pathid = pathid).map
            fun p => .failed (some p.1) (some p.2.request) (.pathClosed pathid))).guarded pathid)
      exact hforget.trans ((emit_unmoved _ _).keeps hforget.guarded)
  · exact decode_keeps h _ _

/-- Every call but `start` and `tls_established`. -/
theorem step_keeps {m : SessionMachine} (h : m.core.Guarded) {op : Op} (hs : op ≠ .start)
    (ht : op ≠ .tlsEstablished) : Keeps m.core (m.step op).1.core := by
  cases op with
  | start => exact absurd rfl hs
  | tlsEstablished => exact absurd rfl ht
  | submit request path arriveOnPath => exact submit_keeps h request path arriveOnPath
  | resume sid => exact resume_keeps h sid
  | release sid => exact (release_unmoved m.core sid).keeps h
  | abandon sid => exact (abandon_unmoved m.core sid).keeps h
  | close graceful => exact close_keeps h graceful
  | leaseSids count =>
    simp only [SessionMachine.step, MachineState.leaseSids]
    split
    · exact .refl h
    · exact (leaseLoop_unmoved count m.core []).keeps h
  | releaseSids sids => exact (foldl_unmoved (giveBack_unmoved _) sids m.core).keeps h
  | retireSids sids owed => exact (foldl_unmoved (giveBack_unmoved _) sids m.core).keeps h
  | framePartsFor request sid =>
    simp only [SessionMachine.step, MachineState.framePartsFor]
    split
    · exact (frame_unmoved m.core request sid).keeps h
    · exact .refl h
  | forgetPath pathid => exact forgetPath_keeps h pathid
  | receiveData pathid data => exact receiveData_keeps h data pathid
  | buffersToSend =>
    exact ⟨⟨h.live, h.pending, h.tls_offered, h.tls_late, h.credential, h.ladder⟩, id,
      .inr ⟨.inr rfl, fun _ => .inl rfl⟩, rfl, fun he => ⟨he, rfl⟩⟩
  | pathBuffersToSend pathid => exact dropPath_keeps h pathid
  | nextEvent =>
    exact ⟨⟨h.live, h.pending, h.tls_offered, h.tls_late, h.credential, h.ladder⟩, id,
      .inr (.of_eq rfl rfl), rfl, fun he => ⟨he, rfl⟩⟩
  | drain =>
    exact ⟨⟨h.live, h.pending, h.tls_offered, h.tls_late, h.credential, h.ladder⟩, id,
      .inr (.of_eq rfl rfl), rfl, fun he => ⟨he, rfl⟩⟩

theorem start_guarded {m : MachineState} (h : m.Guarded) :
    m.start.1 = m ∨
      (isEarly m.state = true ∧ m.start.1.Guarded ∧ m.start.1.tlsActive = m.tlsActive) := by
  unfold start
  split
  · exact .inl rfl
  · rename_i hstate
    have hs : m.state = .new := by simpa using hstate
    have hearly : isEarly m.state = true := by simp [hs, isEarly]
    have hnot := h.not_allowed_of_early hearly
    have hq : ∀ parts, (m.queue parts).Guarded := fun _ =>
      ⟨h.live, h.pending, h.tls_offered, h.tls_late, h.credential, h.ladder⟩
    refine .inr ⟨hearly, ?_⟩
    simp only [queueEncoded]
    split
    · rename_i heq
      split at heq <;> rw [← (Prod.mk.inj heq).1]
      · exact ⟨hq _, rfl⟩
      · cases (Prod.mk.inj heq).2
    · rename_i heq
      split at heq <;> rw [← (Prod.mk.inj heq).1]
      · cases (Prod.mk.inj heq).2
      · exact ⟨⟨by simp [isLive], fun hp => absurd (h.pending hp) hnot,
          fun ht => h.tls_offered (.inl (ht.resolve_right (by simp))),
          fun ht => absurd (.inl ht) hnot, h.credential, h.ladder⟩, rfl⟩

/-- What holds of every call: the invariant stays, TLS is never given up and only
`tls_established` brings it, and once the server's flags are known what is required
stays as it is. -/
structure Steps (op : Op) (m m' : MachineState) : Prop where
  guarded : m'.Guarded
  tls_stays : m.tlsActive = true → m'.tlsActive = true
  tls_from : m'.tlsActive = true → m.tlsActive = true ∨ op = .tlsEstablished
  settled : isEarly m.state = false → isEarly m'.state = false ∧ m'.required = m.required
  quiet : op ≠ .start → m'.Allowed ∨ NothingQueued m m'

theorem step_steps {m : SessionMachine} (h : m.core.Guarded) (op : Op) :
    Steps op m.core (m.step op).1.core := by
  have hsame : ∀ n : MachineState, n = m.core → Steps op m.core n := by
    rintro n rfl
    exact ⟨h, id, .inl, fun he => ⟨he, rfl⟩, fun _ => .inr (.of_eq rfl rfl)⟩
  by_cases hs : op = .start
  · subst hs
    obtain heq | ⟨hearly, hg, ht⟩ := start_guarded h
    · exact hsame _ heq
    · exact ⟨hg, fun ha => ht.trans ha, fun ha => .inl (ht.symm.trans ha),
        fun he => absurd he (by simp [hearly]), fun hne => absurd rfl hne⟩
  · by_cases ht : op = .tlsEstablished
    · subst ht
      obtain heq | ⟨hg, ha, hsettled⟩ := tlsEstablished_keeps h
      · exact hsame _ heq
      · exact ⟨hg, fun _ => ha, fun _ => .inr rfl, fun _ => hsettled, fun _ => .inl (.inl ha)⟩
    · have hk := step_keeps h hs ht
      exact ⟨hk.guarded, fun ha => hk.tls.trans ha, fun ha => .inl (hk.tls.symm.trans ha),
        hk.settled, fun _ => hk.quiet⟩

/-! ## Runs -/

/-- The invariant over a run, and where TLS comes from. -/
theorem run_guarded : ∀ (ops : List Op) {m : SessionMachine}, m.core.Guarded →
    (m.run ops).core.Guarded ∧
      ((m.run ops).core.tlsActive = true →
        m.core.tlsActive = true ∨ Op.tlsEstablished ∈ ops) := by
  intro ops
  induction ops with
  | nil => intro m h; exact ⟨h, .inl⟩
  | cons op ops ih =>
    intro m h
    have hstep := step_steps h op
    obtain ⟨hg', ht'⟩ := ih hstep.guarded
    refine ⟨hg', fun ha => ?_⟩
    obtain ha' | hmem := ht' ha
    · obtain ha'' | heq := hstep.tls_from ha'
      · exact .inl ha''
      · exact .inr (by simp [heq])
    · exact .inr (List.mem_cons_of_mem _ hmem)

/-- TLS once there stays, and what is required once it is known. -/
theorem run_settled : ∀ (ops : List Op) {m : SessionMachine}, m.core.Guarded →
    (m.core.tlsActive = true → (m.run ops).core.tlsActive = true) ∧
      (isEarly m.core.state = false → (m.run ops).core.required = m.core.required) := by
  intro ops
  induction ops with
  | nil => intro m _; exact ⟨id, fun _ => rfl⟩
  | cons op ops ih =>
    intro m h
    have hstep := step_steps h op
    obtain ⟨htls, hreq⟩ := ih hstep.guarded
    refine ⟨fun ha => htls (hstep.tls_stays ha), fun he => ?_⟩
    obtain ⟨he', hreq'⟩ := hstep.settled he
    exact (hreq he').trans hreq'

/-- A machine as it is made: `bindTo` is empty for a control connection and a
session id for a data path. -/
def made (env : Env) (host : Text) (port : Nat) (config : Config) (username : Text)
    (wantTls : Bool) (bindTo : Bytes) : SessionMachine :=
  .of { MachineState.new env host port config username wantTls with bindTo := bindTo }

theorem made_guarded (env : Env) (host : Text) (port : Nat) (config : Config) (username : Text)
    (wantTls : Bool) (bindTo : Bytes) :
    (made env host port config username wantTls bindTo).core.Guarded :=
  ⟨fun h => (by cases h), fun h => absurd rfl h, fun h => (by rcases h with h | h <;> cases h),
    fun h => (by cases h), fun _ h => (by cases h), fun _ h => (by cases h)⟩

/-- Whatever calls are made on a machine and whatever bytes it is fed: in a run in
which TLS turns out to be required, a call other than the first `start` queues
something only if `tls_established` has been called by then and the server has TLS
to offer; and a bearer token is in play, or can still be tried, only on an encrypted
connection or where the configuration allows it in the clear. -/
theorem nothing_in_the_clear (env : Env) (host : Text) (port : Nat) (config : Config)
    (username : Text) (wantTls : Bool) (bindTo : Bytes) (ops later : List Op) (op : Op) :
    let before := (made env host port config username wantTls bindTo).run ops
    let after := (before.step op).1
    let final := after.run later
    (op ≠ .start → final.core.required = true → ¬ NothingQueued before.core after.core →
      Op.tlsEstablished ∈ ops ++ [op] ∧ after.core.tlsActive = true ∧
        haveTls final.core.protocolInfo.flags = true) ∧
    (∀ c, after.core.credential = some c → c.name = ztn → after.core.TokenAllowed) ∧
    (∀ l why c l' why', after.core.credentials = some l →
      l.next after.core.env.mechanisms why = (.ok (some c), l', why') → c.name = ztn →
      after.core.TokenAllowed) := by
  intro before after final
  obtain ⟨hg, htls⟩ := run_guarded ops (made_guarded env host port config username wantTls bindTo)
  have hstep : Steps op before.core after.core := step_steps hg op
  obtain ⟨hg', _⟩ : final.core.Guarded ∧ _ := run_guarded later hstep.guarded
  obtain ⟨hstays, hreq⟩ : (after.core.tlsActive = true → final.core.tlsActive = true) ∧
      (isEarly after.core.state = false → final.core.required = after.core.required) :=
    run_settled later hstep.guarded
  refine ⟨fun hs hrequired hqueued => ?_, hstep.guarded.credential,
    fun l why c l' why' hl hnext hztn => ?_⟩
  · have hactive : after.core.tlsActive = true := by
      obtain ha | hq := hstep.quiet hs
      · refine ha.resolve_right fun hr => ?_
        rw [hreq hr.1, hr.2] at hrequired
        cases hrequired
      · exact absurd hq hqueued
    refine ⟨?_, hactive, hg'.tls_offered (.inl (hstays hactive))⟩
    obtain ha | heq := hstep.tls_from hactive
    · obtain ha' | hmem := htls ha
      · cases ha'
      · exact List.mem_append_left _ hmem
    · simp [heq]
  · exact hstep.guarded.ladder l hl (hztn ▸ Ladder.next_offered hnext)

/-- A `kXR_protocol` reply that demands TLS (`kXR_gotoTLS`) and offers it. -/
def tlsReply : Bytes := headerBytes ⟨1, kXR_ok, 8⟩ ++ [0, 0, 5, 32, 192, 0, 0, 0]

/-- A machine that has started, and has been told to go to TLS. -/
def toldTls : SessionMachine :=
  (made bareEnv "server".toList 1094 {} [] false []).run
    [.start, .receiveData 0 (bringUpReplies.headD []), .receiveData 0 tlsReply]

/-- The login goes out once TLS is there. -/
theorem login_queued_on_tls :
    ¬ NothingQueued toldTls.core (toldTls.step .tlsEstablished).1.core ∧
      (toldTls.step .tlsEstablished).1.core.tlsActive = true := by
  have hrequired : (toldTls.step .tlsEstablished).1.core.required = true := by decide
  have hqueued : ¬ NothingQueued toldTls.core (toldTls.step .tlsEstablished).1.core :=
    fun h => absurd h.out (by decide)
  exact ⟨hqueued, ((nothing_in_the_clear bareEnv "server".toList 1094 {} [] false []
    [.start, .receiveData 0 (bringUpReplies.headD []), .receiveData 0 tlsReply] [] .tlsEstablished).1
    (by decide) hrequired hqueued).2.1⟩

end XrdClient.Proto
