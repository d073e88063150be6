/-
  Proto/Machine.lean --- the sans-io session state machine.

  Source: `proto/machine.py`, `SessionMachine`.

  A method that mutates `self` returns the new machine.  An exception does not
  undo what a method has already done, so a method that can raise returns the
  machine *and* what it raised, if anything.

  The framers of the links are kept apart from the rest of the machine.  Of all
  its methods only `receive_data` and `forget_path` look a framer up, so what is
  here is `MachineState`, every other field, and `SessionMachine` (in
  `Proto/Receive.lean`) is that with the framers: that handling a reply on one
  link leaves the framer of every other link alone is then a matter of types.
  A framer's header fields `sid`, `status` and `dlen`, with the sentinel -1, are
  one optional `Header`.
-/
import XrdClient.Lib.Loop
import XrdClient.Auth.Select
import XrdClient.Crypto.Sigver
import XrdClient.Proto.Requests
import XrdClient.Proto.Responses

set_option autoImplicit false

namespace XrdClient.Proto

open XrdClient.Lib
open XrdClient.Auth
open XrdClient.Crypto

/-! ## Events -/

/-- The exception an event carries. -/
inductive SessionError where
  | protocol (error : ProtocolError)
  /-- `ServerError` or the subclass `_CODE_CLASSES` has for the code. -/
  | server (code : Int) (message : Text) (path : Option Text)
  /-- `ChecksumMismatchError("crc32c", "<server>", message)`. -/
  | checksumMismatch (message : Text)
  /-- The last refusal, with what else was tried. -/
  | refused (code : Int) (message : Text) (tried : Assoc Text Why)
  | noMechanism (offered : List Text) (tried : Assoc Text Why)
  /-- "server sent kXR_authmore with no exchange open" -/
  | noExchange
  /-- "connection closed by peer" -/
  | closedByPeer
  /-- "data path {pathid} closed by peer" -/
  | pathClosed (pathid : Nat)
  deriving DecidableEq

/-- Why the machine wants TLS. -/
inductive TlsReason where
  | serverRequested | clientPolicy
  deriving DecidableEq

/-- Who closed the session. -/
inductive CloseReason where
  | byClient | byPeer
  deriving DecidableEq

/-- Everything `next_event` yields. -/
inductive Event where
  | negotiated (info : ProtocolInfo)
  | needTls (reason : TlsReason)
  | ready (sessionId : Bytes) (mechanism : Text)
  | completed (streamid : Nat) (request : Request) (data : Bytes) (status : Option StatusInfo)
  | chunk (streamid : Nat) (request : Request) (data : Bytes)
  | redirected (streamid : Nat) (request : Request) (target : RedirectInfo)
  | waiting (streamid : Nat) (request : Request) (seconds : Int) (message : Text) (resend : Bool)
  | attention (info : AttnInfo)
  | failed (streamid : Option Nat) (request : Option Request) (error : SessionError)
  | pathLost (pathid : Nat)
  | disconnected (reason : CloseReason)
  deriving DecidableEq

/-! ## Per-stream and per-link state -/

/-- Everything the machine remembers about one stream owed an answer. -/
structure Pending where
  request : Request
  /-- The frame as it went out, for a `kXR_wait` resend. -/
  parts : List Bytes
  buffer : Bytes := []
  /-- The `kXR_status` block whose raw data is still arriving. -/
  status : Option StatusInfo := none
  path : Text := []
  pathid : Nat := 0
  pathBytes : Bytes := []
  /-- Most bytes this reply may accumulate; 0 for no limit. -/
  cap : Nat := 0
  deriving DecidableEq

/-- One link's inbound cursor. -/
structure Framer where
  buffer : Bytes := []
  /-- The header of the frame whose body is still arriving. -/
  header : Option Header := none
  needTrailer : Int := 0
  trailerFor : Option Nat := none
  deriving DecidableEq

/-- `need_trailer = dlen; trailer_for = sid`. -/
def Framer.expect (f : Framer) (dlen : Int) (sid : Option Nat) : Framer :=
  { f with needTrailer := dlen, trailerFor := sid }

@[simp] theorem Framer.expect_buffer (f : Framer) (dlen : Int) (sid : Option Nat) :
    (f.expect dlen sid).buffer = f.buffer := rfl

@[simp] theorem Framer.expect_header (f : Framer) (dlen : Int) (sid : Option Nat) :
    (f.expect dlen sid).header = f.header := rfl

/-- What the machine takes from outside itself. -/
structure Env where
  mechanisms : Mechanisms
  /-- `os.getpid()`. -/
  pid : Nat
  /-- `sigver_sign`. -/
  sigverSign : Bytes → Nat → Bytes → Bytes → Bool → Bytes

/-- Protocol state for one connection, bar the framers of its links. -/
structure MachineState where
  env : Env
  host : Text
  port : Nat
  config : Config
  username : Text
  wantTls : Bool
  /-- Session id to attach to with `kXR_bind`; empty for a control connection. -/
  bindTo : Bytes := []
  pathid : Nat := 0
  state : State := .new
  protocolInfo : ProtocolInfo := {}
  handshakeVersion : Nat := 0
  sessionId : Bytes := []
  mechanism : Text := []
  signer : Option Signer := none
  tlsActive : Bool := false
  out : List Bytes := []
  outPath : Assoc Nat (List Bytes) := []
  events : List Event := []
  pending : Assoc Nat Pending := []
  /-- Ids free for reuse, oldest first. -/
  free : List Nat := []
  /-- Ids given up on while an answer may still come. -/
  retired : List Nat := []
  /-- Ids handed to the bulk reader. -/
  leased : List Nat := []
  nextSid : Nat := 4
  credentials : Option Ladder := none
  credential : Option Credential := none
  authRejected : Assoc Text Why := []
  offered : List Text := []
  /-- The last refusal a server sent mid-exchange. -/
  authRefusal : Option (Int × Text) := none

def SID_PROTOCOL : Nat := 1
def SID_LOGIN : Nat := 2
def SID_AUTH : Nat := 3
def SID_BIND : Nat := 2
def FIRST_SID : Nat := 4

namespace MachineState

/-- `SessionMachine(...)`: the config's username and TLS requirement are the
defaults, and `want_tls` can only add to the latter. -/
def new (env : Env) (host : Text) (port : Nat) (config : Config) (username : Text)
    (wantTls : Bool) : MachineState where
  env := env
  host := host
  port := port
  config := config
  username := if username = [] then config.username else username
  wantTls := wantTls || config.requireTls

/-- An environment without mechanisms or keys, and a machine in it in a given
state: what concrete runs below are made on. -/
def bareEnv : Env where
  mechanisms := ⟨fun _ => false, fun _ => .ok none, fun _ => [], false, fun _ => .error none⟩
  pid := 1
  sigverSign := fun _ _ _ _ _ => []

@[inherit_doc bareEnv]
def bare (state : State) : MachineState :=
  { new bareEnv "server".toList 1094 {} [] false with state := state }

/-- `data_path`: a machine for a second connection to `primary`'s session. -/
def dataPath (primary : MachineState) (sessionId : Bytes) (config : Config)
    (wantTls : Bool) : MachineState :=
  { new primary.env primary.host primary.port config primary.username wantTls with
    bindTo := sessionId }

/-- `self._events.append(event)`. -/
def emit (m : MachineState) (event : Event) : MachineState :=
  { m with events := m.events ++ [event] }

/-- `self._out.append(...)`, or `.extend(...)`. -/
def queue (m : MachineState) (parts : List Bytes) : MachineState :=
  { m with out := m.out ++ parts }

/-- `self._out_path.setdefault(pathid, []).extend(...)`. -/
def queuePath (m : MachineState) (pathid : Nat) (parts : List Bytes) : MachineState :=
  { m with outPath := m.outPath.set pathid ((m.outPath.get pathid).getD [] ++ parts) }

/-- `self._out.append(encode(request, sid))`. -/
def queueEncoded (m : MachineState) (request : Request) (sid : Nat) :
    MachineState × Option Raised :=
  match encode request sid with
  | .error e => (m, some e)
  | .ok frame => (m.queue [frame], none)

/-- `_fail`: fail the session, not a stream. -/
def fail (m : MachineState) (error : SessionError) : MachineState :=
  { m with state := .failed }.emit (.failed none none error)

/-! ## Stream ids -/

/-- `_acquire_sid`: freed ids oldest first, else the counter. -/
def acquireSid (m : MachineState) : Except Raised Nat × MachineState :=
  match m.free with
  | sid :: free => (.ok sid, { m with free := free })
  | [] =>
      let sid := m.nextSid
      let next := if 0xFFFF < m.nextSid + 1 then FIRST_SID else m.nextSid + 1
      let m := { m with nextSid := next }
      if m.pending.has sid ∨ sid ∈ m.leased ∨ sid ∈ m.retired then
        (.error (.protocol .exhausted), m)
      else (.ok sid, m)

/-- `release`: drop a stream and free its id. -/
def release (m : MachineState) (sid : Nat) : MachineState :=
  if m.pending.has sid then
    { m with
      pending := m.pending.del sid
      free := if FIRST_SID ≤ sid then m.free ++ [sid] else m.free }
  else m

/-- `abandon`: drop a stream whose answer may still be on its way. -/
def abandon (m : MachineState) (sid : Nat) : MachineState :=
  if m.pending.has sid then
    { m with
      pending := m.pending.del sid
      retired := if sid ∈ m.retired then m.retired else m.retired ++ [sid] }
  else m

/-- The loop of `lease_sids`. -/
def leaseLoop : Nat → MachineState → List Nat → Except Raised (List Nat) × MachineState
  | 0, m, leased => (.ok leased, m)
  | count + 1, m, leased =>
      match m.acquireSid with
      | (.error e, m) => (.error e, m)
      | (.ok sid, m) => leaseLoop count { m with leased := m.leased ++ [sid] } (leased ++ [sid])

/-- `lease_sids`. -/
def leaseSids (m : MachineState) (count : Nat) : Except Raised (List Nat) × MachineState :=
  if count < 1 then (.error .leaseCount, m) else leaseLoop count m []

/-- One id given back by the bulk reader; `owed` if its reply may still come. -/
def giveBack (owed : Nat → Bool) (m : MachineState) (sid : Nat) : MachineState :=
  let m := { m with leased := m.leased.filter (· ≠ sid) }
  if owed sid then
    { m with retired := if sid ∈ m.retired then m.retired else m.retired ++ [sid] }
  else { m with free := m.free ++ [sid] }

/-- `release_sids`. -/
def releaseSids (m : MachineState) (sids : List Nat) : MachineState :=
  sids.foldl (giveBack fun _ => false) m

/-- `retire_sids`. -/
def retireSids (m : MachineState) (sids owed : List Nat) : MachineState :=
  sids.foldl (giveBack fun sid => decide (sid ∈ owed)) m

/-! ## Outbound -/

/-- `start`: queue the handshake, pipelined with `kXR_protocol`. -/
def start (m : MachineState) : MachineState × Option Raised :=
  if m.state ≠ .new then (m, some (.protocol (.startState m.state)))
  else
    let flags := kXR_secreqs ||| kXR_ableTLS ||| (if m.wantTls then kXR_wantTLS else 0)
    match (m.queue [HANDSHAKE]).queueEncoded (protocolRequest flags) SID_PROTOCOL with
    | (m, some e) => (m, some e)
    | (m, none) => ({ m with state := .handshake }, none)

/-- `encode(Sigver(...), sid)`.  `u64` packs no number past its field. -/
def encodeSigver (opcode seqno : Nat) (signature : Bytes) (nodata : Bool) (sid : Nat) :
    Except Raised Bytes :=
  if 2 ^ 64 ≤ seqno then .error .structError
  else encode (sigverRequest opcode seqno signature nodata) sid

/-- `_frame`: the request on `sid`, behind its `kXR_sigver` when it needs one. -/
def frame (m : MachineState) (request : Request) (sid : Nat) :
    Except Raised (List Bytes) × MachineState :=
  match encodeParts request sid with
  | .error e => (.error e, m)
  | .ok parts =>
      match m.signer with
      | none => (.ok parts, m)
      | some signer =>
          match signer.sign m.env.sigverSign parts.flatten with
          | (none, signer) => (.ok [parts.flatten], { m with signer := some signer })
          | (some (seqno, signature, nodata), signer) =>
              match encodeSigver request.opcode seqno signature nodata sid with
              | .error e => (.error e, { m with signer := some signer })
              | .ok sigver => (.ok [sigver ++ parts.flatten], { m with signer := some signer })

/-- `frame_parts_for`, and `frame_for` joined. -/
def framePartsFor (m : MachineState) (request : Request) (sid : Nat) :
    Except Raised (List Bytes) × MachineState :=
  if sid ∈ m.leased then m.frame request sid
  else (.error (.protocol (.notLeased sid)), m)

/-- `_send`: frame the request, record it as pending, and queue it. -/
def send (m : MachineState) (request : Request) (sid : Nat) (path : Text)
    (arriveOnPath : Bool) : MachineState × Option Raised :=
  match m.frame request sid with
  | (.error e, m) => (m, some e)
  | (.ok parts, m) =>
      let record : Pending := {
        request := request, parts := parts, path := path, pathid := request.pathid
        pathBytes := request.pathData, cap := request.replyCap }
      let m := { m with pending := m.pending.set sid record }
      let data := if request.pathData = [] then [] else [request.pathData]
      if arriveOnPath ∧ request.pathid ≠ 0 then (m.queuePath request.pathid (parts ++ data), none)
      else if request.pathData = [] then (m.queue parts, none)
      else ((m.queue parts).queuePath request.pathid data, none)

/-- `submit`: queue a request on a fresh stream. -/
def submit (m : MachineState) (request : Request) (path : Text := [])
    (arriveOnPath : Bool := false) : Except Raised Nat × MachineState :=
  if m.state ≠ .ready then (.error (.protocol (.submitState m.state)), m)
  else
    match m.acquireSid with
    | (.error e, m) => (.error e, m)
    | (.ok sid, m) =>
        match m.send request sid path arriveOnPath with
        | (m, some e) => (.error e, m)
        | (m, none) => (.ok sid, m)

/-- `resume`: send again a request that was answered with `kXR_wait`. -/
def resume (m : MachineState) (sid : Nat) : MachineState × Option Raised :=
  match m.pending.get sid with
  | none => (m, some (.protocol (.notWaiting sid)))
  | some p =>
      if p.pathBytes = [] then (m.queue p.parts, none)
      else ((m.queue p.parts).queuePath p.pathid [p.pathBytes], none)

/-- `close`. -/
def close (m : MachineState) (graceful : Bool := true) : MachineState × Option Raised :=
  let closed (m : MachineState) : MachineState :=
    { m with state := .closed }.emit (.disconnected .byClient)
  if m.state = .ready ∧ graceful = true ∧ m.sessionId ≠ [] then
    match m.acquireSid with
    | (.error e, m) => (m, some e)
    | (.ok sid, m) =>
        match m.queueEncoded (endSessionRequest m.sessionId) sid with
        | (m, some e) => (m, some e)
        | (m, none) => (closed m, none)
  else (closed m, none)

/-! ## Bring-up -/

/-- `_begin_login`: queue `kXR_login`, or `kXR_bind` for a data path. -/
def beginLogin (m : MachineState) : MachineState × Option Raised :=
  if m.bindTo ≠ [] then
    { m with state := .bind }.queueEncoded (bindRequest m.bindTo) SID_BIND
  else { m with state := .login }.queueEncoded (loginRequest m.username m.env.pid) SID_LOGIN

/-- `tls_established`: the socket is encrypted now; go on with the bring-up. -/
def tlsEstablished (m : MachineState) : MachineState × Option Raised :=
  if m.state ≠ .tls then (m, some (.protocol (.tlsState m.state)))
  else { m with tlsActive := true }.beginLogin

/-- The flags by which a server demands TLS on this socket. -/
def demandsTls (flags : Nat) : Bool :=
  flags &&& (kXR_gotoTLS ||| kXR_tlsLogin ||| kXR_tlsSess ||| kXR_tlsData) ≠ 0

/-- Whether a server has TLS to offer. -/
def haveTls (flags : Nat) : Bool := flags &&& kXR_haveTLS ≠ 0

/-- `_after_protocol`: decide on TLS, then log in. -/
def afterProtocol (m : MachineState) : MachineState × Option Raised :=
  let flags := m.protocolInfo.flags
  if m.wantTls = true ∨ demandsTls flags = true then
    if haveTls flags = false then
      (m.fail (.protocol (.tlsNotOffered m.host m.port flags)), none)
    else
      ({ m with state := .tls }.emit
        (.needTls (if demandsTls flags then .serverRequested else .clientPolicy)), none)
  else m.beginLogin

/-- `_become_ready`: enter READY, arming request signing if there is a key. -/
def becomeReady (m : MachineState) : MachineState :=
  let key := (m.credential.bind Credential.sessionKey).getD []
  let signer := if key = [] then m.signer else
    some { key := key, level := m.protocolInfo.securityLevel,
           overrides := m.protocolInfo.securityOverrides,
           secodata := m.protocolInfo.securityOptions &&& kXR_secOData ≠ 0 }
  { m with state := .ready, signer := signer }.emit (.ready m.sessionId m.mechanism)

/-- The ladder is spent: keep a server's own refusal if there was one. -/
def ladderSpent (m : MachineState) : MachineState :=
  match m.authRefusal with
  | some (code, message) => m.fail (.refused code (strip message) m.authRejected)
  | none => m.fail (.noMechanism m.offered m.authRejected)

/-- The loop of `_next_credential`: the next credential with something to say.
`fuel` bounds the credentials a ladder can still yield. -/
def climb : Nat → MachineState → Ladder → MachineState × Option Raised
  | 0, m, _ => (m.ladderSpent, none)
  | fuel + 1, m, ladder =>
      match ladder.next m.env.mechanisms m.authRejected with
      | (.error e, ladder, why) =>
          ({ m with credentials := some ladder, authRejected := why }, some e)
      | (.ok none, ladder, why) =>
          ({ m with credentials := some ladder, authRejected := why }.ladderSpent, none)
      | (.ok (some cred), ladder, why) =>
          let m := { m with credentials := some ladder, authRejected := why }
          match cred.exchange.initial with
          | .error text =>
              climb fuel { m with authRejected := m.authRejected.set cred.name (.raised text) }
                ladder
          | .ok blob =>
              let m := { m with credential := some cred, mechanism := cred.name }
              match authRequest cred.name blob with
              | .error e => (m, some e)
              | .ok request => m.queueEncoded request SID_AUTH

/-- `_next_credential`: advance the ladder and send the next first blob. -/
def nextCredential (m : MachineState) (sec : Text) : MachineState × Option Raised :=
  match m.credentials with
  | some ladder => climb (ladder.left + 1) m ladder
  | none =>
      let (ladder, why) := select sec m.config m.authRejected (some m.tlsActive)
      climb (ladder.left + 1) { m with credentials := some ladder, authRejected := why } ladder

/-- `_auth_refused`: the server turned the mechanism in play down. -/
def authRefused (m : MachineState) (cred : Credential) (info : ErrorInfo) :
    MachineState × Option Raised :=
  { m with
    authRejected := m.authRejected.set cred.name (.refused info.code (strip info.message))
    authRefusal := some (info.code, info.message)
    credential := none }.nextCredential []

/-- `_auth_step`: answer a `kXR_authmore` with the mechanism in play. -/
def authStep (m : MachineState) (challenge : Bytes) : MachineState × Option Raised :=
  match m.credential with
  | none => (m.fail .noExchange, none)
  | some cred =>
      let given := cred.challenges ++ [challenge]
      let m := { m with credential := some { cred with challenges := given } }
      match cred.exchange.step given with
      | .error text =>
          { m with authRejected := m.authRejected.set cred.name (.raised text) }.nextCredential []
      | .ok none =>
          -- `setdefault`: a verdict that is already there stays.
          { m with authRejected :=
              if m.authRejected.has cred.name then m.authRejected
              else m.authRejected.set cred.name .noAnswer }.nextCredential []
      | .ok (some blob) =>
          match authRequest cred.name blob with
          | .error e => (m, some e)
          | .ok request => m.queueEncoded request SID_AUTH

/-- `_bringup_error`: fatal, except mid-login. -/
def bringupError (m : MachineState) (body : Bytes) : MachineState × Option Raised :=
  match parseError body with
  | .error e => (m, some (.protocol e))
  | .ok info =>
      match m.state, m.credential with
      | .auth, some cred => m.authRefused cred info
      | _, _ => (m.fail (.server info.code info.message none), none)

/-- `_bringup` on a reply that continues: by state, not by stream id. -/
def bringupReply (m : MachineState) (status : Nat) (body : Bytes) :
    MachineState × Option Raised :=
  match m.state with
  | .handshake =>
      ({ m with handshakeVersion := beNat (body.take 4), state := .protocol }, none)
  | .protocol =>
      match parseProtocol body with
      | .error e => (m, some (.protocol e))
      | .ok info => ({ m with protocolInfo := info }.emit (.negotiated info)).afterProtocol
  | .bind =>
      match parseBind body with
      | .error e => (m, some (.protocol e))
      | .ok pathid => ({ m with pathid := pathid }.becomeReady, none)
  | .login =>
      let login := parseLogin body
      let m := { m with sessionId := login.sessid, offered := login.mechanisms }
      if login.sec = [] then (m.becomeReady, none)
      else { m with state := .auth }.nextCredential login.sec
  | _ => if status = kXR_authmore then m.authStep body else (m.becomeReady, none)

/-- `_bringup`. -/
def bringup (m : MachineState) (status : Nat) (body : Bytes) :
    MachineState × Option Raised :=
  if status = kXR_error then m.bringupError body
  else if status ≠ kXR_ok ∧ status ≠ kXR_authmore then
    (m.fail (.protocol (.unexpectedBringup status m.state)), none)
  else m.bringupReply status body

/-! ## Replies to requests -/

/-- `server_error`: the exception a `kXR_error` body stands for. -/
def serverError (info : ErrorInfo) (path : Text) : SessionError :=
  if info.code = kXR_ChkSumErr then
    .checksumMismatch (if info.message = [] then "<client>".toList else info.message)
  else .server info.code info.message (if path = [] then none else some path)

/-- `_within_cap`: whether `extra` more bytes fit; if not, the stream is
finished off with an error. -/
def withinCap (m : MachineState) (sid : Nat) (p : Pending) (extra : Nat) :
    Bool × MachineState :=
  if p.cap = 0 ∨ p.buffer.length + extra ≤ p.cap then (true, m)
  else
    (false, (m.release sid).emit
      (.failed (some sid) (some p.request) (.protocol (.overCap p.cap))))

/-- `_on_status_data`: the raw data behind a `kXR_status` arrived. -/
def onStatusData (m : MachineState) (sid : Nat) (data : Bytes) : MachineState :=
  match m.pending.get sid with
  | none => m
  | some p =>
      match p.status with
      | none => m
      | some info =>
          match m.withinCap sid p data.length with
          | (false, m) => m
          | (true, m) =>
              if info.isFinal then
                (m.release sid).emit (.completed sid p.request (p.buffer ++ data) (some info))
              else
                { m with pending := m.pending.set sid { p with buffer := p.buffer ++ data } }.emit
                  (.chunk sid p.request data)

/-- `_response_ok`: final answer, joined to any chunks before it. -/
def responseOk (m : MachineState) (sid : Nat) (body : Bytes) (p : Pending) : MachineState :=
  match m.withinCap sid p body.length with
  | (false, m) => m
  | (true, m) => (m.release sid).emit (.completed sid p.request (p.buffer ++ body) p.status)

/-- `_response_chunk`: `kXR_oksofar`. -/
def responseChunk (m : MachineState) (sid : Nat) (body : Bytes) (p : Pending) :
    MachineState :=
  match m.withinCap sid p body.length with
  | (false, m) => m
  | (true, m) =>
      { m with pending := m.pending.set sid { p with buffer := p.buffer ++ body } }.emit
        (.chunk sid p.request body)

/-- `_response_error`. -/
def responseError (m : MachineState) (sid : Nat) (body : Bytes) (p : Pending) :
    MachineState × Option Raised :=
  match parseError body with
  | .error e => (m, some (.protocol e))
  | .ok info =>
      ((m.release sid).emit (.failed (some sid) (some p.request) (serverError info p.path)), none)

/-- `_response_redirect`: the stream stays pending until the driver releases it. -/
def responseRedirect (m : MachineState) (sid : Nat) (body : Bytes) (p : Pending) :
    MachineState × Option Raised :=
  match parseRedirect body with
  | .error e => (m, some (.protocol e))
  | .ok target => (m.emit (.redirected sid p.request target), none)

/-- `_response_wait`. -/
def responseWait (m : MachineState) (sid : Nat) (body : Bytes) (p : Pending) :
    MachineState × Option Raised :=
  match parseWait body with
  | .error e => (m, some (.protocol e))
  | .ok wait =>
      (m.emit (.waiting sid p.request (min wait.seconds m.config.waitCap) wait.message true), none)

/-- `_response_waitresp`. -/
def responseWaitresp (m : MachineState) (sid : Nat) (body : Bytes) (p : Pending) :
    MachineState × Option Raised :=
  match parseWaitresp body with
  | .error e => (m, some (.protocol e))
  | .ok later => (m.emit (.waiting sid p.request later.seconds [] false), none)

/-- `_response_status`: note the block, then expect its raw data. -/
def responseStatus (m : MachineState) (sid : Nat) (body : Bytes) (p : Pending) (f : Framer) :
    MachineState × Framer × Option Raised :=
  match parseStatus body with
  | .error e => (m, f, some (.protocol e))
  | .ok info =>
      let m := { m with pending := m.pending.set sid { p with status := some info } }
      if info.dlen ≠ 0 then (m, f.expect info.dlen (some sid), none)
      else (m.onStatusData sid [], f, none)

/-- `_response_unexpected`: a status no request can be answered with. -/
def responseUnexpected (m : MachineState) (sid status : Nat) (p : Pending) : MachineState :=
  (m.release sid).emit
    (.failed (some sid) (some p.request) (.protocol (.unexpectedStatus status)))

/-- `_retired_reply`: drop a late reply; free the id once it is final. -/
def retiredReply (m : MachineState) (sid status : Nat) (body : Bytes) (f : Framer) :
    MachineState × Framer × Option Raised :=
  let freed : MachineState :=
    { m with retired := m.retired.filter (· ≠ sid), free := m.free ++ [sid] }
  if status = kXR_status then
    match parseStatus body with
    | .error e => (m, f, some (.protocol e))
    | .ok info =>
        (if info.isFinal then freed else m,
          f.expect info.dlen (if info.dlen ≠ 0 then some sid else none), none)
  else if status ≠ kXR_oksofar ∧ status ≠ kXR_waitresp then (freed, f, none)
  else (m, f, none)

/-! ## Dispatch -/

/-- What `_unwrap_attn` finds in a `kXR_attn` body. -/
inductive Unwrapped where
  /-- A deferred answer, with its own header. -/
  | inner (sid status : Nat) (body : Bytes)
  | notice (info : AttnInfo)
  | bad (error : ProtocolError)
  deriving DecidableEq

/-- `_unwrap_attn`. -/
def unwrapAttn (body : Bytes) : Unwrapped :=
  match parseAttn body with
  | .error e => .bad e
  | .ok info =>
      if info.action = kXR_asynresp ∧ 16 ≤ body.length then
        match headerFields body 8 with
        | .error e => .bad e
        | .ok h => .inner h.sid h.status (body.drop 16)
      else .notice info

/-- The states in which a reply belongs to bring-up. -/
def inBringup : State → Bool
  | .handshake | .protocol | .login | .auth | .bind => true
  | _ => false

/-- The handler of a reply to a stream that is owed one. -/
def respond (m : MachineState) (sid status : Nat) (body : Bytes) (p : Pending) (f : Framer) :
    MachineState × Framer × Option Raised :=
  if status = kXR_ok then (m.responseOk sid body p, f, none)
  else if status = kXR_oksofar then (m.responseChunk sid body p, f, none)
  else if status = kXR_error then
    ((m.responseError sid body p).1, f, (m.responseError sid body p).2)
  else if status = kXR_redirect then
    ((m.responseRedirect sid body p).1, f, (m.responseRedirect sid body p).2)
  else if status = kXR_wait then
    ((m.responseWait sid body p).1, f, (m.responseWait sid body p).2)
  else if status = kXR_waitresp then
    ((m.responseWaitresp sid body p).1, f, (m.responseWaitresp sid body p).2)
  else if status = kXR_status then m.responseStatus sid body p f
  else (m.responseUnexpected sid status p, f, none)

/-- `_dispatch` once a wrapped answer is unwrapped. -/
def route (m : MachineState) (sid status : Nat) (body : Bytes) (f : Framer) :
    MachineState × Framer × Option Raised :=
  if inBringup m.state then ((m.bringup status body).1, f, (m.bringup status body).2)
  else
    match m.pending.get sid with
    | some p => m.respond sid status body p f
    | none =>
        if sid ∈ m.retired then m.retiredReply sid status body f
        -- A reply on an unknown stream is logged and dropped.
        else (m, f, none)

/-- `_dispatch`: route one complete frame to bring-up or to its stream. -/
def dispatch (m : MachineState) (sid status : Nat) (body : Bytes) (f : Framer) :
    MachineState × Framer × Option Raised :=
  if status = kXR_attn then
    match unwrapAttn body with
    | .bad e => (m, f, some (.protocol e))
    | .notice info => (m.emit (.attention info), f, none)
    | .inner sid status body => m.route sid status body f
  else m.route sid status body f

end MachineState

end XrdClient.Proto
