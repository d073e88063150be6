/-
  Session/Route.lean --- one request, and everywhere it is sent.

  Source: `session/router.py`, `Router._run` and what it calls; `_wait_event` and
  `_resend_after` of `session/sync.py`; `LocalFile` of `session/local.py`.

  `Router.execute` is a loop that makes one attempt a turn.  What a turn meets is a
  `Turn`: how dialling goes, what the server answers, which clocks have run out.  The loop
  writes a log: each attempt, each time the request is put on the wire together with what
  is heard of it, each redirect that is counted and each return to where it started.

  Nobody else moves the router.  The list of hops that `trace` asks for is left out.
-/
import XrdClient.Lib.Loop
import XrdClient.Session.Rewrite

set_option autoImplicit false

namespace XrdClient.Session

open XrdClient.Lib
open XrdClient.Proto
open XrdClient.Auth

/-! ## What a turn meets -/

/-- Of `Config`, what routing reads. -/
structure Policy where
  connectRetries : Int := 3
  redirectLimit : Int := 16
  waitBudget : Int := 1800
  requireTls : Bool := false
  localRedirect : Text := "local".toList

/-- What `execute` may raise. -/
inductive Thrown where
  | redirect (target : RedirectInfo)
  | waitLimit
  | expired
  /-- A `ConnectionError`, and whether it is a `TimeoutError`. -/
  | connection (timeout : Bool)
  | server (code : Nat)
  /-- What `_recover` makes of a connection error it does not retry. -/
  | transient (timeout : Bool) (attempts : Nat)
  | redirectLimit
  | misdirected (why : Misdirected)
  | other (text : Text)
  deriving DecidableEq

/-- What goes wrong before a request is sent. -/
inductive Mishap where
  | connection (timeout : Bool)
  | server (code : Nat)
  | waitLimit
  | expired
  | other (text : Text)
  deriving DecidableEq

def Mishap.thrown : Mishap → Thrown
  | .connection timeout => .connection timeout
  | .server code => .server code
  | .waitLimit => .waitLimit
  | .expired => .expired
  | .other text => .other text

/-- A server asks for patience: `kXR_wait`, or `kXR_waitresp`. -/
inductive Notice where
  /-- Whether the deadline comes first; whether the request is sent again, and not cut off
  by something that was filed for it meanwhile. -/
  | wait (seconds : Nat) (late again : Bool)
  | waitresp (seconds : Nat)
  deriving DecidableEq

/-- What ends the waiting for an answer. -/
inductive Last where
  | completed (data : Bytes)
  /-- `kXR_error`. -/
  | refused (code : Nat)
  | redirected (target : RedirectInfo)
  /-- The connection is lost, or nothing comes. -/
  | lost (timeout : Bool)
  | waitLimit
  | expired
  | other (text : Text)
  deriving DecidableEq

/-- What is known of a request that was put on the wire. -/
inductive Answer where
  | completed
  | refused
  | redirected
  | wait
  | unknown
  deriving DecidableEq

def kXR_ReqTimedOut : Nat := 3034
def kXR_TimerExpired : Nat := 3035

/-- `_error_for_status`: a server that says it timed out raises a `TimeoutError`. -/
def errorForStatus (code : Nat) : Thrown :=
  if code = kXR_ReqTimedOut ∨ code = kXR_TimerExpired then .connection true else .server code

def Last.answer : Last → Answer
  | .completed _ => .completed
  | .refused _ => .refused
  | .redirected _ => .redirected
  | _ => .unknown

def Last.outcome : Last → Except Thrown Bytes
  | .completed data => .ok data
  | .refused code => .error (errorForStatus code)
  | .redirected target => .error (.redirect target)
  | .lost timeout => .error (.connection timeout)
  | .waitLimit => .error .waitLimit
  | .expired => .error .expired
  | .other text => .error (.other text)

/-- Why a file of this machine is not read. -/
inductive Disk where
  | ENOENT
  | EACCES
  | EPERM
  | EISDIR
  | errno
  | unsupported
  | other (text : Text)
  deriving DecidableEq

/-- `_refuse`. -/
def Disk.thrown : Disk → Thrown
  | .ENOENT => .server kXR_NotFound
  | .EACCES => .server kXR_NotAuthorized
  | .EPERM => .server kXR_NotAuthorized
  | .EISDIR => .server kXR_isDirectory
  | .errno => .server kXR_IOError
  | .unsupported => .server kXR_Unsupported
  | .other text => .other text

/-- What one attempt meets. -/
structure Turn where
  /-- The deadline is up before anything is sent. -/
  late : Bool := false
  /-- The connection at hand is closed. -/
  gone : Bool := false
  /-- What comes of dialling: the server's flags, and whether it is on this machine. -/
  dial : Except Mishap (Nat × Bool) := .ok (0, false)
  /-- What is raised before the request goes out. -/
  start : Option Mishap := none
  notices : List Notice := []
  last : Last := .completed []
  /-- What a local file answers. -/
  disk : Except Disk Bytes := .ok []
  /-- The deadline is up when the connection has failed. -/
  spent : Bool := false

/-! ## The wait for an answer -/

/-- How much longer `_wait_for_answer` waits, if there is a bound. -/
def allowance (c : Policy) (seconds : Nat) (parked : Int) : Option Int :=
  let left := if c.waitBudget ≤ 0 then none else some (c.waitBudget - parked)
  if seconds = 0 then left
  else match left with
    | none => some seconds
    | some left => some (min seconds left)

/-- `_answer`, for a request that has just been put on the wire: what is known of it each
time it was, and what comes of it. -/
def hearing (c : Policy) : List Notice → Last → Nat → Int → List Answer × Except Thrown Bytes
  | [], last, _, _ => ([last.answer], last.outcome)
  | .wait seconds late again :: rest, last, waits, parked =>
      let parked := parked + seconds
      if c.waitBudget < parked then ([.wait], .error .waitLimit)
      else if late then ([.wait], .error .expired)
      else if c.redirectLimit < waits + 1 then ([.wait], .error .waitLimit)
      else if again then
        let (answers, result) := hearing c rest last (waits + 1) parked
        (.wait :: answers, result)
      else hearing c rest last (waits + 1) parked
  | .waitresp seconds :: rest, last, waits, parked =>
      match allowance c seconds parked with
      | none => hearing c rest last waits parked
      | some allowed =>
          if allowed ≤ 0 then ([.unknown], .error .waitLimit)
          else hearing c rest last waits (parked + allowed)

/-- `Session.execute`. -/
def Turn.answers (c : Policy) (t : Turn) : List Answer × Except Thrown Bytes :=
  match t.start with
  | some mishap => ([], .error mishap.thrown)
  | none => hearing c t.notices t.last 0 0

/-! ## The router -/

/-- A connection, or a file of this machine in its place. -/
structure Link where
  serial : Nat
  /-- The flags of its `kXR_protocol` answer. -/
  flags : Nat := 0
  peerIsLocal : Bool := false
  /-- It is a `LocalFile`. -/
  disk : Bool := false
  /-- The `LocalFile` is closed. -/
  done : Bool := false
  deriving DecidableEq

structure Router where
  url : Url
  /-- `_session`. -/
  link : Option Link := none
  reconnect : Bool := true
  sticky : Bool := true
  followRedirects : Bool := true
  /-- How many connections there have been. -/
  made : Nat := 0

/-- `_Route`. -/
structure Route where
  home : Url
  original : Option PathFields := none
  target : Option Url := none
  /-- The connection of the last attempt. -/
  link : Option Link := none
  hops : Nat := 0
  attempts : Nat := 0
  moved : Bool := false
  balancer : Bool := false
  tried : List Text := []

/-- A request, as routing sees it. -/
structure Ask where
  idempotent : Bool
  isOpen : Bool := false
  options : Nat := 0
  /-- `_path_fields(request)`. -/
  fields : PathFields := []

/-- A call of `execute` under way. -/
structure Errand where
  request : Ask
  route : Route
  router : Router
  /-- How many turns it has taken. -/
  turns : Nat := 0

/-- What the loop writes down. -/
inductive Entry where
  /-- An attempt, and whether it is at a file of this machine. -/
  | attempt (disk : Bool)
  /-- The request is put on the wire. -/
  | put (answer : Answer)
  /-- A redirect is counted. -/
  | hop
  /-- The request goes back to where it started. -/
  | home
  deriving DecidableEq

def kXR_isManager : Nat := 2
def kXR_refresh : Nat := 128

/-- `same_server`. -/
def sameServer (c : Policy) (a b : Url) : Bool :=
  decide ((a.useTls || c.requireTls, a.host, a.port) = (b.useTls || c.requireTls, b.host, b.port))

/-- A new connection. -/
def Router.dial (r : Router) (t : Turn) : Except Thrown Link × Router :=
  match t.dial with
  | .error mishap => (.error mishap.thrown, r)
  | .ok (flags, peerIsLocal) =>
      (.ok { serial := r.made, flags := flags, peerIsLocal := peerIsLocal }, { r with made := r.made + 1 })

/-- `_connect`. -/
def Router.connect (r : Router) (t : Turn) : Except Thrown Link × Router :=
  match Router.dial { r with link := none } t with
  | (.error e, r) => (.error e, r)
  | (.ok link, r) => (.ok link, { r with link := some link })

/-- `closed`, of a session or a `LocalFile`. -/
def Link.closed (link : Link) (t : Turn) : Bool := if link.disk then link.done else t.gone

/-- `Router.session`. -/
def Router.session (r : Router) (t : Turn) : Except Thrown Link × Router :=
  match r.link with
  | none => r.connect t
  | some link =>
      if link.closed t then
        if r.reconnect then r.connect t else (.error (.connection false), r)
      else (.ok link, r)

/-- `_drop`. -/
def Router.drop (r : Router) (failed : Option Link) : Router :=
  if r.link = none ∨ (failed ≠ none ∧ r.link ≠ failed) then r else { r with link := none }

/-- `_move`: whether it did. -/
def Router.move (c : Policy) (r : Router) (cameFrom : Option Link) (destination : Url) : Bool × Router :=
  if r.link ≠ cameFrom then (false, r)
  else if sameServer c destination r.url then (true, r)
  else (true, { r with link := none, url := destination })

/-! ## One attempt -/

/-- `_attempt`. -/
def Errand.attempt (c : Policy) (s : Errand) (t : Turn) : List Entry × Except Thrown Bytes × Errand :=
  let (dialled, router) := match s.route.target with
    | none => s.router.session t
    | some _ => s.router.dial t
  match dialled with
  | .error e => ([.attempt false], .error e, { s with router := router })
  | .ok link =>
      let s := { s with router := router, route := { s.route with link := some link } }
      if link.disk then ([.attempt true], t.disk.mapError Disk.thrown, s)
      else
        let (answers, result) := t.answers c
        (.attempt false :: answers.map .put, result, s)

section

variable (parse : Text → Except Misdirected Parsed) (c : Policy)

/-- `_point`. -/
def Errand.point (s : Errand) (destination : Url) : Errand :=
  let balancer := s.route.balancer ||
    (match s.route.link with
      | some link => decide (link.flags &&& kXR_isManager ≠ 0)
      | none => false)
  let (moved, router) :=
    if s.router.sticky && s.route.target.isNone then s.router.move c s.route.link destination
    else (false, s.router)
  if moved then
    { s with
      router := router
      route := { s.route with
        balancer := balancer
        moved := s.route.moved || !sameServer c destination s.route.home } }
  else
    { s with
      router := router
      route := { s.route with
        balancer := balancer
        target := if sameServer c destination router.url then none else some destination } }

/-- `_redirect`. -/
def Errand.redirect (s : Errand) (target : RedirectInfo) : Except Thrown Errand :=
  let s := { s with route := { s.route with hops := s.route.hops + 1 } }
  if c.redirectLimit < s.route.hops then .error .redirectLimit
  else match destination parse (s.route.target.getD s.router.url) target with
    | .error why => .error (.misdirected why)
    | .ok destination =>
        let s := s.point c destination
        let original := s.route.original.getD s.request.fields
        match redirectPath parse target with
        | .error why => .error (.misdirected why)
        | .ok path =>
            let original := if path = [] then original else repath original path
            .ok { s with
              route := { s.route with original := some original }
              request := { s.request with fields := retarget original target.token } }

/-- `check_follow`. -/
def checkFollow (url : Text) (peerIsLocal : Bool) : Except Thrown Unit :=
  let policy := lower c.localRedirect
  if policy = "always".toList ∨ (policy = "local".toList ∧ peerIsLocal = true) then .ok ()
  else .error (.misdirected (if policy = "never".toList then .never url else .notLocal url))

/-- `_go_local`: the router is on the file from now on, or this one request is answered by
it. -/
def Errand.goLocal (s : Errand) (t : Turn) (url : Text) :
    List Entry × (Errand ⊕ Except Thrown Bytes) :=
  match checkFollow c url ((s.route.link.map Link.peerIsLocal).getD false) with
  | .error e => ([], .inr (.error e))
  | .ok () =>
      if s.router.sticky && decide (s.router.link = s.route.link) then
        ([], .inl { s with router := { s.router with
          link := some { serial := s.router.made, disk := true }
          url := { host := "localhost".toList, port := 0 }
          made := s.router.made + 1 } })
      else ([.attempt true], .inr (t.disk.mapError Disk.thrown))

/-- `_follow`. -/
def Errand.follow (s : Errand) (t : Turn) (target : RedirectInfo) :
    List Entry × (Errand ⊕ Except Thrown Bytes) :=
  if !s.router.followRedirects then ([], .inr (.error (.redirect target)))
  else
    match (if target.port < 0 then targetPath target.host else .ok none) with
    | .error why => ([], .inr (.error (.misdirected why)))
    | .ok (some _) => s.goLocal c t target.host
    | .ok none =>
        match s.redirect parse c target with
        | .error e => ([], .inr (.error e))
        | .ok s => ([.hop], .inl s)

/-! ## Going back -/

/-- `_return_home`. -/
def Errand.returnHome (s : Errand) (failed : Url) : Errand :=
  if s.router.url ≠ failed then s
  else { s with
    router := { s.router with link := none, url := s.route.home }
    route := { s.route with moved := false } }

/-- `_go_home`. -/
def Errand.goHome (s : Errand) (reason : Text) : Errand :=
  let failed := s.route.target.getD s.router.url
  let s := { s with route := { s.route with tried := Session.tried s.route.tried failed.host } }
  let s :=
    if s.route.target.isSome then { s with route := { s.route with target := none } }
    else s.returnHome failed
  { s with request := { s.request with
      fields := (s.route.original.getD []).map fun path => withTried path s.route.tried reason } }

/-- Whether a redirect has taken the request away from home. -/
def Route.away (route : Route) : Bool := route.target.isSome || route.moved

/-- `_retryable`. -/
def Errand.retryable (s : Errand) : Bool :=
  s.router.reconnect && decide ((s.route.attempts : Int) ≤ c.connectRetries) && s.request.idempotent

/-- `_recover`. -/
def Errand.recover (s : Errand) (t : Turn) (timeout : Bool) :
    List Entry × (Errand ⊕ Except Thrown Bytes) :=
  if t.spent then ([], .inr (.error .expired))
  else
    let s := { s with route := { s.route with attempts := s.route.attempts + 1 } }
    if !s.retryable c then ([], .inr (.error (.transient timeout s.route.attempts)))
    else if s.route.away then ([.home], .inl (s.goHome LOST))
    else ([], .inl { s with router := s.router.drop s.route.link })

/-- `_RETRY_AT_BALANCER`. -/
def RETRY_AT_BALANCER : List Nat :=
  [kXR_FSError, kXR_IOError, kXR_ServerError, kXR_NotFound, kXR_Overloaded, kXR_NoMemory]

/-- `_REFRESH`. -/
def REFRESH : List Nat := [kXR_NotFound, kXR_Overloaded]

/-- `_balancer_may_retry`. -/
def Errand.balancerMayRetry (s : Errand) (code : Nat) : Bool :=
  s.route.away && s.route.balancer && decide (code ∈ RETRY_AT_BALANCER) && s.request.idempotent &&
    decide ((s.route.hops : Int) < c.redirectLimit)

/-- `_retry_at_balancer`. -/
def Errand.retryAtBalancer (s : Errand) (code : Nat) : List Entry × (Errand ⊕ Except Thrown Bytes) :=
  if !s.balancerMayRetry c code then ([], .inr (.error (.server code)))
  else
    let s := s.goHome (triedReason code)
    ([.home], .inl (if decide (code ∈ REFRESH) && s.request.isOpen then
      { s with request := { s.request with options := s.request.options ||| kXR_refresh } } else s))

/-! ## The loop -/

/-- One turn of `_run`. -/
def Errand.turn (world : Nat → Turn) (s : Errand) : List Entry × (Errand ⊕ Except Thrown Bytes) :=
  let t := world s.turns
  if t.late then ([], .inr (.error .expired))
  else
    let (log, result, s) := s.attempt c t
    let s := { s with turns := s.turns + 1 }
    let (more, next) := match result with
      | .error (.redirect target) => s.follow parse c t target
      | .error (.connection timeout) => s.recover c t timeout
      | .error (.server code) => s.retryAtBalancer c code
      | .error e => ([], .inr (.error e))
      | .ok data => ([], .inr (.ok data))
    (log ++ more, next)

end

end XrdClient.Session
