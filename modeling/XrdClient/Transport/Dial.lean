/-
  Transport/Dial.lean --- a host's addresses, raced for a connected socket.

  Source: `transport/_dial.py`.

  THE WORLD.  A `Moment` is what one pass of `_Race.run` meets: the clock, how the connect it
  starts comes out, and which sockets the selector reports with what `SO_ERROR`.  A world is
  any list of moments; where it ends, the clock has passed the deadline.

  THE RECORD.  Sockets are numbered as they are made; `closed` is which were closed, `stray`
  which an exception came for while neither the selector nor anyone else had them, and `log` is
  which connects were started when, and which of them failed.  All three are written only.

  Not modelled: the helper thread of `_lookup` (a lookup is what it returns or raises), and
  the row of a raw family, whose socket address is not a host and a port.
-/
import XrdClient.Lib.Alternate
import XrdClient.Lib.Assoc
import XrdClient.Lib.Repr

set_option autoImplicit false

namespace XrdClient.Transport

open XrdClient.Lib

/-! ## The addresses -/

inductive Family where
  | inet
  | inet6
  | other (number : Nat)
deriving DecidableEq

/-- An IPv4 socket address, or an IPv6 one. -/
inductive SockAddr where
  | inet (host : Text) (port : Nat)
  | inet6 (host : Text) (port flow scope : Nat)
deriving DecidableEq

/-- `str(sockaddr[0])` -/
def SockAddr.host : SockAddr → Text
  | .inet host _ => host
  | .inet6 host _ _ _ => host

/-- `sockaddr[1]` -/
def SockAddr.port : SockAddr → Nat
  | .inet _ port => port
  | .inet6 _ port _ _ => port

/-- A row of `getaddrinfo`. -/
structure AddrInfo where
  family : Family
  kind : Nat
  proto : Nat
  name : Text
  sockaddr : SockAddr
deriving DecidableEq

/-- Why a dial came to nothing. -/
inductive DialFailure where
  /-- `ValueError` -/
  | badStack (message : Text)
  /-- What the lookup raised. -/
  | lookup (error : Text)
  /-- `DialError`, with an address and a code for each of its failures. -/
  | dialError (message : Text) (failures : List (AddrInfo × Nat)) (timedOut : Bool)
  /-- What is raised inside the race and is not an attempt's failure. -/
  | stopped
deriving DecidableEq

variable (printable : Char → Bool)

/-- `_family`; `none` is `AF_UNSPEC`. -/
def family (stack : Text) : Except DialFailure (Option Family) :=
  let lower := stack.map Char.toLower
  if lower = "ipauto".toList then .ok none
  else if lower = "ipv4".toList then .ok (some .inet)
  else if lower = "ipv6".toList then .ok (some .inet6)
  else if lower = "ipv4mapped6".toList then .ok none
  else .error (.badStack ("network_stack ".toList ++ reprText printable stack ++
    " is not one of IPAuto, IPv4, IPv6, IPv4Mapped6".toList))

/-- `_mapped`. -/
def mapped (info : AddrInfo) : AddrInfo :=
  if info.family ≠ .inet then info
  else
    { info with
      family := .inet6
      sockaddr := .inet6 ("::ffff:".toList ++ info.sockaddr.host) info.sockaddr.port 0 0 }

/-- What `resolve` holds apart: `(info[0], info[4])`. -/
def AddrInfo.key (info : AddrInfo) : Family × SockAddr := (info.family, info.sockaddr)

/-- What the lookup found, mapped where the stack asks for it. -/
def rowsOf (stack : Text) (found : List AddrInfo) : List AddrInfo :=
  if stack.map Char.toLower = "ipv4mapped6".toList then found.map mapped else found

/-- `resolve`, of what the lookup found. -/
def resolved (stack : Text) (found : List AddrInfo) : List AddrInfo :=
  firsts AddrInfo.key (rowsOf stack found)

/-- `resolve`; `lookup` is `_lookup` of the host and the port. -/
def resolve (lookup : Option Family → Except Text (List AddrInfo)) (stack : Text) :
    Except DialFailure (List AddrInfo) :=
  match family printable stack with
  | .error e => .error e
  | .ok family =>
    match lookup family with
    | .error e => .error (.lookup e)
    | .ok found => .ok (resolved stack found)

/-- Whether a row is of the first row's family. -/
def preferred (infos : List AddrInfo) (info : AddrInfo) : Bool :=
  decide (some info.family = infos.head?.map AddrInfo.family)

/-- `interleave`. -/
def interleave (infos : List AddrInfo) : List AddrInfo :=
  alternate (infos.filter (preferred infos)) (infos.filter fun info => !preferred infos info)

/-- `_where`. -/
def addressOf (info : AddrInfo) : Text :=
  let port := decimal info.sockaddr.port
  if info.family = .inet6 then '[' :: info.sockaddr.host ++ ']' :: ':' :: port
  else info.sockaddr.host ++ ':' :: port

theorem interleave_perm (infos : List AddrInfo) : (interleave infos).Perm infos :=
  (alternate_perm _ _).trans (List.filter_append_perm _ _)

/-- The rows of a family come in the resolver's order. -/
theorem filter_family_interleave (infos : List AddrInfo) (f : Family) :
    ((interleave infos).filter fun info => info.family = f) = infos.filter fun info => info.family = f := by
  have hfirst : (interleave infos).filter (preferred infos) = infos.filter (preferred infos) :=
    filter_alternate (fun _ h => (List.mem_filter.mp h).2) fun _ h => by
      simpa using (List.mem_filter.mp h).2
  have hothers : (interleave infos).filter (fun info => !preferred infos info) =
      infos.filter fun info => !preferred infos info :=
    filter_alternate_right (fun _ h => by simpa [-List.mem_filter] using (List.mem_filter.mp h).2)
      fun _ h => (List.mem_filter.mp h).2
  -- a family is all preferred, or not at all
  by_cases hf : some f = infos.head?.map AddrInfo.family
  · have hin : ∀ rows : List AddrInfo, (rows.filter fun info => info.family = f) =
        (rows.filter (preferred infos)).filter fun info => info.family = f := fun rows => by
      rw [List.filter_filter]
      refine List.filter_congr fun info _ => ?_
      by_cases hinfo : info.family = f <;> simp [preferred, hinfo, hf]
    rw [hin (interleave infos), hfirst, ← hin]
  · have hin : ∀ rows : List AddrInfo, (rows.filter fun info => info.family = f) =
        (rows.filter fun info => !preferred infos info).filter fun info => info.family = f := fun rows => by
      rw [List.filter_filter]
      refine List.filter_congr fun info _ => ?_
      by_cases hinfo : info.family = f <;> simp [preferred, hinfo, hf]
    rw [hin (interleave infos), hothers, ← hin]

/-- The resolver's first comes first. -/
theorem head?_interleave (infos : List AddrInfo) : (interleave infos).head? = infos.head? := by
  cases infos with
  | nil => rfl
  | cons info infos =>
    have hpref : preferred (info :: infos) info = true := by simp [preferred]
    rw [interleave, List.filter_cons_of_pos hpref, head?_alternate_cons]
    rfl

/-- The first family and the others take turns. -/
theorem preferred_interleave (infos : List AddrInfo) {i : Nat}
    (hfirst : i < (infos.filter (preferred infos)).length)
    (hothers : i < (infos.filter fun info => !preferred infos info).length) :
    (∃ info, (interleave infos)[2 * i]? = some info ∧ preferred infos info = true) ∧
      ∃ info, (interleave infos)[2 * i + 1]? = some info ∧ preferred infos info = false := by
  obtain ⟨heven, hodd⟩ := getElem?_alternate hfirst hothers
  refine ⟨⟨_, heven.trans (List.getElem?_eq_getElem hfirst), ?_⟩,
    ⟨_, hodd.trans (List.getElem?_eq_getElem hothers), ?_⟩⟩
  · exact (List.mem_filter.mp (List.getElem_mem hfirst)).2
  · simpa using (List.mem_filter.mp (List.getElem_mem hothers)).2

theorem mapped_family (info : AddrInfo) : (mapped info).family ≠ .inet := by
  unfold mapped
  split
  · assumption
  · exact Family.noConfusion

/-- A dial races for each socket address the lookup found, mapped where asked, once; it begins
with the lookup's first, a family's come in the lookup's order, and as long as both the first
one's family and the others last, they take turns. -/
theorem dial_order (stack : Text) (found : List AddrInfo) :
    let infos := resolved stack found
    ((interleave infos).map AddrInfo.key).Nodup ∧
    (∀ key, key ∈ (interleave infos).map AddrInfo.key ↔ key ∈ (rowsOf stack found).map AddrInfo.key) ∧
    (interleave infos).head? = (rowsOf stack found).head? ∧
    (∀ f, ((interleave infos).filter fun info => info.family = f).Sublist
      ((rowsOf stack found).filter fun info => info.family = f)) ∧
    (∀ i, i < (infos.filter (preferred infos)).length →
      i < (infos.filter fun info => !preferred infos info).length →
      (∃ info, (interleave infos)[2 * i]? = some info ∧ preferred infos info = true) ∧
        ∃ info, (interleave infos)[2 * i + 1]? = some info ∧ preferred infos info = false) ∧
    (stack.map Char.toLower = "ipv4mapped6".toList → ∀ info ∈ interleave infos, info.family ≠ .inet) := by
  intro infos
  have hperm := interleave_perm infos
  have hinfos : infos = firsts AddrInfo.key (rowsOf stack found) := rfl
  refine ⟨(hperm.map _).nodup_iff.mpr (nodup_firsts _ _), fun key => ?_, ?_, fun f => ?_,
    fun i => preferred_interleave infos, fun hstack info hmem => ?_⟩
  · rw [(hperm.map _).mem_iff, hinfos, mem_map_firsts]
  · exact (head?_interleave infos).trans (head?_firsts AddrInfo.key _)
  · rw [filter_family_interleave]
    exact (firsts_sublist AddrInfo.key (rowsOf stack found)).filter _
  · have hrow := (firsts_sublist AddrInfo.key (rowsOf stack found)).subset (hperm.mem_iff.mp hmem)
    rw [rowsOf, if_pos hstack, List.mem_map] at hrow
    obtain ⟨row, -, rfl⟩ := hrow
    exact mapped_family row

/-! ## The race -/

/-- What becomes of starting a connect. -/
inductive Connect where
  /-- `socket.socket` raised: there is no socket. -/
  | unmade (errno : Nat)
  /-- An `OSError` after it. -/
  | raised (errno : Nat)
  /-- Anything else after it. -/
  | stopped
  /-- What `connect_ex` returned. -/
  | status (code : Nat)
  /-- It is under way, but `register` raises, or something does before it. -/
  | unregistered
deriving DecidableEq

/-- What one pass of the race meets. -/
structure Moment where
  now : Int
  connect : Connect
  /-- The sockets `select` reports, each with its `SO_ERROR`, or with nothing where something is
  raised behind its `unregister`; `none` where `select` raises. -/
  ready : Option (List (Nat × Option Nat))
deriving DecidableEq

inductive Event where
  | started (now : Int) (info : AddrInfo)
  | failed (info : AddrInfo) (code : Nat)
deriving DecidableEq

/-- The addresses that a connect was started for. -/
def startedIn (log : List Event) : List AddrInfo :=
  log.filterMap fun
    | .started _ info => some info
    | .failed _ _ => none

/-- The addresses that failed, each with its code. -/
def failedIn (log : List Event) : List (AddrInfo × Nat) :=
  log.filterMap fun
    | .started _ _ => none
    | .failed info code => some (info, code)

/-- `_Race`, without its deadline and its stagger, which stay. -/
structure Race where
  order : List AddrInfo
  /-- The selector's map. -/
  inflight : Assoc Nat AddrInfo
  failures : List (AddrInfo × Nat)
  nextStart : Int
  expired : Bool
  made : Nat
  closed : List Nat
  stray : List Nat
  log : List Event
deriving DecidableEq

def Race.begin (order : List AddrInfo) : Race :=
  { order := order, inflight := [], failures := [], nextStart := 0, expired := false, made := 0,
    closed := [], stray := [], log := [] }

/-- How a race ends: with a socket, and the address it is connected to; with none; or with
what it raises. -/
inductive Ending where
  | won (sock : Nat) (info : AddrInfo)
  | lost
  | stopped
deriving DecidableEq

/-- `EINPROGRESS`, `EWOULDBLOCK`, `EALREADY` and `EINTR`. -/
def IN_FLIGHT : List Nat := [115, 11, 114, 4]

def EIO : Nat := 5

/-- `exc.errno or errno.EIO`; zero is also for an error that carries none. -/
def codeOf (errno : Nat) : Nat := if errno = 0 then EIO else errno

/-- `_Race._failed`. -/
def Race.failed (s : Race) (info : AddrInfo) (code : Nat) : Race :=
  { s with failures := s.failures ++ [(info, code)], nextStart := 0, log := s.log ++ [.failed info code] }

/-- A socket more, which `close` takes back. -/
def Race.madeOne (s : Race) : Race := { s with made := s.made + 1 }

def Race.close (s : Race) (sock : Nat) : Race := { s with closed := s.closed ++ [sock] }

/-- `_Race._launch`, of the address it takes off the order. -/
def Race.launch (stagger now : Int) (connect : Connect) (info : AddrInfo) (order : List AddrInfo)
    (s : Race) : Race × Option Ending :=
  let sock := s.made
  let s := { s with order := order, log := s.log ++ [Event.started now info] }
  match connect with
  | .unmade errno => (s.failed info (codeOf errno), none)
  | .raised errno => ((s.madeOne.close sock).failed info (codeOf errno), none)
  | .stopped => (s.madeOne.close sock, some .stopped)
  | .unregistered => ({ s.madeOne with stray := s.stray ++ [sock] }, some .stopped)
  | .status code =>
    if code = 0 then (s.madeOne, some (.won sock info))
    else if code ∉ IN_FLIGHT then ((s.madeOne.close sock).failed info code, none)
    else ({ s.madeOne with
        inflight := s.inflight.set sock info
        nextStart := now + stagger }, none)

/-- `_Race._settle`, over what `select` returned: of the sockets it has registered, each once. -/
def Race.settle : List (Nat × Option Nat) → Race → Race × Option Ending
  | [], s => (s, none)
  | (sock, status) :: ready, s =>
    match s.inflight.get sock with
    | none => settle ready s
    | some info =>
      let s := { s with inflight := s.inflight.del sock }
      match status with
      | none => ({ s with stray := s.stray ++ [sock] }, some .stopped)
      | some status =>
        if status = 0 then (s, some (.won sock info))
        else settle ready ((s.close sock).failed info status)

/-- A pass of the loop of `_Race.run`. -/
def Race.turn (deadline stagger : Int) (m : Moment) (s : Race) : Race × Option Ending :=
  if deadline ≤ m.now then ({ s with expired := true }, some .lost)
  else
    let settled := match m.ready with
      | none => (s, some .stopped)
      | some ready => s.settle ready
    match s.order with
    | [] => settled
    | info :: order =>
      if s.nextStart ≤ m.now ∨ s.inflight = [] then s.launch stagger m.now m.connect info order
      else settled

/-- `_Race.run`. -/
def Race.run (deadline stagger : Int) : List Moment → Race → Race × Ending
  | [], s =>
    if s.order = [] ∧ s.inflight = [] then (s, .lost) else ({ s with expired := true }, .lost)
  | m :: world, s =>
    if s.order = [] ∧ s.inflight = [] then (s, .lost)
    else
      match s.turn deadline stagger m with
      | (s, some ending) => (s, ending)
      | (s, none) => run deadline stagger world s

/-- `_Race.abandon`: the addresses it gives up on. -/
def Race.abandon (s : Race) : Race × List AddrInfo :=
  ({ s with inflight := [], closed := s.closed ++ s.inflight.map Prod.fst }, s.inflight.map Prod.snd)

/-! ## What is kept over a race -/

/-- Every socket made is closed, in flight, or held. -/
def Race.Sockets (s : Race) (held : List Nat) : Prop :=
  (s.closed ++ (s.inflight.map Prod.fst ++ held)).Perm (List.range s.made)

/-- Every address failed, is in flight, is still to be tried, or is held. -/
def Race.Addresses (infos : List AddrInfo) (s : Race) (held : List AddrInfo) : Prop :=
  (s.failures.map Prod.fst ++ (s.inflight.map Prod.snd ++ (s.order ++ held))).Perm infos

/-- Of two connects started one after the other, with no failure between, the second waited. -/
def apart (stagger : Int) : Event → Event → Prop
  | .started t _, .started t' _ => t + stagger ≤ t'
  | _, _ => True

/-- Connects are started in time, and apart. -/
structure Paced (deadline stagger : Int) (log : List Event) : Prop where
  apart : log.IsChain (apart stagger)
  intime : ∀ t info, Event.started t info ∈ log → t < deadline

/-- The log has what failed, and the connects that were started, which are the first of the order. -/
structure Race.Logged (infos : List AddrInfo) (s : Race) : Prop where
  started : infos = startedIn s.log ++ s.order
  failed : s.failures = failedIn s.log

/-- What holds between two passes. -/
structure Race.Kept (infos : List AddrInfo) (deadline stagger : Int) (s : Race) : Prop where
  sockets : s.Sockets []
  addresses : s.Addresses infos []
  logged : s.Logged infos
  paced : Paced deadline stagger s.log
  waits : ∀ t info, s.log.getLast? = some (.started t info) → s.nextStart = t + stagger ∧ s.inflight ≠ []
  expired : s.expired = false
  none_stray : s.stray = []

/-- What holds at the end. -/
def Race.Ended (infos : List AddrInfo) (deadline stagger : Int) (s : Race) : Ending → Prop
  | .won sock info => s.Sockets [sock] ∧ s.Addresses infos [info] ∧ Paced deadline stagger s.log ∧ s.stray = []
  | .lost => s.Sockets [] ∧ s.Addresses infos [] ∧ Paced deadline stagger s.log ∧ s.stray = [] ∧
      s.Logged infos ∧ (s.expired = false → s.order = [] ∧ s.inflight = [])
  | .stopped => s.Sockets s.stray ∧ Paced deadline stagger s.log ∧ s.stray.length ≤ 1

/-- What holds after a pass. -/
def Race.After (infos : List AddrInfo) (deadline stagger : Int) : Race × Option Ending → Prop
  | (s, none) => s.Kept infos deadline stagger
  | (s, some ending) => s.Ended infos deadline stagger ending

section

variable {infos order : List AddrInfo} {deadline stagger now : Int} {s : Race} {info : AddrInfo}

theorem Race.begin_kept (infos : List AddrInfo) (deadline stagger : Int) :
    (Race.begin infos).Kept infos deadline stagger where
  sockets := List.Perm.refl _
  addresses := by simp [Addresses, begin]
  logged := ⟨rfl, rfl⟩
  paced := ⟨List.isChain_nil, fun _ _ h => by cases h⟩
  waits := fun _ _ h => by cases h
  expired := rfl
  none_stray := rfl

/-- A log goes on with an event that keeps its distance. -/
theorem Paced.snoc {log : List Event} (h : Paced deadline stagger log) {e : Event}
    (hlast : ∀ e', log.getLast? = some e' → Transport.apart stagger e' e)
    (htime : ∀ t info, e = .started t info → t < deadline) : Paced deadline stagger (log ++ [e]) where
  apart := by
    rw [List.isChain_append]
    refine ⟨h.apart, List.isChain_singleton _, fun e' he' e'' he'' => ?_⟩
    simp only [List.head?_cons, Option.mem_def, Option.some.injEq] at he''
    exact he'' ▸ hlast e' he'
  intime := fun t info ht => by
    rw [List.mem_append, List.mem_singleton] at ht
    rcases ht with ht | rfl
    · exact h.intime t info ht
    · exact htime t info rfl

/-- A failure is not kept waiting for. -/
theorem Paced.failed {log : List Event} (h : Paced deadline stagger log) (info : AddrInfo) (code : Nat) :
    Paced deadline stagger (log ++ [.failed info code]) :=
  h.snoc (fun e' _ => by cases e' <;> trivial) fun _ _ h => by cases h

theorem Race.Sockets.keys_lt {held : List Nat} (h : s.Sockets held) :
    ∀ sock ∈ s.inflight.map Prod.fst, sock < s.made := fun _ hsock =>
  List.mem_range.mp (h.mem_iff.mp (List.mem_append_right _ (List.mem_append_left _ hsock)))

theorem Race.Sockets.nodup {held : List Nat} (h : s.Sockets held) : (s.inflight.map Prod.fst).Nodup :=
  ((h.nodup_iff.mpr List.nodup_range).of_append_right).of_append_left

/-- Taking a socket out of the selector, to hold it. -/
theorem Race.Sockets.take (h : s.Sockets []) {sock : Nat} (hget : s.inflight.get sock = some info) :
    Race.Sockets { s with inflight := s.inflight.del sock } [sock] := by
  have hdel := (Assoc.perm_del h.nodup hget).map Prod.fst
  refine List.Perm.trans ?_ h
  rw [List.append_nil]
  exact ((List.perm_append_singleton _ _).trans hdel.symm).append_left _

theorem Race.Addresses.take (h : s.Addresses infos []) (hsockets : s.Sockets []) {sock : Nat}
    (hget : s.inflight.get sock = some info) :
    Race.Addresses infos { s with inflight := s.inflight.del sock } [info] := by
  have hdel := (Assoc.perm_del hsockets.nodup hget).map Prod.snd
  refine List.Perm.trans ?_ h
  refine List.Perm.append_left _ ?_
  rw [List.append_nil, ← List.append_assoc]
  exact (List.perm_append_singleton _ _).trans (hdel.symm.append_right _)

/-- Closing the socket that is held. -/
theorem Race.Sockets.close {sock : Nat} (h : s.Sockets [sock]) : (s.close sock).Sockets [] := by
  refine List.Perm.trans ?_ h
  show (s.closed ++ [sock] ++ (s.inflight.map Prod.fst ++ [])).Perm _
  rw [List.append_assoc, List.append_nil]
  exact (List.perm_append_comm).append_left _

/-- Recording that the address that is held failed. -/
theorem Race.Addresses.failed (h : s.Addresses infos [info]) (code : Nat) :
    (s.failed info code).Addresses infos [] := by
  refine List.Perm.trans ?_ h
  show ((s.failures ++ [(info, code)]).map Prod.fst ++ (s.inflight.map Prod.snd ++ (s.order ++ []))).Perm _
  rw [List.map_append, List.append_assoc, List.append_nil, ← List.append_assoc (s.inflight.map Prod.snd)]
  exact (List.perm_append_comm).append_left _

/-- A connect more, of the next address. -/
theorem Race.Logged.start (h : s.Logged infos) (horder : s.order = info :: order) (now : Int) :
    Race.Logged infos { s with order := order, log := s.log ++ [Event.started now info] } where
  started := by
    have hall := h.started
    rw [horder] at hall
    rw [hall, startedIn, startedIn, List.filterMap_append, List.append_assoc]
    rfl
  failed := by
    show s.failures = failedIn (s.log ++ _)
    rw [h.failed, failedIn, failedIn, List.filterMap_append]
    exact (List.append_nil _).symm

theorem Race.Logged.failed_one (h : s.Logged infos) (info : AddrInfo) (code : Nat) :
    (s.failed info code).Logged infos where
  started := by
    show infos = startedIn (s.log ++ _) ++ s.order
    rw [startedIn, List.filterMap_append, List.append_assoc]
    exact h.started
  failed := by
    show s.failures ++ _ = failedIn (s.log ++ _)
    rw [h.failed, failedIn, failedIn, List.filterMap_append]
    rfl

/-- An address failed, its socket is closed, and the race goes on. -/
theorem Race.Kept.of_failed (hsockets : s.Sockets []) (haddresses : s.Addresses infos [info])
    (hlogged : s.Logged infos) (hpaced : Paced deadline stagger s.log) (hexpired : s.expired = false)
    (hstray : s.stray = []) (code : Nat) : (s.failed info code).Kept infos deadline stagger where
  sockets := hsockets
  addresses := haddresses.failed code
  logged := hlogged.failed_one info code
  paced := hpaced.failed info code
  waits := fun t info' h => by
    have hlast : (s.log ++ [Event.failed info code]).getLast? = some (.started t info') := h
    rw [List.getLast?_append_of_ne_nil _ (List.cons_ne_nil _ _)] at hlast
    cases hlast
  expired := hexpired
  none_stray := hstray

/-- A socket that nobody has any more. -/
theorem Race.Sockets.strayed {sock : Nat} (h : s.Sockets [sock]) (hstray : s.stray = []) :
    Race.Sockets { s with stray := s.stray ++ [sock] } (s.stray ++ [sock]) ∧ (s.stray ++ [sock]).length ≤ 1 := by
  rw [hstray]
  exact ⟨h, Nat.le_refl 1⟩

theorem Race.settle_spec (ready : List (Nat × Option Nat)) (h : s.Kept infos deadline stagger) :
    Race.After infos deadline stagger (s.settle ready) := by
  induction ready generalizing s with
  | nil => exact h
  | cons reported ready ih =>
    obtain ⟨sock, status⟩ := reported
    rw [settle]
    split
    · exact ih h
    · next info hget =>
      have hsockets := h.sockets.take hget
      have haddresses := h.addresses.take h.sockets hget
      dsimp only
      split
      · obtain ⟨hstrayed, hone⟩ := hsockets.strayed h.none_stray
        exact ⟨hstrayed, h.paced, hone⟩
      split
      · exact ⟨hsockets, haddresses, h.paced, h.none_stray⟩
      · exact ih (Kept.of_failed hsockets.close haddresses ⟨h.logged.started, h.logged.failed⟩ h.paced h.expired
          h.none_stray _)

/-- The clock allows the next connect: it is late enough, or nothing is in flight. -/
theorem Race.Kept.start (h : s.Kept infos deadline stagger)
    (hmay : s.nextStart ≤ now ∨ s.inflight = []) (htime : now < deadline) :
    Paced deadline stagger (s.log ++ [Event.started now info]) := by
  refine h.paced.snoc (fun e' he' => ?_) fun t _ ht => ?_
  · cases e' with
    | failed => trivial
    | started t info' =>
      obtain ⟨hnext, hflying⟩ := h.waits t info' he'
      have hlate := hmay.resolve_right hflying
      show t + stagger ≤ now
      omega
  · cases ht
    exact htime

/-- A socket more, to hold. -/
theorem Race.Sockets.madeOne (h : s.Sockets []) : s.madeOne.Sockets [s.made] := by
  show (s.closed ++ (s.inflight.map Prod.fst ++ [s.made])).Perm (List.range (s.made + 1))
  rw [List.range_succ, ← List.append_assoc]
  refine List.Perm.append_right _ (List.Perm.trans ?_ h)
  rw [List.append_nil]

theorem Race.launch_spec (h : s.Kept infos deadline stagger) (horder : s.order = info :: order)
    (hmay : s.nextStart ≤ now ∨ s.inflight = []) (htime : now < deadline) (connect : Connect) :
    Race.After infos deadline stagger (s.launch stagger now connect info order) := by
  have hpaced : Paced deadline stagger (s.log ++ [Event.started now info]) := h.start hmay htime
  have hlogged := h.logged.start horder now
  have hsockets : Race.Sockets { s with order := order, log := s.log ++ [Event.started now info] } [] := h.sockets
  have haddresses :
      Race.Addresses infos { s with order := order, log := s.log ++ [Event.started now info] } [info] := by
    have hall : (s.failures.map Prod.fst ++ (s.inflight.map Prod.snd ++ (s.order ++ []))).Perm infos :=
      h.addresses
    rw [horder, List.append_nil] at hall
    refine List.Perm.trans ?_ hall
    exact ((List.perm_append_singleton _ _).append_left _).append_left _
  cases connect with
  | unmade errno => exact Kept.of_failed hsockets haddresses hlogged hpaced h.expired h.none_stray _
  | raised errno =>
    exact Kept.of_failed (s := Race.close _ s.made) hsockets.madeOne.close haddresses
      ⟨hlogged.started, hlogged.failed⟩ hpaced h.expired h.none_stray _
  | stopped =>
    refine ⟨?_, hpaced, (congrArg List.length h.none_stray).le.trans (Nat.zero_le 1)⟩
    show Race.Sockets (Race.close _ s.made) s.stray
    rw [h.none_stray]
    exact hsockets.madeOne.close
  | unregistered =>
    obtain ⟨hstrayed, hone⟩ := Race.Sockets.strayed hsockets.madeOne h.none_stray
    exact ⟨hstrayed, hpaced, hone⟩
  | status code =>
    unfold launch
    dsimp only
    split
    · exact ⟨hsockets.madeOne, haddresses, hpaced, h.none_stray⟩
    split
    · exact Kept.of_failed (s := Race.close _ s.made) hsockets.madeOne.close haddresses
        ⟨hlogged.started, hlogged.failed⟩ hpaced h.expired h.none_stray _
    · have hnew : s.inflight.get s.made = none := by
        rw [← Assoc.has_eq_false, ← Bool.not_eq_true, ← Assoc.mem_keys_iff]
        exact fun hmem => Nat.lt_irrefl _ (h.sockets.keys_lt _ hmem)
      rw [Assoc.set_of_get_none hnew]
      refine ⟨?_, ?_, ⟨hlogged.started, hlogged.failed⟩, hpaced, fun t info' hlast => ?_, h.expired, h.none_stray⟩
      · refine List.Perm.trans ?_ hsockets.madeOne
        show (s.closed ++ ((s.inflight ++ [(s.made, info)]).map Prod.fst ++ [])).Perm _
        rw [List.append_nil, List.map_append]
        exact List.Perm.refl _
      · refine List.Perm.trans ?_ haddresses
        show (s.failures.map Prod.fst ++ ((s.inflight ++ [(s.made, info)]).map Prod.snd ++ (order ++ []))).Perm _
        rw [List.append_nil, List.map_append, List.append_assoc]
        exact ((List.perm_append_comm).append_left _).append_left _
      · have hstarted : (s.log ++ [Event.started now info]).getLast? = some (.started t info') := hlast
        rw [List.getLast?_append_of_ne_nil _ (List.cons_ne_nil _ _)] at hstarted
        cases hstarted
        exact ⟨rfl, List.append_ne_nil_of_right_ne_nil _ (List.cons_ne_nil _ _)⟩

theorem Race.turn_spec (h : s.Kept infos deadline stagger) (m : Moment) :
    Race.After infos deadline stagger (s.turn deadline stagger m) := by
  unfold turn
  split
  · exact ⟨h.sockets, h.addresses, h.paced, h.none_stray, ⟨h.logged.started, h.logged.failed⟩,
      fun hno => by cases hno⟩
  next htime =>
  have hsettled : Race.After infos deadline stagger
      (match m.ready with
        | none => (s, some .stopped)
        | some ready => s.settle ready) := by
    split
    · refine ⟨?_, h.paced, (congrArg List.length h.none_stray).le.trans (Nat.zero_le 1)⟩
      rw [h.none_stray]
      exact h.sockets
    · exact settle_spec _ h
  dsimp only
  split
  · exact hsettled
  next info order horder =>
  split
  · next hmay => exact launch_spec h horder hmay (Int.not_le.mp htime) _
  · exact hsettled

theorem Race.run_spec (world : List Moment) (h : s.Kept infos deadline stagger) :
    (s.run deadline stagger world).1.Ended infos deadline stagger (s.run deadline stagger world).2 := by
  induction world generalizing s with
  | nil =>
    rw [run]
    split
    · next hdone => exact ⟨h.sockets, h.addresses, h.paced, h.none_stray, h.logged, fun _ => hdone⟩
    · exact ⟨h.sockets, h.addresses, h.paced, h.none_stray, ⟨h.logged.started, h.logged.failed⟩,
        fun hno => by cases hno⟩
  | cons m world ih =>
    have hturn := turn_spec h m
    rw [run]
    split
    · next hdone => exact ⟨h.sockets, h.addresses, h.paced, h.none_stray, h.logged, fun _ => hdone⟩
    · split
      · next hended =>
        rw [hended] at hturn
        exact hturn
      · next hon =>
        rw [hon] at hturn
        exact ih hturn

end

/-! ## The dial -/

/-- `if infos: told.append(f"{', '.join(...)}: ...")` -/
def listed (infos : List AddrInfo) (why : Text) : List Text :=
  if infos = [] then [] else [", ".toList.intercalate (infos.map addressOf) ++ why]

/-- The message of `_verdict`; `strerror` is `os.strerror`, and `budget` the timeout, printed. -/
def verdict (strerror : Nat → Text) (budget : Text) (s : Race) (pending : List AddrInfo) : Text :=
  "; ".toList.intercalate
    ((s.failures.map fun failure => addressOf failure.1 ++ (": ".toList ++ strerror failure.2)) ++
      (listed pending (": no answer within ".toList ++ budget ++ ['s']) ++
        listed s.order ": not tried in time".toList))

/-- `dial`, of the addresses in their order: the socket, with the address it is connected to. -/
def race (strerror : Nat → Text) (budget : Text) (deadline stagger : Int) (order : List AddrInfo)
    (world : List Moment) : Except DialFailure (Nat × AddrInfo) × Race :=
  let (s, ending) := (Race.begin order).run deadline stagger world
  let (after, pending) := s.abandon
  match ending with
  | .won sock info => (.ok (sock, info), after)
  | .stopped => (.error .stopped, after)
  | .lost => (.error (.dialError (verdict strerror budget s pending) s.failures s.expired), after)

/-- `dial`.  It begins at `began`, and has `timeout`. -/
def dial (lookup : Option Family → Except Text (List AddrInfo)) (strerror : Nat → Text)
    (budget host stack : Text) (began timeout stagger : Int) (world : List Moment) :
    Except DialFailure (Nat × AddrInfo) × Race :=
  match resolve printable lookup stack with
  | .error e => (.error e, Race.begin [])
  | .ok infos =>
    if interleave infos = [] then
      (.error (.dialError (host ++ " has no address in network stack ".toList ++ stack) [] false),
        Race.begin [])
    else race strerror budget (began + timeout) stagger (interleave infos) world

section

variable (strerror : Nat → Text) (budget : Text)

theorem mem_listed {infos : List AddrInfo} {info : AddrInfo} (h : info ∈ infos) (why : Text) :
    ∃ text ∈ listed infos why, addressOf info <:+: text := by
  rw [listed, if_neg (List.ne_nil_of_mem h)]
  refine ⟨_, List.mem_singleton_self _, ?_⟩
  exact (infix_intercalate (List.mem_map_of_mem h) _).trans (List.prefix_append _ _).isInfix

/-- The message names each address that failed, is given up on, or was not tried. -/
theorem addressOf_verdict {s : Race} {pending : List AddrInfo} {info : AddrInfo}
    (h : info ∈ s.failures.map Prod.fst ++ (pending ++ s.order)) :
    addressOf info <:+: verdict strerror budget s pending := by
  have hsome : ∃ text ∈ (s.failures.map fun failure => addressOf failure.1 ++
      (": ".toList ++ strerror failure.2)) ++
      (listed pending (": no answer within ".toList ++ budget ++ ['s']) ++
        listed s.order ": not tried in time".toList), addressOf info <:+: text := by
    rcases List.mem_append.mp h with hfailed | h
    · obtain ⟨failure, hmem, rfl⟩ := List.mem_map.mp hfailed
      refine ⟨addressOf failure.1 ++ (": ".toList ++ strerror failure.2), ?_,
        (List.prefix_append _ _).isInfix⟩
      exact List.mem_append_left _ (List.mem_map.mpr ⟨failure, hmem, rfl⟩)
    rcases List.mem_append.mp h with hpending | hleft
    · obtain ⟨text, hmem, htext⟩ := mem_listed hpending (": no answer within ".toList ++ budget ++ ['s'])
      exact ⟨text, List.mem_append_right _ (List.mem_append_left _ hmem), htext⟩
    · obtain ⟨text, hmem, htext⟩ := mem_listed hleft ": not tried in time".toList
      exact ⟨text, List.mem_append_right _ (List.mem_append_right _ hmem), htext⟩
  obtain ⟨text, hmem, htext⟩ := hsome
  exact htext.trans (infix_intercalate hmem _)

/-- Abandoning closes what is in flight. -/
theorem Race.Sockets.abandon {s : Race} {held : List Nat} (h : s.Sockets held) :
    (s.abandon.1.closed ++ held).Perm (List.range s.abandon.1.made) := by
  refine List.Perm.trans ?_ h
  show (s.closed ++ s.inflight.map Prod.fst ++ held).Perm _
  rw [List.append_assoc]

end

section

variable (lookup : Option Family → Except Text (List AddrInfo)) (strerror : Nat → Text)
  (budget host stack : Text) (began timeout stagger : Int) (world : List Moment)

/-- However a dial ends, no socket is left in the selector, and each it made is closed, once, but
the one it returns, and one that is nobody's where the race stopped before `register` had it, or
behind `unregister`; the connects it started were in time, and a stagger apart where none had
failed between. -/
theorem dial_sockets :
    let (result, s) := dial printable lookup strerror budget host stack began timeout stagger world
    s.inflight = [] ∧ Paced (began + timeout) stagger s.log ∧
    match result with
    | .ok (sock, _) => (s.closed ++ [sock]).Perm (List.range s.made)
    | .error e => (s.closed ++ s.stray).Perm (List.range s.made) ∧
        s.stray.length ≤ 1 ∧ (s.stray ≠ [] → e = .stopped) := by
  have hnone : Paced (began + timeout) stagger [] := ⟨List.isChain_nil, fun _ _ h => by cases h⟩
  have hstray : ∀ e : DialFailure, (([] : List Nat) ++ []).Perm (List.range 0) ∧
      ([] : List Nat).length ≤ 1 ∧ (([] : List Nat) ≠ [] → e = .stopped) := fun _ =>
    ⟨List.Perm.refl _, Nat.zero_le 1, fun h => absurd rfl h⟩
  unfold dial
  rcases resolve printable lookup stack with e | infos
  · exact ⟨rfl, hnone, hstray _⟩
  dsimp only
  by_cases hno : interleave infos = []
  · rw [if_pos hno]
    exact ⟨rfl, hnone, hstray _⟩
  rw [if_neg hno]
  have hrun := Race.run_spec world (Race.begin_kept (interleave infos) (began + timeout) stagger)
  unfold race
  rcases hend : (Race.begin (interleave infos)).run (began + timeout) stagger world with ⟨s, ending⟩
  rw [hend] at hrun
  cases ending with
  | won sock info => exact ⟨rfl, hrun.2.2.1, hrun.1.abandon⟩
  | lost =>
    obtain ⟨hsockets, -, hpaced, hnostray, -⟩ := hrun
    have hclosed : (s.abandon.1.closed ++ s.stray).Perm (List.range s.abandon.1.made) :=
      hnostray ▸ hsockets.abandon
    exact ⟨rfl, hpaced, hclosed, (congrArg List.length hnostray).le.trans (Nat.zero_le 1),
      fun h => absurd hnostray h⟩
  | stopped =>
    obtain ⟨hsockets, hpaced, hone⟩ := hrun
    exact ⟨rfl, hpaced, hsockets.abandon, hone, fun _ => rfl⟩

/-- A dial that raced connects to one of the addresses; or its error tells of each of them: of the
connects that were started, in order, of which some failed, as the error has them, and the others
had no answer; and of the addresses that are left in the order, which none was started for.  If
time did not run out then all of them failed. -/
theorem dial_names {infos : List AddrInfo} (hinfos : resolve printable lookup stack = .ok infos)
    (hne : infos ≠ []) :
    let (result, s) := dial printable lookup strerror budget host stack began timeout stagger world
    match result with
    | .ok (_, info) => info ∈ infos
    | .error (.dialError message failures timedOut) =>
        (∀ info ∈ infos, addressOf info <:+: message) ∧
        (∃ pending, message = verdict strerror budget s pending ∧
          (failures.map Prod.fst ++ pending).Perm (startedIn s.log)) ∧
        s.failures = failures ∧ failures = failedIn s.log ∧
        interleave infos = startedIn s.log ++ s.order ∧
        (timedOut = false → (failures.map Prod.fst).Perm infos)
    | .error e => e = .stopped := by
  have hperm := interleave_perm infos
  have horder : interleave infos ≠ [] := fun h => hne (List.perm_nil.mp (h ▸ hperm).symm)
  have hrun := Race.run_spec world (Race.begin_kept (interleave infos) (began + timeout) stagger)
  unfold dial
  rw [hinfos]
  dsimp only
  rw [if_neg horder]
  unfold race
  rcases hend : (Race.begin (interleave infos)).run (began + timeout) stagger world with ⟨s, ending⟩
  rw [hend] at hrun
  cases ending with
  | won sock info =>
    refine hperm.mem_iff.mp (hrun.2.1.mem_iff.mp ?_)
    simp
  | stopped => rfl
  | lost =>
    obtain ⟨-, haddresses, -, -, hlogged, hdone⟩ := hrun
    have hall : (s.failures.map Prod.fst ++ (s.inflight.map Prod.snd ++ s.order)).Perm (interleave infos) := by
      have h : (s.failures.map Prod.fst ++ (s.inflight.map Prod.snd ++ (s.order ++ []))).Perm _ := haddresses
      rw [List.append_nil] at h
      exact h
    have hstarted : (s.failures.map Prod.fst ++ s.inflight.map Prod.snd).Perm (startedIn s.log) := by
      rw [hlogged.started, ← List.append_assoc] at hall
      exact (List.perm_append_right_iff _).mp hall
    refine ⟨fun info hmem => addressOf_verdict strerror budget ((hall.trans hperm).mem_iff.mpr hmem),
      ⟨_, rfl, hstarted⟩, rfl, hlogged.failed, hlogged.started, fun hintime => ?_⟩
    obtain ⟨hleft, hflying⟩ := hdone hintime
    have hfailed := hall.trans hperm
    rw [hleft, hflying] at hfailed
    simpa using hfailed

end

/-- A host with an IPv6 address and an IPv4 one. -/
def twoRows : List AddrInfo :=
  [⟨.inet6, 1, 6, [], .inet6 "::1".toList 1094 0 0⟩, ⟨.inet, 1, 6, [], .inet "127.0.0.1".toList 1094⟩]

/-- The first refuses at once, the second does not answer in time. -/
def noAnswer : List Moment := [⟨0, .status 111, some []⟩, ⟨1, .status 115, some []⟩, ⟨5, .stopped, none⟩]

theorem dial_names_two :
    resolve (fun _ => true) (fun _ => .ok twoRows) "IPAuto".toList = .ok twoRows ∧ twoRows ≠ [] ∧
    let (result, s) := dial (fun _ => true) (fun _ => .ok twoRows) (fun _ => "refused".toList) ['5']
      "localhost".toList "IPAuto".toList 0 5 1 noAnswer
    match result with
    | .ok (_, info) => info ∈ twoRows
    | .error (.dialError message failures timedOut) =>
        (∀ info ∈ twoRows, addressOf info <:+: message) ∧
        (∃ pending, message = verdict (fun _ => "refused".toList) ['5'] s pending ∧
          (failures.map Prod.fst ++ pending).Perm (startedIn s.log)) ∧
        s.failures = failures ∧ failures = failedIn s.log ∧
        interleave twoRows = startedIn s.log ++ s.order ∧
        (timedOut = false → (failures.map Prod.fst).Perm twoRows)
    | .error e => e = .stopped :=
  have hresolve : resolve (fun _ => true) (fun _ => .ok twoRows) "IPAuto".toList = .ok twoRows := by
    decide
  have hsome : twoRows ≠ [] := List.cons_ne_nil _ _
  ⟨hresolve, hsome, dial_names (fun _ => true) (fun _ => .ok twoRows) (fun _ => "refused".toList) ['5']
    "localhost".toList "IPAuto".toList 0 5 1 noAnswer hresolve hsome⟩

end XrdClient.Transport
