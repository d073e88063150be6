/-
  Session/Loans.lean --- who holds a connection, and who gives it back.

  Source: `session/router.py`, `_Loan`, `_Held`, `_abandoned`, and of `Router` whatever
  takes or lets go of a connection; `adopt`, `reap`, `acquire` and `release` of
  `session/pool.py`.

  A connection is one router's alone, or shared through a loan whose last holder gives it
  back.  A router swaps its connection out under its lock and lets go of it after that, so
  between the two there is a `Task`: first the loan's lock, then the pool's, then `close`.
  The finalizer of a router that is collected only queues what it held.  Each section that
  a lock covers is one step, and the steps of any number of threads come in any order.

  The log is who acquired, spoiled, pooled and closed what.  The pool is one bucket; under
  whose name a connection is pooled is in `Session/PoolKey`.
-/
import Mathlib

set_option autoImplicit false

namespace XrdClient.Session

/-! ## Routers, loans, and the pool -/

/-- `_Held`: a connection, and the loan it is shared through. -/
structure Held where
  session : Option Nat := none
  loan : Option Nat := none
  deriving DecidableEq

/-- A router, as far as its connection goes. -/
structure Keeper where
  held : Held := {}
  /-- The router it borrows its first connection from. -/
  lender : Option Nat := none
  lent : Bool := false
  reconnect : Bool := true
  aborted : Bool := false
  /-- It has not been collected. -/
  alive : Bool := true
  deriving DecidableEq

/-- `_Loan`. -/
structure Loan where
  session : Nat
  holders : Nat := 1
  spoiled : Bool := false
  deriving DecidableEq

/-- What a thread that has let go of a lock is about to do. -/
inductive Task where
  /-- `_let_go`. -/
  | letGo (session : Nat) (loan : Option Nat) (spoiled : Bool)
  /-- `SESSIONS.release`, and `close` if it is refused. -/
  | offer (session : Nat)
  | close (session : Nat)
  /-- `mark_broken` and `close`, of an abort. -/
  | shut (session : Nat)
  deriving DecidableEq

inductive LoanEvent where
  | acquired (session : Nat)
  /-- A holder lets go of it because it failed. -/
  | spoiled (session : Nat)
  | pooled (session : Nat)
  | closed (session : Nat)
  deriving DecidableEq

structure Fleet where
  keepers : List Keeper := []
  loans : List Loan := []
  tasks : List Task := []
  /-- The pool. -/
  idle : List Nat := []
  orphans : List (Nat × Option Nat) := []
  /-- `_borrowed`, by router. -/
  borrowed : List (Nat × Nat) := []
  closed : List Nat := []
  /-- Dead ones that the pool had, and dropped. -/
  dropped : List Nat := []
  /-- Connections that are `closed` or `broken`: lost, or aborted. -/
  dead : List Nat := []
  /-- `LocalFile`s. -/
  files : List Nat := []
  /-- How many connections there have been. -/
  made : Nat := 0
  log : List LoanEvent := []

namespace Fleet

/-- `_hold`: the loan that the connection of a router is shared through. -/
def hold (f : Fleet) (r : Nat) (k : Keeper) (session : Nat) : Nat × Fleet :=
  match k.held.loan with
  | some loan => (loan, f)
  | none =>
      (f.loans.length, { f with
        loans := f.loans ++ [{ session := session }]
        keepers := f.keepers.set r { k with held := ⟨some session, some f.loans.length⟩ } })

/-- `join`. -/
def join (f : Fleet) (l : Nat) : Fleet :=
  match f.loans[l]? with
  | some loan => { f with loans := f.loans.set l { loan with holders := loan.holders + 1 } }
  | none => f

/-- `Session.connect`. -/
def fresh (f : Fleet) : Nat × Fleet :=
  (f.made, { f with made := f.made + 1, log := f.log ++ [.acquired f.made] })

/-- A connection of the pool, or a new one. -/
def acquire (f : Fleet) (found : Option Nat) : Nat × Fleet :=
  match found with
  | some session =>
      if session ∈ f.idle then
        -- `_take` drops the dead ones it comes by
        if session ∈ f.dead then
          { f with idle := f.idle.erase session, dropped := f.dropped ++ [session] }.fresh
        else (session, { f with idle := f.idle.erase session, log := f.log ++ [.acquired session] })
      else f.fresh
  | none => f.fresh

/-- The connection of a router is swapped out, to be let go of. -/
def letGo (f : Fleet) (r : Nat) (spoiled : Bool) : Fleet :=
  match f.keepers[r]? with
  | none => f
  | some k =>
      match k.held.session with
      | none => f
      | some session =>
          { f with
            keepers := f.keepers.set r { k with held := {} }
            tasks := f.tasks ++ [.letGo session k.held.loan spoiled]
            log := if spoiled then f.log ++ [.spoiled session] else f.log }

/-! ## The operations -/

/-- `_connect` of a router that has no connection: it borrows its lender's, or dials.  The
lender's own `_connect` comes before, if it has none. -/
def dial (f : Fleet) (r : Nat) (k : Keeper) (found : Option Nat) : Fleet :=
  match k.lender with
  | none =>
      let (session, f) := f.acquire found
      { f with keepers := f.keepers.set r { k with held := ⟨some session, none⟩ } }
  | some q =>
      -- the lender is forgotten, whether or not it has something to share
      let k := { k with lender := none }
      let f := { f with keepers := f.keepers.set r k }
      match f.keepers[q]? with
      | none => f
      | some lender =>
          match lender.held.session with
          | none => f
          | some session =>
              if lender.aborted = true ∨ session ∈ f.dead then f
              else
                let (l, f) := f.hold q lender session
                let f := f.join l
                { f with keepers := f.keepers.set r { k with held := ⟨some session, some l⟩ } }

/-- `_live_session` and `_connect`: a lost connection is let go of, a missing one is
replaced, and one that was made for an aborted router is dropped. -/
def connect (f : Fleet) (r : Nat) (found : Option Nat) : Fleet :=
  match f.keepers[r]? with
  | none => f
  | some k =>
      if !k.alive then f
      else match k.held.session with
        | some session => if session ∈ f.dead ∧ k.reconnect = true then f.letGo r true else f
        | none =>
            let f := f.dial r k found
            if k.aborted then f.letGo r true else f

/-- `pin`. -/
def pin (f : Fleet) (r : Nat) (transfer : Bool) : Fleet :=
  match f.keepers[r]? with
  | none => f
  | some k =>
      match k.held.session with
      | none => { f with keepers := f.keepers ++ [{ reconnect := false }] }
      | some session =>
          if transfer || k.lent then
            { f with keepers := f.keepers.set r { k with held := {} } ++
                [{ reconnect := false, held := k.held }] }
          else
            let (l, f) := f.hold r k session
            let f := f.join l
            { f with keepers := f.keepers ++ [{ reconnect := false, held := ⟨some session, some l⟩ }] }

/-- The router is still on the connection that a request came from. -/
def isOn (f : Fleet) (r cameFrom : Nat) : Bool :=
  match f.keepers[r]? with
  | some k => decide (k.held.session = some cameFrom)
  | none => false

/-- `_go_local`: a file takes the place of the connection. -/
def goLocal (f : Fleet) (r cameFrom : Nat) : Fleet :=
  if !f.isOn r cameFrom then f
  else
    let f := f.letGo r false
    match f.keepers[r]? with
    | none => f
    | some k =>
        { f with
          keepers := f.keepers.set r { k with held := ⟨some f.made, none⟩ }
          files := f.made :: f.files
          made := f.made + 1
          log := f.log ++ [.acquired f.made] }

/-- `abort`. -/
def abort (f : Fleet) (r : Nat) : Fleet :=
  match f.keepers[r]? with
  | none => f
  | some k =>
      let links := (f.borrowed.filter (·.1 = r)).map Prod.snd ++ k.held.session.toList
      let f := { f with
        keepers := f.keepers.set r { k with aborted := true, reconnect := false }
        tasks := f.tasks ++ links.map Task.shut }
      f.letGo r true

/-- The finalizer, `_abandoned`. -/
def collect (f : Fleet) (r : Nat) : Fleet :=
  match f.keepers[r]? with
  | none => f
  | some k =>
      { f with
        keepers := f.keepers.set r { k with held := {}, alive := false }
        orphans := f.orphans ++ (k.held.session.map fun session => (session, k.held.loan)).toList }

/-- A redirected request's own connection. -/
def borrow (f : Fleet) (r : Nat) (found : Option Nat) : Fleet :=
  let (session, f) := f.acquire found
  { f with borrowed := f.borrowed ++ [(r, session)] }

/-- It is given back, and closed first if it failed. -/
def giveBack (f : Fleet) (r session : Nat) (failed : Bool) : Fleet :=
  if (r, session) ∈ f.borrowed then
    { f with
      borrowed := f.borrowed.erase (r, session)
      dead := if failed then session :: f.dead else f.dead
      tasks := f.tasks ++ [.offer session] }
  else f

/-- `leave`: the last holder gives the connection back. -/
def leave (f : Fleet) (session l : Nat) (spoiled : Bool) : Fleet :=
  match f.loans[l]? with
  | none => f
  | some loan =>
      let loan := { loan with holders := loan.holders - 1, spoiled := loan.spoiled || spoiled }
      { f with
        loans := f.loans.set l loan
        tasks := f.tasks ++ (if loan.holders = 0 then
          [if loan.spoiled then .close session else .offer session] else []) }

/-- A thread goes on.  `accepted` is whether the pool has room. -/
def perform (f : Fleet) (task : Task) (accepted : Bool) : Fleet :=
  match task with
  | .letGo session (some l) spoiled => f.leave session l spoiled
  | .letGo session none spoiled =>
      { f with tasks := f.tasks ++ [if spoiled then .close session else .offer session] }
  | .offer session =>
      if accepted = true ∧ session ∉ f.dead ∧ session ∉ f.files then
        { f with idle := f.idle ++ [session], log := f.log ++ [.pooled session] }
      else { f with tasks := f.tasks ++ [.close session] }
  | .close session => { f with closed := f.closed ++ [session], log := f.log ++ [.closed session] }
  | .shut session => { f with dead := session :: f.dead }

/-- What the threads do. -/
inductive Op where
  | router
  | lend (r : Nat)
  | connect (r : Nat) (found : Option Nat)
  | pin (r : Nat) (transfer : Bool)
  | move (r cameFrom : Nat)
  | returnHome (r : Nat) (spoiled : Bool)
  | goLocal (r cameFrom : Nat)
  | drop (r : Nat) (failed : Option Nat)
  | abort (r : Nat)
  | close (r : Nat)
  | collect (r : Nat)
  | borrow (r : Nat) (found : Option Nat)
  | giveBack (r session : Nat) (failed : Bool)
  /-- The `i`th thread that has something to let go of. -/
  | task (i : Nat) (accepted : Bool)
  /-- `reap`, of one orphan. -/
  | reap
  /-- The pool prunes. -/
  | prune (session : Nat)
  /-- A connection is lost. -/
  | lose (session : Nat)

def step (f : Fleet) : Op → Fleet
  | .router => { f with keepers := f.keepers ++ [{}] }
  | .lend r => { f with keepers := f.keepers ++ [{ lender := some r, lent := true }] }
  | .connect r found => f.connect r found
  | .pin r transfer => f.pin r transfer
  | .move r cameFrom => if f.isOn r cameFrom then f.letGo r false else f
  | .returnHome r spoiled => f.letGo r spoiled
  | .goLocal r cameFrom => f.goLocal r cameFrom
  | .drop r failed =>
      match failed with
      | some session => if f.isOn r session then f.letGo r true else f
      | none => f.letGo r true
  | .abort r => f.abort r
  | .close r => f.letGo r false
  | .collect r => f.collect r
  | .borrow r found => f.borrow r found
  | .giveBack r session failed => f.giveBack r session failed
  | .task i accepted =>
      match f.tasks[i]? with
      | some task => Fleet.perform { f with tasks := f.tasks.eraseIdx i } task accepted
      | none => f
  | .reap =>
      match f.orphans with
      | [] => f
      | (session, loan) :: rest =>
          { f with orphans := rest, tasks := f.tasks ++ [.letGo session loan false] }
  | .prune session =>
      if session ∈ f.idle then
        { f with idle := f.idle.erase session, tasks := f.tasks ++ [.close session] }
      else f
  | .lose session => { f with dead := session :: f.dead }

/-- After any operations, in any order. -/
def run (ops : List Op) : Fleet := ops.foldl step {}

end Fleet

end XrdClient.Session
