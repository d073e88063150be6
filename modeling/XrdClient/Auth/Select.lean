/-
  Auth/Select.lean --- the ladder that picks between authentication mechanisms.

  Source: `auth/__init__.py` (`select` and its helpers) and `auth/base.py`.

  The mechanisms themselves read files, keyrings and a terminal; what one of
  them answers is a field of `Mechanisms`, an arbitrary function.  A credential
  is pure state between exchanges, so it is its answers to every sequence of
  challenges.  The generator `select` returns is a `Ladder`: what it has not
  tried yet, and whether it has found anything.
-/
import XrdClient.Lib.Bytes
import XrdClient.Lib.Assoc
import XrdClient.Proto.Wire

set_option autoImplicit false

namespace XrdClient.Auth

open XrdClient.Lib
open XrdClient.Proto (Raised)

/-- One `&P=name,params` clause of a `kXR_login` security trailer. -/
structure Offer where
  name : Text
  params : Text
  deriving DecidableEq

/-- `parse_security_trailer`.  A match of `&P=([^&]+)` is a piece between two
ampersands, other than the first piece, that begins with `P=` and goes on. -/
def parseSecurityTrailer (sec : Text) : List Offer :=
  (sec.splitOn '&').tail.filterMap fun piece =>
    match piece with
    | 'P' :: '=' :: c :: rest =>
        let (name, _, params) := partitionAt ',' (c :: rest)
        some ⟨strip name, strip params⟩
    | _ => none

/-- The settings the ladder and the session machine read. -/
structure Config where
  username : Text := []
  requireTls : Bool := false
  authOrder : List Text := ["gsi".toList, "ztn".toList, "krb5".toList, "sss".toList,
    "unix".toList, "host".toList]
  /-- Whether a bearer token may travel on a connection without TLS. -/
  ztnCleartext : Bool := false
  /-- Longest one `kXR_wait` is sat out, in seconds. -/
  waitCap : Int := 600

/-- One mechanism's exchange: `initial()`, `step()` after the challenges so far,
and the `session_key` they have established. -/
structure Exchange where
  initial : Except Text Bytes
  step : List Bytes → Except Text (Option Bytes)
  sessionKey : List Bytes → Option Bytes

/-- A `Credential`: its class's wire name, and one login's state. -/
structure Credential where
  name : Text
  exchange : Exchange
  /-- The challenges it has been given, oldest first. -/
  challenges : List Bytes := []

/-- `cred.session_key`. -/
def Credential.sessionKey (c : Credential) : Option Bytes := c.exchange.sessionKey c.challenges

/-- Why a mechanism was passed over. -/
inductive Why where
  /-- "{type}: {exc}", whatever raised it. -/
  | raised (text : Text)
  /-- "not supported by this client" -/
  | notSupported
  /-- The mechanism's own account of what is absent. -/
  | missing (text : Text)
  /-- "not offered on a cleartext connection - ..." -/
  | cleartext
  /-- "refused by the server: [{code}] {message}" -/
  | refused (code : Int) (message : Text)
  /-- "server asked for another round the mechanism cannot answer" -/
  | noAnswer
  deriving DecidableEq

/-- What the registered mechanisms and the person at the terminal answer. -/
structure Mechanisms where
  /-- `name in _REGISTRY`. -/
  registered : Text → Bool
  /-- `cls.available(offer, ...)`: raises, has no material, or builds one. -/
  available : Offer → Except Text (Option Exchange)
  /-- `_why_not(cls, offer, ...)`. -/
  whyNot : Offer → Text
  /-- `prompt.interactive(config)`. -/
  interactive : Bool
  /-- `_ask(ladder, cls, offer)`: an exchange, or no exchange and the verdict
  its last trial recorded, if it made one. -/
  ask : Offer → Except (Option Why) Exchange

/-- The wire name of a bearer token. -/
def ztn : Text := "ztn".toList

/-- What one `select` call climbs with. -/
structure Ladder where
  /-- The server's offers that survived filtering, by mechanism name. -/
  offers : Assoc Text Offer
  /-- The order to try them in. -/
  order : List Text
  /-- The part of `order` not tried yet. -/
  remaining : List Text
  /-- Whether a credential has been yielded. -/
  found : Bool := false
  /-- Whether the generator has nothing more to yield. -/
  finished : Bool := false

/-- How many credentials the generator can still yield, at most. -/
def Ladder.left (l : Ladder) : Nat := if l.finished then 0 else l.remaining.length + 1

/-- `{o.name: o for o in offers}`. -/
def byName (offers : List Offer) : Assoc Text Offer :=
  offers.foldl (fun d o => d.set o.name o) []

/-- `_offer_order`: the client's order first, then the server's. -/
def offerOrder (offers : List Offer) (named : Assoc Text Offer) (config : Config) : List Text :=
  offers.foldl (fun order o => if o.name ∈ order then order else order ++ [o.name])
    (config.authOrder.filter fun name => named.has name)

/-- `_withhold_cleartext_token`: drop the `ztn` rung from a cleartext connection,
saying why.  `order.remove` takes out the first occurrence. -/
def withholdCleartextToken (offers : Assoc Text Offer) (order : List Text)
    (why : Assoc Text Why) (tls : Option Bool) (config : Config) :
    Assoc Text Offer × List Text × Assoc Text Why :=
  if tls ≠ some false ∨ config.ztnCleartext = true ∨ offers.has ztn = false then
    (offers, order, why)
  else (offers.del ztn, order.erase ztn, why.set ztn .cleartext)

/-- `select(sec, config, rejected=why, tls=tls)`, up to its first `yield`. -/
def select (sec : Text) (config : Config) (why : Assoc Text Why) (tls : Option Bool) :
    Ladder × Assoc Text Why :=
  let offers := parseSecurityTrailer sec
  let named := byName offers
  let (kept, order, why') :=
    withholdCleartextToken named (offerOrder offers named config) why tls config
  (⟨kept, order, order, false, false⟩, why')

/-- `_available_credentials`: the first usable credential among `names`, the
names left behind it, and the verdicts on those passed over. -/
def availableCredential (mech : Mechanisms) (offers : Assoc Text Offer) :
    List Text → Assoc Text Why → Except Raised (Option Credential) × List Text × Assoc Text Why
  | [], why => (.ok none, [], why)
  | name :: names, why =>
      if mech.registered name then
        match offers.get name with
        | none => (.error (.keyError name), [], why)
        | some offer =>
            match mech.available offer with
            | .error text =>
                availableCredential mech offers names (why.set name (.raised text))
            | .ok none =>
                availableCredential mech offers names
                  (why.set name (.missing (mech.whyNot offer)))
            | .ok (some exchange) => (.ok (some ⟨name, exchange, []⟩), names, why.del name)
      else availableCredential mech offers names (why.set name .notSupported)

/-- `_first_prompted`: the first mechanism a prompted answer makes usable. -/
def firstPrompted (mech : Mechanisms) (offers : Assoc Text Offer) :
    List Text → Assoc Text Why → Except Raised (Option Credential) × Assoc Text Why
  | [], why => (.ok none, why)
  | name :: names, why =>
      if mech.registered name then
        match offers.get name with
        | none => (.error (.keyError name), why)
        | some offer =>
            match mech.ask offer with
            | .ok exchange => (.ok (some ⟨name, exchange, []⟩), why.del name)
            | .error none => firstPrompted mech offers names why
            | .error (some verdict) => firstPrompted mech offers names (why.set name verdict)
      else firstPrompted mech offers names why

/-- `next()` on the generator. -/
def Ladder.next (mech : Mechanisms) (l : Ladder) (why : Assoc Text Why) :
    Except Raised (Option Credential) × Ladder × Assoc Text Why :=
  if l.finished then (.ok none, l, why)
  else
    let ended : Ladder := { l with remaining := [], finished := true }
    match availableCredential mech l.offers l.remaining why with
    | (.error e, _, why') => (.error e, ended, why')
    | (.ok (some c), names, why') =>
        (.ok (some c), { l with remaining := names, found := true }, why')
    | (.ok none, _, why') =>
        -- Only with nothing to offer the server is it worth asking somebody.
        if l.found = false ∧ mech.interactive = true then
          match firstPrompted mech l.offers l.order why' with
          | (result, why'') => (result, ended, why'')
        else (.ok none, ended, why')

/-! ## What a ladder can yield -/

theorem availableCredential_offered {mech : Mechanisms} {offers : Assoc Text Offer} :
    ∀ {names : List Text} {why why' : Assoc Text Why} {c : Credential} {rest : List Text},
      availableCredential mech offers names why = (.ok (some c), rest, why') →
      offers.has c.name = true := by
  intro names
  induction names with
  | nil => intro why why' c rest h; simp [availableCredential] at h
  | cons name names ih =>
    intro why why' c rest h
    rw [availableCredential] at h
    split at h
    · split at h
      · simp at h
      · rename_i offer hoffer
        split at h
        · exact ih h
        · exact ih h
        · simp only [Prod.mk.injEq, Except.ok.injEq, Option.some.injEq] at h
          rw [← h.1]
          exact Assoc.has_eq_true.mpr ⟨offer, hoffer⟩
    · exact ih h

theorem firstPrompted_offered {mech : Mechanisms} {offers : Assoc Text Offer} :
    ∀ {names : List Text} {why why' : Assoc Text Why} {c : Credential},
      firstPrompted mech offers names why = (.ok (some c), why') →
      offers.has c.name = true := by
  intro names
  induction names with
  | nil => intro why why' c h; simp [firstPrompted] at h
  | cons name names ih =>
    intro why why' c h
    rw [firstPrompted] at h
    split at h
    · split at h
      · simp at h
      · rename_i offer hoffer
        split at h
        · simp only [Prod.mk.injEq, Except.ok.injEq, Option.some.injEq] at h
          rw [← h.1]
          exact Assoc.has_eq_true.mpr ⟨offer, hoffer⟩
        · exact ih h
        · exact ih h
    · exact ih h

/-- A credential the generator yields answers an offer the ladder kept. -/
theorem Ladder.next_offered {mech : Mechanisms} {l l' : Ladder} {why why' : Assoc Text Why}
    {c : Credential} (h : l.next mech why = (.ok (some c), l', why')) :
    l.offers.has c.name = true := by
  unfold Ladder.next at h
  split at h
  · simp at h
  · simp only at h
    split at h
    · simp at h
    · rename_i heq
      simp only [Prod.mk.injEq, Except.ok.injEq, Option.some.injEq] at h
      obtain ⟨rfl, _, _⟩ := h
      exact availableCredential_offered heq
    · split at h
      · simp only [Prod.mk.injEq] at h
        exact firstPrompted_offered (Prod.ext h.1 rfl)
      · simp at h

/-- Climbing never brings an offer back. -/
theorem Ladder.next_offers (mech : Mechanisms) (l : Ladder) (why : Assoc Text Why) :
    (l.next mech why).2.1.offers = l.offers := by
  unfold Ladder.next
  split
  · rfl
  · simp only
    split
    · rfl
    · rfl
    · split
      · rfl
      · rfl

/-- On a cleartext connection the token rung is gone, unless it was allowed. -/
theorem select_withholds (sec : Text) (config : Config) (why : Assoc Text Why)
    (hconfig : config.ztnCleartext = false) :
    (select sec config why (some false)).1.offers.has ztn = false := by
  unfold select withholdCleartextToken
  simp only [ne_eq, not_true_eq_false, hconfig, Bool.false_eq_true, false_or]
  split
  · assumption
  · simp [Assoc.has]

end XrdClient.Auth
