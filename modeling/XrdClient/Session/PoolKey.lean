/-
  Session/PoolKey.lean --- under whose name a connection is pooled.

  Source: `session/pool.py`, `_context`, `_state`, `_identity`, `_digest`, `_where`, `_key`.

  The key of a connection has to separate any two logins that would not be one login.
  It does so by what it hashes: the settings, the variables in `AMBIENT_ENV`, and the
  `stat` of the files that `credential_files` lists.  `SameOverlooked` is what it leaves
  to chance.  A mechanism that is not in `auth_order` is tried all the same, last, and its
  files are not in the list; a certificate or a key named with a `~` is looked for under
  that very name; and a pass phrase, the Kerberos backend, the check of a GSI server and the
  person at the terminal are not in it at all.

  What was worked out for a configuration is remembered with the list of files it was
  worked out from.  Here what is remembered is the login it was worked out for.
-/
import XrdClient.Lib.Repr
import XrdClient.Auth.Identity

set_option autoImplicit false

namespace XrdClient.Session

open XrdClient.Lib
open XrdClient.Auth

/-! ## The key -/

/-- `_context`. -/
def context (a : Login) : List Text × List (Option Text) :=
  (a.config.authOrder, AMBIENT_ENV.map a.world.env)

def optional : Option Text → PyValue
  | none => .none
  | some s => .str s

def statValue : Option Stat → PyValue
  | none => .none
  | some st => .tuple [.int st.dev, .int st.ino, .int st.size, .int st.mtime]

def stateValue (f : FileState) : PyValue := .tuple [.str f.1, statValue f.2]

def orderValue (order : List Text) : PyValue := .tuple (order.map .str)

def contextValue (ctx : List Text × List (Option Text)) : PyValue :=
  .tuple (orderValue ctx.1 :: ctx.2.map optional)

/-- The values of `_IDENTITY_FIELDS`. -/
def identityFields (c : Account) : List PyValue :=
  [.str c.username, optional c.token, optional c.tokenFile, optional c.keytab, optional c.proxy,
    optional c.caPath, optional c.caFile, orderValue c.authOrder, .bool c.verifyTls,
    .bool c.requireTls, .bool c.ztnCleartext, .bool c.gsiDelegate]

/-- What the login and the pool's memory are given, besides the calls themselves. -/
structure Hashing where
  /-- `str.isprintable`, beyond ASCII. -/
  printable : Char → Bool
  /-- The hexadecimal SHA-256 of a text. -/
  sha256 : Text → Text
  injective : Function.Injective sha256

section

variable (places : Places) (hashing : Hashing)

/-- What `_digest` hashes. -/
def digestText (a : Login) (states : List FileState) : Text :=
  (PyValue.str (userOf a.url a.config)).repr hashing.printable ++
    reprFields hashing.printable (identityFields a.config ++
      [.tuple [contextValue (context a), .tuple (states.map stateValue)]])

/-- `_digest`. -/
def digest (a : Login) (states : List FileState) : Text := hashing.sha256 (digestText hashing a states)

/-- `credential_files(config)`. -/
def filesOf (a : Login) : List Text := credentialFiles places a.config a.world

/-- `tuple(_state(path) for path in files)`. -/
def statesOf (a : Login) (files : List Text) : List FileState := files.map (stateOf a.world)

/-- `_DIGESTS`: by the config and the URL's user, the login that a digest was worked out
for. -/
abbrev Memory : Type := Assoc (Nat × Text) Login

def DIGESTS_MAX : Nat := 64

/-- What is remembered for a login, if it still holds. -/
def known (memory : Memory) (a : Login) : Option Login :=
  match memory.get (a.config.serial, a.url.username) with
  | some made =>
      if made.config.serial = a.config.serial ∧ context made = context a ∧
          statesOf a (filesOf places made) = statesOf made (filesOf places made) then some made
      else none
  | none => none

/-- `_identity`. -/
def identity (memory : Memory) (a : Login) : Text × Memory :=
  match known places memory a with
  | some made => (digest hashing made (statesOf made (filesOf places made)), memory)
  | none =>
      (digest hashing a (statesOf a (filesOf places a)),
        Assoc.set (if DIGESTS_MAX ≤ memory.length then [] else memory)
          (a.config.serial, a.url.username) a)

/-- `_where`: whether it is `roots`, the host and the port. -/
def whereOf (a : Login) : Bool × Text × Nat :=
  (a.url.useTls || a.config.requireTls, a.url.host, a.url.port)

/-- `_key`. -/
def key (memory : Memory) (a : Login) : (Bool × Text × Nat) × Text :=
  (whereOf a, (identity places hashing memory a).1)

/-- What is remembered after some calls. -/
def remembered (past : List Login) : Memory :=
  past.foldl (fun memory a => (identity places hashing memory a).2) []

end

/-! ## What the key tells -/

theorem optional_injective {u v : Option Text} (h : optional u = optional v) : u = v := by
  cases u <;> cases v
  · rfl
  · cases h
  · cases h
  · rw [PyValue.str.inj h]

theorem statValue_injective {u v : Option Stat} (h : statValue u = statValue v) : u = v := by
  cases u with
  | none =>
    cases v with
    | none => rfl
    | some st => cases h
  | some st =>
    cases v with
    | none => cases h
    | some st' =>
      simp only [statValue, PyValue.tuple.injEq, List.cons.injEq, PyValue.int.injEq, and_true,
        Nat.cast_inj] at h
      obtain ⟨hdev, hino, hsize, hmtime⟩ := h
      rw [Option.some.injEq, Stat.mk.injEq]
      exact ⟨hdev, hino, hsize, hmtime⟩

theorem stateValue_injective {f g : FileState} (h : stateValue f = stateValue g) : f = g := by
  simp only [stateValue, PyValue.tuple.injEq, List.cons.injEq, PyValue.str.injEq, and_true] at h
  exact Prod.ext h.1 (statValue_injective h.2)

theorem orderValue_injective {o o' : List Text} (h : orderValue o = orderValue o') : o = o' :=
  List.map_injective_iff.mpr (fun _ _ hstr => PyValue.str.inj hstr) (PyValue.tuple.inj h)

theorem contextValue_injective {c c' : List Text × List (Option Text)}
    (h : contextValue c = contextValue c') : c = c' := by
  simp only [contextValue, PyValue.tuple.injEq, List.cons.injEq] at h
  exact Prod.ext (orderValue_injective h.1)
    (List.map_injective_iff.mpr (fun _ _ => optional_injective) h.2)

/-- What two logins of one digest agree on. -/
structure SameHashed (a b : Login) : Prop where
  user : userOf a.url a.config = userOf b.url b.config
  token : a.config.token = b.config.token
  tokenFile : a.config.tokenFile = b.config.tokenFile
  keytab : a.config.keytab = b.config.keytab
  proxy : a.config.proxy = b.config.proxy
  caPath : a.config.caPath = b.config.caPath
  order : a.config.authOrder = b.config.authOrder
  cleartext : a.config.ztnCleartext = b.config.ztnCleartext
  delegate : a.config.gsiDelegate = b.config.gsiDelegate
  env : ∀ name ∈ AMBIENT_ENV, a.world.env name = b.world.env name

/-- **A digest tells what was hashed.** -/
theorem digest_injective {hashing : Hashing} {a b : Login} {states states' : List FileState}
    (h : digest hashing a states = digest hashing b states') : SameHashed a b ∧ states = states' := by
  have htext := hashing.injective h
  obtain ⟨huser, hfields⟩ := reprFields_injective hashing.printable (by simp [identityFields]) htext
  simp only [identityFields, List.cons_append, List.nil_append, List.cons.injEq, PyValue.str.injEq,
    PyValue.bool.injEq, PyValue.tuple.injEq, and_true] at hfields
  obtain ⟨-, htoken, htokenFile, hkeytab, hproxy, hcaPath, -, horder, -, -, hcleartext, hdelegate,
    hcontext, hstates⟩ := hfields
  have henv := (Prod.ext_iff.mp (contextValue_injective hcontext)).2
  refine ⟨⟨PyValue.str.inj huser, optional_injective htoken, optional_injective htokenFile,
    optional_injective hkeytab, optional_injective hproxy, optional_injective hcaPath,
    orderValue_injective horder, hcleartext, hdelegate, ?_⟩,
    List.map_injective_iff.mpr (fun _ _ => stateValue_injective) hstates⟩
  intro name hname
  exact List.map_inj_left.mp henv name hname

/-! ## What it was worked out from -/

section

variable {places : Places} {hashing : Hashing}

/-- Configurations are frozen, but for the list `auth_order`: of one object, every call
sees the same settings. -/
def Frozen (logins : List Login) : Prop :=
  ∀ a ∈ logins, ∀ b ∈ logins, a.config.serial = b.config.serial →
    { a.config with authOrder := [] } = { b.config with authOrder := [] }

/-- The login that the digest of a login was worked out for. -/
def basis (places : Places) (memory : Memory) (a : Login) : Login := (known places memory a).getD a

/-- What is remembered was asked for, and is where it is looked for. -/
theorem remembered_get : ∀ (past : List Login) {k : Nat × Text} {made : Login},
    (remembered places hashing past).get k = some made →
    made ∈ past ∧ k = (made.config.serial, made.url.username) := by
  have hstep : ∀ (past : List Login) (memory : Memory) (seen : List Login),
      (∀ k made, memory.get k = some made → made ∈ seen ∧ k = (made.config.serial, made.url.username)) →
      ∀ k made, (past.foldl (fun memory a => (identity places hashing memory a).2) memory).get k =
        some made → made ∈ seen ++ past ∧ k = (made.config.serial, made.url.username) := by
    intro past
    induction past with
    | nil => intro memory seen h k made hget; simpa using h k made hget
    | cons a past ih =>
      intro memory seen h k made hget
      have hnext : ∀ k made, (identity places hashing memory a).2.get k = some made →
          made ∈ seen ++ [a] ∧ k = (made.config.serial, made.url.username) := by
        intro k made hget
        have hold : ∀ k made, memory.get k = some made →
            made ∈ seen ++ [a] ∧ k = (made.config.serial, made.url.username) := fun k made hget =>
          ⟨List.mem_append_left _ (h k made hget).1, (h k made hget).2⟩
        unfold identity at hget
        split at hget
        · exact hold k made hget
        · rw [Assoc.get_set] at hget
          split at hget
          · next hk =>
            obtain rfl := Option.some.inj hget
            exact ⟨List.mem_append_right _ List.mem_cons_self, hk⟩
          · split at hget
            · cases hget
            · exact hold k made hget
      have hrest := ih _ (seen ++ [a]) hnext k made hget
      rw [List.append_assoc] at hrest
      exact hrest
  intro past k made hget
  have h := hstep past [] [] (fun k made hget => by cases hget) k made hget
  simpa using h

theorem context_order {a b : Login} (h : context a = context b) : a.config.authOrder = b.config.authOrder :=
  congrArg Prod.fst h

/-- A digest is over the settings of its login and the files of its basis, as they are
now. -/
theorem identity_eq {past : List Login} {a : Login} (hfrozen : Frozen (a :: past)) :
    (identity places hashing (remembered places hashing past) a).1 =
      digest hashing a
        (statesOf a (filesOf places (basis places (remembered places hashing past) a))) := by
  unfold identity basis
  cases hknown : known places (remembered places hashing past) a with
  | none => rfl
  | some made =>
    unfold known at hknown
    split at hknown
    · next found hget =>
      split at hknown
      · next hvalid =>
        obtain rfl := Option.some.inj hknown
        obtain ⟨hserial, hcontext, hstates⟩ := hvalid
        obtain ⟨hmem, hkey⟩ := remembered_get past hget
        have hfields := hfrozen found (List.mem_cons_of_mem _ hmem) a List.mem_cons_self hserial
        have horder := context_order hcontext
        have hconfig : found.config = a.config := by
          rw [show found.config = { { found.config with authOrder := [] } with
            authOrder := found.config.authOrder } from rfl, hfields, horder]
        have husername : found.url.username = a.url.username := (Prod.mk.inj hkey).2.symm
        simp only [Option.getD_some, digest, digestText, hcontext, hconfig, userOf, husername, hstates]
      · cases hknown
    · cases hknown

/-! ## The files of a mechanism -/

/-- The files that a mechanism reads, in the state they are in. -/
def reads (places : Places) (m : Text) (a : Login) : List FileState :=
  if m = sss then [stateOf a.world (defaultKeytabPath places a.config a.world)]
  else if m = ztn then
    if truthy a.config.token then [] else (tokenFiles places a.config a.world).map fun p => stateOf a.world p.1
  else if m = gsi then
    if wanted places a.config a.world then
      [stateOf a.world (expanduser places a.world (a.config.usercert.getD [])),
        stateOf a.world (expanduser places a.world (a.config.userkey.getD []))]
    else [stateOf a.world (defaultProxyPath places a.config a.world)]
  else if m = krb5 then (ccacheFiles places a.world).map (stateOf a.world)
  else []

/-- A name that does not begin with a `~`. -/
def plain (path : Option Text) : Bool := decide ((path.getD []).head? ≠ some '~')

/-- Whether the files of a mechanism are among those that the key is made of. -/
def inKey (places : Places) (m : Text) (a : Login) : Bool :=
  if m = gsi then
    if wanted places a.config a.world then plain a.config.usercert && plain a.config.userkey
    else ranked a.config gsi || truthy a.config.proxy
  else ranked a.config m

/-- The list of files that the key was made over is the one that it would be now. -/
def Fresh (places : Places) (memory : Memory) (a : Login) : Prop :=
  filesOf places (basis places memory a) = filesOf places a

/-- What two logins have to agree on, besides their keys: the state of the files that the
key is not made of, and what it does not look at. -/
structure SameOverlooked (places : Places) (memory memory' : Memory) (a b : Login) : Prop where
  files : ∀ m ∈ reading,
    (inKey places m a = true ∧ inKey places m b = true ∧ Fresh places memory a ∧ Fresh places memory' b) ∨
      reads places m a = reads places m b
  phrase : wanted places a.config a.world = true →
    passPhrase a.config a.world = passPhrase b.config b.world
  backend : backend a.world = backend b.world
  check : serverCheck places a.config a.world = serverCheck places b.config b.world
  person : interactive a.config a.world = interactive b.config b.world
  prompted : interactive a.config a.world = true → ∀ m, askable m = true → ∀ answer, answer ≠ [] →
    a.prompted places m answer = b.prompted places m answer

/-! ## The files of the key -/

variable {a b : Login}

theorem SameHashed.ranked (h : SameHashed a b) (m : Text) : ranked a.config m = ranked b.config m := by
  simp only [Auth.ranked, h.order]

theorem SameHashed.tokenFiles (h : SameHashed a b) :
    tokenFiles places a.config a.world = tokenFiles places b.config b.world := by
  simp only [Auth.tokenFiles, h.tokenFile, h.env BEARER_TOKEN_FILE (by decide),
    h.env XDG_RUNTIME_DIR (by decide)]

theorem SameHashed.proxyPath (h : SameHashed a b) :
    defaultProxyPath places a.config a.world = defaultProxyPath places b.config b.world := by
  simp only [defaultProxyPath, h.proxy, h.env X509_USER_PROXY (by decide)]

theorem SameHashed.ccacheName (h : SameHashed a b) (places : Places) :
    places.ccacheName (a.world.env KRB5CCNAME) (a.world.env KRB5_CONFIG) =
      places.ccacheName (b.world.env KRB5CCNAME) (b.world.env KRB5_CONFIG) := by
  rw [h.env KRB5CCNAME (by decide), h.env KRB5_CONFIG (by decide)]

/-- The user certificate and key, as the key has them. -/
def pairFiles (c : Account) : List Text :=
  if truthy c.usercert && truthy c.userkey && !truthy c.proxy then
    [c.usercert.getD [], c.userkey.getD []] else []

/-- The token files, as the key has them. -/
def tokenPart (places : Places) (a : Login) : List Text :=
  if ranked a.config ztn && !truthy a.config.token then
    (tokenFiles places a.config a.world).map Prod.fst else []

def proxyPart (places : Places) (a : Login) : List Text :=
  if ranked a.config gsi || truthy a.config.proxy then
    [defaultProxyPath places a.config a.world] else []

def keytabPart (places : Places) (a : Login) : List Text :=
  if ranked a.config sss then [defaultKeytabPath places a.config a.world] else []

def cachePart (places : Places) (a : Login) : List Text :=
  if ranked a.config krb5 then ccacheFiles places a.world else []

theorem filesOf_eq (a : Login) : filesOf places a =
    tokenPart places a ++ (proxyPart places a ++
      (pairFiles a.config ++ (keytabPart places a ++ cachePart places a))) := by
  simp only [filesOf, credentialFiles, x509Files, tokenPart, proxyPart, pairFiles, keytabPart,
    cachePart, List.append_assoc]

/-- Of one cache name and one pointer, one cache. -/
theorem ccacheFiles_eq (h : SameHashed a b)
    (hprimary : ∀ q, primaryOf (places.ccacheName (a.world.env KRB5CCNAME) (a.world.env KRB5_CONFIG)) = some q →
      a.world.stat q = b.world.stat q) : ccacheFiles places a.world = ccacheFiles places b.world := by
  have hname := h.ccacheName places
  unfold ccacheFiles
  dsimp only
  rw [← hname]
  cases hq : primaryOf (places.ccacheName (a.world.env KRB5CCNAME) (a.world.env KRB5_CONFIG)) with
  | none => rfl
  | some q =>
    have hstate : stateOf a.world q = stateOf b.world q := by rw [stateOf, stateOf, hprimary q hq]
    simp only [Option.map_some, hstate]

/-- A cache of another length is one of another pointer, and the pointer is in the list. -/
theorem ccacheFiles_length (h : SameHashed a b)
    (hlen : (ccacheFiles places a.world).length ≠ (ccacheFiles places b.world).length) :
    ∃ q, (q ∈ ccacheFiles places a.world ∨ q ∈ ccacheFiles places b.world) ∧
      a.world.stat q ≠ b.world.stat q := by
  by_contra hnone
  push Not at hnone
  refine hlen (congrArg List.length (ccacheFiles_eq h fun q hq => ?_))
  have hname := h.ccacheName places
  have hmem : ∀ w : World, places.ccacheName (w.env KRB5CCNAME) (w.env KRB5_CONFIG) =
      places.ccacheName (a.world.env KRB5CCNAME) (a.world.env KRB5_CONFIG) →
      ccacheFiles places w ≠ [] → q ∈ ccacheFiles places w := by
    intro w hw hne
    unfold ccacheFiles at hne ⊢
    dsimp only at hne ⊢
    rw [hw, hq] at hne ⊢
    split at hne
    · exact absurd rfl hne
    · simp
  by_cases ha : ccacheFiles places a.world = []
  · by_cases hb : ccacheFiles places b.world = []
    · rw [ha, hb] at hlen
      exact absurd rfl hlen
    · exact hnone q (.inr (hmem b.world hname.symm hb))
  · exact hnone q (.inl (hmem a.world rfl ha))

/-- A file that is in both lists of states is in one state. -/
theorem stat_of_mem {files files' : List Text} (h : statesOf a files = statesOf b files') {q : Text}
    (hq : q ∈ files ∨ q ∈ files') : a.world.stat q = b.world.stat q := by
  rcases hq with hq | hq
  · have hmem : stateOf a.world q ∈ statesOf b files' := h ▸ List.mem_map_of_mem hq
    obtain ⟨p, -, hp⟩ := List.mem_map.mp hmem
    obtain ⟨rfl, hstat⟩ := Prod.mk.inj hp
    exact hstat.symm
  · have hmem : stateOf b.world q ∈ statesOf a files := h.symm ▸ List.mem_map_of_mem hq
    obtain ⟨p, -, hp⟩ := List.mem_map.mp hmem
    obtain ⟨rfl, hstat⟩ := Prod.mk.inj hp
    exact hstat

/-- What the equal states of two lists of files say, part by part. -/
structure SameStates (places : Places) (a b : Login) : Prop where
  token : statesOf a (tokenPart places a) = statesOf b (tokenPart places b)
  proxy : statesOf a (proxyPart places a) = statesOf b (proxyPart places b)
  pair : statesOf a (pairFiles a.config) = statesOf b (pairFiles b.config)
  keytab : statesOf a (keytabPart places a) = statesOf b (keytabPart places b)
  cache : statesOf a (cachePart places a) = statesOf b (cachePart places b)

/-- **The list can be taken apart.**  Every part but two is of one length in both logins;
the cache may have another length only with another pointer, which would be in the list,
and so the pair has one length as well. -/
theorem sameStates (h : SameHashed a b)
    (hstates : statesOf a (filesOf places a) = statesOf b (filesOf places b)) :
    SameStates places a b := by
  have htoken : tokenPart places a = tokenPart places b := by
    simp only [tokenPart, h.ranked, h.token, h.tokenFiles]
  have hproxy : proxyPart places a = proxyPart places b := by
    simp only [proxyPart, h.ranked, h.proxy, h.proxyPath]
  have hkeytab : (keytabPart places a).length = (keytabPart places b).length := by
    simp only [keytabPart, h.ranked]
    split <;> rfl
  have hcache : (cachePart places a).length = (cachePart places b).length := by
    by_cases hkrb5 : ranked b.config krb5 = true
    · by_contra hlen
      have ha : cachePart places a = ccacheFiles places a.world := by
        rw [cachePart, h.ranked krb5, if_pos hkrb5]
      have hb : cachePart places b = ccacheFiles places b.world := if_pos hkrb5
      rw [ha, hb] at hlen
      obtain ⟨q, hq, hne⟩ := ccacheFiles_length h hlen
      refine hne (stat_of_mem hstates ?_)
      rw [filesOf_eq a, filesOf_eq b, ha, hb]
      simp only [List.mem_append]
      rcases hq with hq | hq
      · exact .inl (.inr (.inr (.inr (.inr hq))))
      · exact .inr (.inr (.inr (.inr (.inr hq))))
    · simp [cachePart, h.ranked krb5, hkrb5]
  have hlength := congrArg List.length hstates
  simp only [statesOf, List.length_map, filesOf_eq, List.length_append, htoken, hproxy, hkeytab,
    hcache] at hlength
  rw [filesOf_eq a, filesOf_eq b] at hstates
  simp only [statesOf, List.map_append] at hstates
  obtain ⟨h₁, hrest⟩ := List.append_inj hstates (by simp [htoken])
  obtain ⟨h₂, hrest⟩ := List.append_inj hrest (by simp [hproxy])
  obtain ⟨h₃, hrest⟩ := List.append_inj hrest (by simp only [List.length_map]; omega)
  obtain ⟨h₄, h₅⟩ := List.append_inj hrest (by simp [hkeytab])
  exact ⟨h₁, h₂, h₃, h₄, h₅⟩

theorem orElse_getD {u : Option Text} (h : truthy u = true) : u = some (u.getD []) := by
  cases u with
  | none => cases h
  | some s => rfl

/-- With the pair in the key, both logins present it, or neither. -/
theorem SameStates.wanted (h : SameHashed a b) (hs : SameStates places a b) :
    wanted places a.config a.world = wanted places b.config b.world := by
  have hnone : ∀ c : Account, ∀ w : World, pairFiles c = [] → Auth.wanted places c w = false := by
    intro c w hpair
    cases hw : Auth.wanted places c w with
    | false => rfl
    | true =>
      obtain ⟨hcert, hkey, hproxy⟩ := places.wanted_pair _ _ _ _ hw
      simp [pairFiles, hcert, hkey, hproxy] at hpair
  have hpair := hs.pair
  by_cases ha : pairFiles a.config = []
  · rw [ha] at hpair
    have hb : pairFiles b.config = [] := List.map_eq_nil_iff.mp hpair.symm
    rw [hnone _ _ ha, hnone _ _ hb]
  · have hpaths : pairFiles a.config = pairFiles b.config := by
      have hfst := congrArg (List.map Prod.fst) hpair
      simpa [statesOf, stateOf, Function.comp_def] using hfst
    have hb : pairFiles b.config ≠ [] := hpaths ▸ ha
    unfold pairFiles at ha hb hpaths
    split at ha
    · next hca =>
      split at hb
      · next hcb =>
        rw [if_pos hca, if_pos hcb] at hpaths
        simp only [List.cons.injEq, and_true] at hpaths
        simp only [Bool.and_eq_true] at hca hcb
        have hcert : a.config.usercert = b.config.usercert := by
          rw [orElse_getD hca.1.1, orElse_getD hcb.1.1, hpaths.1]
        have hkey : a.config.userkey = b.config.userkey := by
          rw [orElse_getD hca.1.2, orElse_getD hcb.1.2, hpaths.2]
        simp only [Auth.wanted, hcert, hkey, h.proxy, h.env X509_USER_PROXY (by decide)]
      · exact absurd rfl hb
    · exact absurd rfl ha

theorem expanduser_plain (w : World) {path : Option Text} (h : plain path = true) :
    expanduser places w (path.getD []) = path.getD [] := by
  unfold expanduser
  split
  · next rest heq =>
    rw [plain, heq] at h
    simp at h
  · rfl

/-! ## What the key settles -/

theorem reads_sss (a : Login) :
    reads places sss a = [stateOf a.world (defaultKeytabPath places a.config a.world)] := if_pos rfl

theorem reads_ztn (a : Login) : reads places ztn a =
    if truthy a.config.token then []
    else (tokenFiles places a.config a.world).map fun p => stateOf a.world p.1 := by
  rw [reads, if_neg (by decide), if_pos rfl]

theorem reads_gsi (a : Login) : reads places gsi a =
    if wanted places a.config a.world then
      [stateOf a.world (expanduser places a.world (a.config.usercert.getD [])),
        stateOf a.world (expanduser places a.world (a.config.userkey.getD []))]
    else [stateOf a.world (defaultProxyPath places a.config a.world)] := by
  rw [reads, if_neg (by decide), if_neg (by decide), if_pos rfl]

theorem reads_krb5 (a : Login) :
    reads places krb5 a = (ccacheFiles places a.world).map (stateOf a.world) := by
  rw [reads, if_neg (by decide), if_neg (by decide), if_neg (by decide), if_pos rfl]

theorem inKey_gsi (a : Login) : inKey places gsi a =
    if wanted places a.config a.world then plain a.config.usercert && plain a.config.userkey
    else ranked a.config gsi || truthy a.config.proxy := if_pos rfl

theorem inKey_ranked {m : Text} (hm : m ≠ gsi) (a : Login) : inKey places m a = ranked a.config m :=
  if_neg hm

/-- The pair that is presented is the pair in the key, if no `~` has to be expanded. -/
theorem SameStates.pair_reads (hs : SameStates places a b)
    (ha : Auth.wanted places a.config a.world = true) (hb : Auth.wanted places b.config b.world = true)
    (hpa : plain a.config.usercert = true ∧ plain a.config.userkey = true)
    (hpb : plain b.config.usercert = true ∧ plain b.config.userkey = true) :
    reads places gsi a = reads places gsi b := by
  have hpaths : ∀ c : Account, ∀ w : World, Auth.wanted places c w = true →
      pairFiles c = [c.usercert.getD [], c.userkey.getD []] := by
    intro c w hw
    obtain ⟨hcert, hkey, hproxy⟩ := places.wanted_pair _ _ _ _ hw
    simp [pairFiles, hcert, hkey, hproxy]
  have hpair := hs.pair
  rw [hpaths _ _ ha, hpaths _ _ hb] at hpair
  rw [reads_gsi, reads_gsi, if_pos ha, if_pos hb, expanduser_plain _ hpa.1, expanduser_plain _ hpa.2,
    expanduser_plain _ hpb.1, expanduser_plain _ hpb.2]
  exact hpair

/-- **What is in the key is read alike.** -/
theorem SameStates.reads (h : SameHashed a b) (hs : SameStates places a b) {m : Text}
    (hm : m ∈ reading) (ha : inKey places m a = true) (hb : inKey places m b = true) :
    Session.reads places m a = Session.reads places m b := by
  simp only [reading, List.mem_cons, List.not_mem_nil, or_false] at hm
  rcases hm with rfl | rfl | rfl | rfl
  · rw [inKey_ranked (by decide)] at ha hb
    have hkeytab := hs.keytab
    rw [keytabPart, keytabPart, if_pos ha, if_pos hb] at hkeytab
    rw [reads_sss, reads_sss]
    exact hkeytab
  · rw [inKey_ranked (by decide)] at ha hb
    rw [reads_ztn, reads_ztn, h.token]
    split
    · rfl
    · next htoken =>
      have hsearch := hs.token
      have hnot : truthy b.config.token = false := by simpa using htoken
      rw [tokenPart, tokenPart, ha, hb, h.token, hnot] at hsearch
      simpa [statesOf, Function.comp_def] using hsearch
  · have hwanted := hs.wanted h
    rw [inKey_gsi] at ha hb
    by_cases hw : Auth.wanted places a.config a.world = true
    · have hw' : Auth.wanted places b.config b.world = true := hwanted ▸ hw
      rw [if_pos hw, Bool.and_eq_true] at ha
      rw [if_pos hw', Bool.and_eq_true] at hb
      exact hs.pair_reads hw hw' ha hb
    · have hw' : ¬ Auth.wanted places b.config b.world = true := hwanted ▸ hw
      rw [if_neg hw] at ha
      rw [if_neg hw'] at hb
      have hproxy := hs.proxy
      rw [proxyPart, proxyPart, if_pos ha, if_pos hb] at hproxy
      rw [reads_gsi, reads_gsi, if_neg hw, if_neg hw']
      exact hproxy
  · rw [inKey_ranked (by decide)] at ha hb
    have hcache := hs.cache
    rw [cachePart, cachePart, if_pos ha, if_pos hb] at hcache
    rw [reads_krb5, reads_krb5]
    exact hcache

/-! ## What the mechanisms find -/

theorem material_sss (a : Login) : a.material places sss =
    .keytab (stateOf a.world (defaultKeytabPath places a.config a.world)) (userOf a.url a.config) := by
  rw [Login.material, Auth.material, if_pos rfl]

theorem material_ztn (a : Login) : a.material places ztn =
    if truthy a.config.token then .token (a.config.token.getD [])
    else .search (places.explicitTokenFile a.config.tokenFile (a.world.env BEARER_TOKEN_FILE))
      (a.world.env BEARER_TOKEN)
      ((tokenFiles places a.config a.world).map fun p => (stateOf a.world p.1, p.2)) := by
  rw [Login.material, Auth.material, if_neg (by decide), if_pos rfl]

theorem material_gsi (a : Login) : a.material places gsi =
    if wanted places a.config a.world then
      .pair (stateOf a.world (expanduser places a.world (a.config.usercert.getD [])))
        (stateOf a.world (expanduser places a.world (a.config.userkey.getD [])))
        (passPhrase a.config a.world) a.config.gsiDelegate a.config.caPath
        (serverCheck places a.config a.world)
    else .proxy (stateOf a.world (defaultProxyPath places a.config a.world))
      (truthy a.config.proxy || truthy (a.world.env X509_USER_PROXY)) a.config.gsiDelegate
      a.config.caPath (serverCheck places a.config a.world) := by
  rw [Login.material, Auth.material, if_neg (by decide), if_neg (by decide), if_pos rfl]

theorem material_krb5 (a : Login) : a.material places krb5 =
    .ticket (a.world.env KRB5CCNAME) (a.world.env KRB5_CONFIG) (Auth.backend a.world)
      ((ccacheFiles places a.world).map (stateOf a.world)) := by
  rw [Login.material, Auth.material, if_neg (by decide), if_neg (by decide), if_neg (by decide),
    if_pos rfl]

/-- A keytab is found as it is read. -/
theorem SameHashed.sss_iff (h : SameHashed a b) :
    a.material places sss = b.material places sss ↔ reads places sss a = reads places sss b := by
  rw [material_sss, material_sss, reads_sss, reads_sss, h.user]
  simp

/-- The search for a token is over one list of names, with one mark each. -/
theorem SameHashed.ztn_iff (h : SameHashed a b) :
    a.material places ztn = b.material places ztn ↔ reads places ztn a = reads places ztn b := by
  rw [material_ztn, material_ztn, reads_ztn, reads_ztn, h.token, h.tokenFile, h.tokenFiles,
    h.env BEARER_TOKEN (by decide), h.env BEARER_TOKEN_FILE (by decide)]
  split
  · simp
  · simp only [Material.search.injEq, true_and, List.map_inj_left, Prod.mk.injEq, and_true]

/-- A pair is two files, a proxy is one. -/
theorem SameHashed.gsi_iff (h : SameHashed a b) :
    a.material places gsi = b.material places gsi ↔
      reads places gsi a = reads places gsi b ∧
        (Auth.wanted places a.config a.world = true →
          passPhrase a.config a.world = passPhrase b.config b.world) ∧
        serverCheck places a.config a.world = serverCheck places b.config b.world := by
  rw [material_gsi, material_gsi, reads_gsi, reads_gsi, h.delegate, h.caPath, h.proxy,
    h.env X509_USER_PROXY (by decide)]
  by_cases ha : Auth.wanted places a.config a.world = true <;>
    by_cases hb : Auth.wanted places b.config b.world = true
  · simp only [ha, hb, if_true, Material.pair.injEq, List.cons.injEq, and_true, true_and, true_imp_iff,
      and_assoc]
  · simp [if_pos ha, if_neg hb]
  · simp [if_neg ha, if_pos hb]
  · simp only [if_neg ha, if_neg hb, Material.proxy.injEq, List.cons.injEq, and_true, true_and]
    simp [ha]

theorem SameHashed.krb5_iff (h : SameHashed a b) :
    a.material places krb5 = b.material places krb5 ↔
      reads places krb5 a = reads places krb5 b ∧ Auth.backend a.world = Auth.backend b.world := by
  rw [material_krb5, material_krb5, reads_krb5, reads_krb5, h.env KRB5CCNAME (by decide),
    h.env KRB5_CONFIG (by decide)]
  simp only [Material.ticket.injEq, true_and]
  exact and_comm

/-- **What two logins of one digest find is what they read**, and what is no file. -/
theorem SameHashed.findings_iff (h : SameHashed a b) :
    SameFindings places a b ↔
      (∀ m ∈ reading, reads places m a = reads places m b) ∧
      (Auth.wanted places a.config a.world = true →
        passPhrase a.config a.world = passPhrase b.config b.world) ∧
      Auth.backend a.world = Auth.backend b.world ∧
      serverCheck places a.config a.world = serverCheck places b.config b.world ∧
      interactive a.config a.world = interactive b.config b.world ∧
      (interactive a.config a.world = true → ∀ m, askable m = true → ∀ answer, answer ≠ [] →
        a.prompted places m answer = b.prompted places m answer) := by
  constructor
  · intro hfound
    have hgsi := h.gsi_iff.mp (hfound.material gsi)
    have hkrb5 := h.krb5_iff.mp (hfound.material krb5)
    refine ⟨?_, hgsi.2.1, hkrb5.2, hgsi.2.2, hfound.person, hfound.prompted⟩
    intro m hm
    simp only [reading, List.mem_cons, List.not_mem_nil, or_false] at hm
    rcases hm with rfl | rfl | rfl | rfl
    · exact h.sss_iff.mp (hfound.material sss)
    · exact h.ztn_iff.mp (hfound.material ztn)
    · exact hgsi.1
    · exact hkrb5.1
  · rintro ⟨hreads, hphrase, hbackend, hcheck, hperson, hprompted⟩
    refine ⟨?_, hperson, hprompted⟩
    intro m
    by_cases hm : m ∈ reading
    · have hread := hreads m hm
      simp only [reading, List.mem_cons, List.not_mem_nil, or_false] at hm
      rcases hm with rfl | rfl | rfl | rfl
      · exact h.sss_iff.mpr hread
      · exact h.ztn_iff.mpr hread
      · exact h.gsi_iff.mpr ⟨hread, hphrase, hcheck⟩
      · exact h.krb5_iff.mpr ⟨hread, hbackend⟩
    · rw [Login.material, Login.material, material_nothing hm, material_nothing hm]

/-- **Whom a pooled connection may be handed to.**  Two logins of one key, each after any
calls, are one login exactly if they agree on what the key overlooks. -/
theorem same_login_iff_overlooked {past later : List Login}
    (hfrozen : Frozen (a :: past)) (hfrozen' : Frozen (b :: later))
    (hkey : key places hashing (remembered places hashing past) a =
      key places hashing (remembered places hashing later) b) :
    SameLogin places a b ↔
      SameOverlooked places (remembered places hashing past) (remembered places hashing later) a b := by
  have hdigest := (Prod.mk.inj hkey).2
  rw [identity_eq hfrozen, identity_eq hfrozen'] at hdigest
  obtain ⟨h, hstates⟩ := digest_injective hdigest
  have hsame : SameLogin places a b ↔ SameFindings places a b :=
    ⟨SameLogin.sameFindings, fun hfound => hfound.sameLogin h.order h.cleartext h.user⟩
  rw [hsame, h.findings_iff]
  constructor
  · rintro ⟨hreads, hphrase, hbackend, hcheck, hperson, hprompted⟩
    exact ⟨fun m hm => .inr (hreads m hm), hphrase, hbackend, hcheck, hperson, hprompted⟩
  · intro hover
    refine ⟨?_, hover.phrase, hover.backend, hover.check, hover.person, hover.prompted⟩
    intro m hm
    rcases hover.files m hm with ⟨ha, hb, hfresh, hfresh'⟩ | hreads
    · rw [hfresh, hfresh'] at hstates
      exact (sameStates h hstates).reads h hm ha hb
    · exact hreads

end

/-- Where things are for a user 1000 of `/home/u`. -/
def usual : Places where
  explicitTokenFile := fun file env => if truthy file && file ≠ env then file else none
  tokenFiles := fun env dir explicit =>
    (explicit.toList ++ (if truthy env then env.toList else [])).map (·, false) ++
      (if truthy dir then [(joinPath (dir.getD []) "bt_u1000".toList, true)] else []) ++
      [("/tmp/bt_u1000".toList, true)]
  defaultProxyPath := fun env => orElse env "/tmp/x509up_u1000".toList
  wanted := fun cert key proxy env => truthy cert && truthy key && !truthy proxy && !truthy env
  wanted_pair := by
    intro cert key proxy env h
    simp only [Bool.and_eq_true, Bool.not_eq_true'] at h
    exact ⟨h.1.1.1, h.1.1.2, h.1.2⟩
  ccacheName := fun env _ => orElse env "FILE:/tmp/krb5cc_1000".toList
  resolveCcache := fun name _ => some (partitionAt ':' name).2.2
  serverNames := fun _ => []
  trustDns := fun env => env ≠ some ['0']
  regular := fun _ _ => true
  passwd := fun _ => some "/home/u".toList

/-- Of a text, the text. -/
def whole : Hashing := ⟨fun _ => true, id, Function.injective_id⟩

/-- A login by name only, on a machine where a token has been written to its usual place:
the `ino` of the file. -/
def byName (serial ino : Nat) (token : Option Text) : Login where
  config := { authOrder := [unix], username := "u".toList, serial := serial, token := token }
  url := {}
  world :=
    { env := fun _ => none
      stat := fun path => if path = "/tmp/bt_u1000".toList then some ⟨1, ino, 9, 0⟩ else none }

/-- Two logins with one token at hand, which no file can change. -/
theorem same_login_iff_overlooked_token :
    SameLogin usual (byName 0 1 (some "t".toList)) (byName 1 2 (some "t".toList)) := by
  have hfrozen : ∀ a : Login, Frozen [a] := by
    intro a b hb c hc _
    rw [List.mem_singleton.mp hb, List.mem_singleton.mp hc]
  have hkey : key usual whole (remembered usual whole []) (byName 0 1 (some "t".toList)) =
      key usual whole (remembered usual whole []) (byName 1 2 (some "t".toList)) := rfl
  apply (same_login_iff_overlooked (hfrozen _) (hfrozen _) hkey).mpr
  refine ⟨?_, by decide, by decide, by decide, by decide, fun h => by cases h⟩
  intro m hm
  simp only [reading, List.mem_cons, List.not_mem_nil, or_false] at hm
  refine .inr ?_
  rcases hm with rfl | rfl | rfl | rfl <;> decide

/-- `auth_order` names `unix` alone, and a new token lies where the old one lay.  Both
logins would present it to a server that offers `ztn`, and they share a key. -/
theorem one_key_of_two_tokens :
    ¬ ∀ (places : Places) (hashing : Hashing) (past later : List Login) (a b : Login),
      Frozen (a :: past) → Frozen (b :: later) →
      key places hashing (remembered places hashing past) a =
        key places hashing (remembered places hashing later) b →
      SameLogin places a b := by
  intro h
  have hfrozen : Frozen [byName 0 2 none, byName 0 1 none] := by
    intro a ha b hb _
    simp only [List.mem_cons, List.not_mem_nil, or_false] at ha hb
    rcases ha with rfl | rfl <;> rcases hb with rfl | rfl <;> rfl
  have hsame := h usual whole [] [byName 0 1 none] (byName 0 1 none) (byName 0 2 none)
    (fun a ha b hb => hfrozen a (List.mem_cons_of_mem _ ha) b (List.mem_cons_of_mem _ hb)) hfrozen rfl
  exact absurd (hsame.sameFindings.material ztn) (by decide)

end XrdClient.Session
