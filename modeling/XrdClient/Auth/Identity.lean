/-
  Auth/Identity.lean --- what a login reads, and whom it makes of it.

  Source: `auth/__init__.py` (`credential_files`, `_ask`), `available` and `using` of
  the mechanisms in `auth/`, `_usercred.py`, `_tokens.py`, `_gridpaths.py`.

  A login is a configuration, a URL and the world it finds: environment variables and
  what `os.stat` says of each file.  Two files of one name and one `stat` have one
  content, so a file that is read is its `FileState`.  `Places` is where the third-party
  package `xrdsec` looks for things; each field takes the variables that its
  documentation names.  `Library` is what it and the mechanisms make of what they find,
  and what the person at the terminal answers.  Everything else that a login meets (the
  clock, the KDC, `krb5.conf`) is the same for any two logins.
-/
import XrdClient.Auth.Select

set_option autoImplicit false

namespace XrdClient.Auth

open XrdClient.Lib

/-! ## The world -/

/-- `st_dev`, `st_ino`, `st_size` and `st_mtime_ns`. -/
structure Stat where
  dev : Nat
  ino : Nat
  size : Nat
  mtime : Int
  deriving DecidableEq

/-- A file by name, and its `stat` if it is there. -/
abbrev FileState : Type := Text × Option Stat

/-- What a login finds around it. -/
structure World where
  /-- `os.environ.get`. -/
  env : Text → Option Text
  stat : Text → Option Stat
  /-- Both the input and the channel questions go out on are a terminal. -/
  terminal : Bool := false

/-- The `Config` a login reads. -/
structure Account extends Config where
  /-- Which object it is. -/
  serial : Nat := 0
  token : Option Text := none
  tokenFile : Option Text := none
  keytab : Option Text := none
  proxy : Option Text := none
  usercert : Option Text := none
  userkey : Option Text := none
  /-- What `key_password()` returns, if it is set. -/
  keyPassword : Option (Option Text) := none
  caPath : Option Text := none
  caFile : Option Text := none
  verifyTls : Bool := true
  gsiDelegate : Bool := false
  gsiVerifyServer : Bool := true
  prompt : Option Bool := none

/-- Of the URL, where it goes and the user it names. -/
structure Url where
  useTls : Bool := false
  host : Text := []
  port : Nat := 1094
  username : Text := []
  deriving DecidableEq

structure Login where
  config : Account
  url : Url
  world : World

/-- `bool(value)` of a text that may be missing. -/
def truthy : Option Text → Bool
  | some (_ :: _) => true
  | _ => false

/-- `value or default`. -/
def orElse (value : Option Text) (default : Text) : Text :=
  match value with
  | some (c :: s) => c :: s
  | _ => default

def BEARER_TOKEN : Text := "BEARER_TOKEN".toList
def BEARER_TOKEN_FILE : Text := "BEARER_TOKEN_FILE".toList
def XDG_RUNTIME_DIR : Text := "XDG_RUNTIME_DIR".toList
def X509_USER_PROXY : Text := "X509_USER_PROXY".toList
def XrdSecSSSKT : Text := "XrdSecSSSKT".toList
def XrdSecsssKT : Text := "XrdSecsssKT".toList
def KRB5CCNAME : Text := "KRB5CCNAME".toList
def KRB5_CONFIG : Text := "KRB5_CONFIG".toList
def XRD_KRB5_BACKEND : Text := "XRD_KRB5_BACKEND".toList
def XrdSecGSISRVNAMES : Text := "XrdSecGSISRVNAMES".toList
def XrdSecGSITRUSTDNS : Text := "XrdSecGSITRUSTDNS".toList
def HOME : Text := "HOME".toList

/-- `AMBIENT_ENV`. -/
def AMBIENT_ENV : List Text :=
  [BEARER_TOKEN, BEARER_TOKEN_FILE, XDG_RUNTIME_DIR, X509_USER_PROXY, XrdSecSSSKT, XrdSecsssKT,
    KRB5CCNAME, KRB5_CONFIG]

/-- Where `xrdsec` looks, and what the system knows of its users and files. -/
structure Places where
  /-- `tokens.explicit_token_file`, from `token_file` and `$BEARER_TOKEN_FILE`. -/
  explicitTokenFile : Option Text → Option Text → Option Text
  /-- `credentials._token_files`, from `$BEARER_TOKEN_FILE`, `$XDG_RUNTIME_DIR` and the
  explicit file: each path, and whether it is predictable. -/
  tokenFiles : Option Text → Option Text → Option Text → List (Text × Bool)
  /-- `credentials.default_proxy_path`, from `$X509_USER_PROXY`. -/
  defaultProxyPath : Option Text → Text
  /-- `usercred.wanted`, from the certificate, the key, the proxy and `$X509_USER_PROXY`. -/
  wanted : Option Text → Option Text → Option Text → Option Text → Bool
  /-- The pair is presented when both halves are set, and no proxy is. -/
  wanted_pair : ∀ cert key proxy env, wanted cert key proxy env = true →
    truthy cert = true ∧ truthy key = true ∧ truthy proxy = false
  /-- `ccache_name`, from `$KRB5CCNAME` and `$KRB5_CONFIG`. -/
  ccacheName : Option Text → Option Text → Text
  /-- `resolve_ccache`, of a name and, if it is a `DIR:` collection, its pointer; `none`
  if it raises. -/
  resolveCcache : Text → Option FileState → Option Text
  /-- `server_names`, from `$XrdSecGSISRVNAMES`. -/
  serverNames : Option Text → List Text
  /-- `trust_dns`, from `$XrdSecGSITRUSTDNS`. -/
  trustDns : Option Text → Bool
  /-- Whether what is there is a regular file. -/
  regular : Text → Stat → Bool
  /-- `pw_dir` of a user, or of the caller. -/
  passwd : Option Text → Option Text

/-! ## Names of files -/

section

variable (places : Places)

/-- `os.path.expanduser`. -/
def expanduser (w : World) (path : Text) : Text :=
  match path with
  | '~' :: rest =>
      let user := rest.takeWhile (· ≠ '/')
      let home := if user = [] then
          match w.env HOME with
          | some home => some home
          | none => places.passwd none
        else places.passwd (some user)
      match home with
      | some home =>
          match (home.reverse.dropWhile (· = '/')).reverse ++ rest.drop user.length with
          | [] => ['/']
          | full => full
      | none => path
  | _ => path

/-- `os.path.join`, of a relative name. -/
def joinPath (dir name : Text) : Text :=
  if dir = [] ∨ dir.getLast? = some '/' then dir ++ name else dir ++ '/' :: name

/-- `os.path.isfile`. -/
def isfile (w : World) (path : Text) : Bool :=
  match w.stat path with
  | some st => places.regular path st
  | none => false

/-- A file and its state. -/
def stateOf (w : World) (path : Text) : FileState := (path, w.stat path)

/-- `token_files`. -/
def tokenFiles (c : Account) (w : World) : List (Text × Bool) :=
  places.tokenFiles (w.env BEARER_TOKEN_FILE) (w.env XDG_RUNTIME_DIR)
    (places.explicitTokenFile c.tokenFile (w.env BEARER_TOKEN_FILE))

/-- `default_proxy_path(config)`. -/
def defaultProxyPath (c : Account) (w : World) : Text :=
  orElse c.proxy (places.defaultProxyPath (w.env X509_USER_PROXY))

/-- `wanted(config)`. -/
def wanted (c : Account) (w : World) : Bool :=
  places.wanted c.usercert c.userkey c.proxy (w.env X509_USER_PROXY)

/-- `default_keytab_path`. -/
def defaultKeytabPath (c : Account) (w : World) : Text :=
  orElse c.keytab <| orElse (w.env XrdSecSSSKT) <| orElse (w.env XrdSecsssKT) <|
    joinPath (joinPath (expanduser places w ['~']) ".xrd".toList) "sss.keytab".toList

/-- Whether a mechanism is in `auth_order`. -/
def ranked (c : Account) (mechanism : Text) : Bool := decide (mechanism ∈ c.authOrder)

def gsi : Text := "gsi".toList
def sss : Text := "sss".toList
def krb5 : Text := "krb5".toList
def unix : Text := "unix".toList
def host : Text := "host".toList

/-- `_x509_files`. -/
def x509Files (c : Account) (w : World) : List Text :=
  (if ranked c gsi || truthy c.proxy then [defaultProxyPath places c w] else []) ++
    (if truthy c.usercert && truthy c.userkey && !truthy c.proxy then
      [c.usercert.getD [], c.userkey.getD []] else [])

/-- The pointer of a `DIR:` collection, if a cache name is one. -/
def primaryOf (name : Text) : Option Text :=
  let (kind, _, rest) := partitionAt ':' name
  if kind = "DIR".toList ∧ rest.head? ≠ some ':' then some (joinPath rest "primary".toList) else none

/-- `_ccache_files`. -/
def ccacheFiles (w : World) : List Text :=
  let name := places.ccacheName (w.env KRB5CCNAME) (w.env KRB5_CONFIG)
  let primary := primaryOf name
  match places.resolveCcache name (primary.map (stateOf w)) with
  | none => []
  | some path => primary.toList ++ [path]

/-- `credential_files`. -/
def credentialFiles (c : Account) (w : World) : List Text :=
  (if ranked c ztn && !truthy c.token then (tokenFiles places c w).map Prod.fst else []) ++
    (x509Files places c w ++
      ((if ranked c sss then [defaultKeytabPath places c w] else []) ++
        (if ranked c krb5 then ccacheFiles places w else [])))

/-! ## What a mechanism is given -/

/-- Where the pass phrase of an encrypted key comes from. -/
inductive Phrase where
  /-- `key_password()`. -/
  | given (answer : Option Text)
  /-- A person is asked. -/
  | asked
  | nobody
  deriving DecidableEq

/-- `$XRD_KRB5_BACKEND`, checked. -/
inductive Backend where
  | auto
  | portable
  | gssapi
  deriving DecidableEq

/-- `ServerCheck`, as far as the host and the authorities do not make it: the names a server may
have, and whether DNS may give it another. -/
structure ServerCheck where
  names : List Text
  resolve : Bool
  deriving DecidableEq

/-- Everything a mechanism reads but the server's offer. -/
inductive Material where
  | nothing
  | keytab (file : FileState) (user : Text)
  | token (token : Text)
  /-- The search for a token: the explicit file, `$BEARER_TOKEN`, and every file. -/
  | search (explicit bearer : Option Text) (files : List (FileState × Bool))
  | proxy (file : FileState) (named delegate : Bool) (caPath : Option Text) (check : Option ServerCheck)
  | pair (cert key : FileState) (phrase : Phrase) (delegate : Bool) (caPath : Option Text)
      (check : Option ServerCheck)
  /-- `$KRB5CCNAME`, `$KRB5_CONFIG`, the backend if there is such a one, the cache. -/
  | ticket (ccname config : Option Text) (backend : Option Backend) (files : List FileState)
  deriving DecidableEq

/-- `prompt.interactive(config)`. -/
def interactive (c : Account) (w : World) : Bool := c.prompt.getD w.terminal

/-- `username or config.username`, of the user a URL names. -/
def userOf (url : Url) (c : Account) : Text := if url.username = [] then c.username else url.username

/-- `pass_phrase`. -/
def passPhrase (c : Account) (w : World) : Phrase :=
  match c.keyPassword with
  | some answer => .given answer
  | none => if interactive c w then .asked else .nobody

/-- `backend()`.  None of the four words has a letter that `lower` would make of one
beyond ASCII. -/
def backend (w : World) : Option Backend :=
  let choice := (strip ((w.env XRD_KRB5_BACKEND).getD [])).map Char.toLower
  if choice = [] ∨ choice = "auto".toList then some .auto
  else if choice = "portable".toList then some .portable
  else if choice = "gssapi".toList then some .gssapi
  else none

/-- `check if config.gsi_verify_server else None` -/
def serverCheck (c : Account) (w : World) : Option ServerCheck :=
  if c.gsiVerifyServer then
    some ⟨places.serverNames (w.env XrdSecGSISRVNAMES), places.trustDns (w.env XrdSecGSITRUSTDNS)⟩
  else none

/-- What `available` of a mechanism reads. -/
def material (mechanism : Text) (url : Url) (c : Account) (w : World) : Material :=
  if mechanism = sss then .keytab (stateOf w (defaultKeytabPath places c w)) (userOf url c)
  else if mechanism = ztn then
    if truthy c.token then .token (c.token.getD [])
    else .search (places.explicitTokenFile c.tokenFile (w.env BEARER_TOKEN_FILE)) (w.env BEARER_TOKEN)
      ((tokenFiles places c w).map fun p => (stateOf w p.1, p.2))
  else if mechanism = gsi then
    if wanted places c w then
      .pair (stateOf w (expanduser places w (c.usercert.getD [])))
        (stateOf w (expanduser places w (c.userkey.getD []))) (passPhrase c w) c.gsiDelegate c.caPath
        (serverCheck places c w)
    else .proxy (stateOf w (defaultProxyPath places c w))
      (truthy c.proxy || truthy (w.env X509_USER_PROXY)) c.gsiDelegate c.caPath (serverCheck places c w)
  else if mechanism = krb5 then
    .ticket (w.env KRB5CCNAME) (w.env KRB5_CONFIG) (backend w) ((ccacheFiles places w).map (stateOf w))
  else .nothing

/-! ## The ladder -/

/-- `_REGISTRY`. -/
def registry : List Text := [unix, host, sss, ztn, gsi, krb5]

/-- What the mechanisms make of what they read, and what a person answers. -/
structure Library where
  /-- `cls.available(offer, …)`. -/
  make : Offer → Material → Except Text (Option Exchange)
  /-- `_why_not`. -/
  whyNot : Offer → Material → Text
  /-- Whether `cls.missing(offer, …)` has a question. -/
  missing : Offer → Material → Bool
  /-- The answer to the question of a mechanism, the first time and the second. -/
  answer : Text → Nat → Option Text

/-- A mechanism of one round, with no key. -/
def oneRound (blob : Bytes) : Exchange := ⟨.ok blob, fun _ => .ok none, fun _ => none⟩

/-- `str.encode("utf-8")`. -/
def encode (s : Text) : Bytes := (String.ofList s).toUTF8.data.toList

variable (lib : Library)

/-- `cls.available(offer, config, username=…, host=…)`. -/
def available (url : Url) (w : World) (c : Account) (offer : Offer) : Except Text (Option Exchange) :=
  if offer.name = unix then .ok (some (oneRound (encode "unix".toList ++ 0 :: encode (userOf url c))))
  else if offer.name = host then .ok (some (oneRound (encode "host".toList ++ [0])))
  else lib.make offer (material places offer.name url c w)

/-- `cls.using(answer, config)`. -/
def usingAnswer (mechanism answer : Text) (c : Account) (w : World) : Account :=
  let path := expanduser places w answer
  if mechanism = gsi then { c with proxy := some path }
  else if mechanism = sss then { c with keytab := some path }
  else if isfile places w path then { c with token := none, tokenFile := some path }
  else { c with token := some answer }

/-- The mechanisms that have something a person could type. -/
def askable (mechanism : Text) : Bool := decide (mechanism ∈ [gsi, ztn, sss])

/-- The loop of `_ask`: one answer, and one more for the typo in it. -/
def attempts (url : Url) (w : World) (c : Account) (offer : Offer) :
    Nat → Nat → Option Why → Except (Option Why) Exchange
  | 0, _, verdict => .error verdict
  | left + 1, attempt, verdict =>
      match lib.answer offer.name attempt with
      | none | some [] => .error verdict
      | some answer =>
          let trial := usingAnswer places offer.name answer c w
          let again (verdict : Why) : Except (Option Why) Exchange :=
            if lib.missing offer (material places offer.name url trial w) then
              attempts url w c offer left (attempt + 1) (some verdict)
            else .error (some verdict)
          match available places lib url w trial offer with
          | .ok (some exchange) => .ok exchange
          | .error text => again (.raised text)
          | .ok none => again (.missing (lib.whyNot offer (material places offer.name url trial w)))

/-- `_ask`. -/
def ask (url : Url) (w : World) (c : Account) (offer : Offer) : Except (Option Why) Exchange :=
  if askable offer.name && lib.missing offer (material places offer.name url c w) then
    attempts places lib url w c offer 2 0 none
  else .error none

/-- The mechanisms, as a login finds them. -/
def mechanisms (a : Login) : Mechanisms where
  registered := fun name => decide (name ∈ registry)
  available := available places lib a.url a.world a.config
  whyNot := fun offer => lib.whyNot offer (material places offer.name a.url a.config a.world)
  interactive := interactive a.config a.world
  ask := ask places lib a.url a.world a.config

/-- The credentials a generator yields. -/
def Ladder.climb (mech : Mechanisms) : Nat → Ladder → Assoc Text Why → List Credential
  | 0, _, _ => []
  | left + 1, l, why =>
      match l.next mech why with
      | (.ok (some c), l', why') => c :: climb mech left l' why'
      | _ => []

/-- The credentials a login tries, in order, of a server that offers `sec`. -/
def tries (a : Login) (sec : Text) (tls : Option Bool) : List Credential :=
  let (l, why) := select sec a.config.toConfig [] tls
  l.climb (mechanisms places lib a) l.left why

end

/-! ## The same login -/

/-- Two logins try the same credentials, whatever the server offers, whatever the files
hold and whatever a person answers. -/
def SameLogin (places : Places) (a b : Login) : Prop :=
  ∀ lib sec tls, tries places lib a sec tls = tries places lib b sec tls

/-- What a mechanism reads, in a login. -/
def Login.material (places : Places) (a : Login) (mechanism : Text) : Material :=
  Auth.material places mechanism a.url a.config a.world

/-- What it reads once a person has answered. -/
def Login.prompted (places : Places) (a : Login) (mechanism answer : Text) : Material :=
  Auth.material places mechanism a.url (usingAnswer places mechanism answer a.config a.world) a.world

/-- Two logins find the same: every mechanism reads the same, and if a person may be
asked, then in both, and every answer leads to the same. -/
structure SameFindings (places : Places) (a b : Login) : Prop where
  material : ∀ m, a.material places m = b.material places m
  person : interactive a.config a.world = interactive b.config b.world
  prompted : interactive a.config a.world = true → ∀ m, askable m = true → ∀ answer, answer ≠ [] →
    a.prompted places m answer = b.prompted places m answer

section

variable {places : Places} {a b : Login}

/-- A ladder asks a person only if it may. -/
theorem Ladder.next_ask {mech : Mechanisms} {ask : Offer → Except (Option Why) Exchange}
    (h : mech.interactive = true → mech.ask = ask) (l : Ladder) (why : Assoc Text Why) :
    l.next mech why = l.next { mech with ask := ask } why := by
  by_cases hperson : mech.interactive = true
  · rw [← h hperson]
  · have hsame : ∀ (names : List Text) (why : Assoc Text Why),
        availableCredential { mech with ask := ask } l.offers names why =
          availableCredential mech l.offers names why := by
      intro names
      induction names with
      | nil => exact fun _ => rfl
      | cons name names ih =>
        intro why
        simp only [availableCredential, ih]
    have hno : ¬ (l.found = false ∧ mech.interactive = true) := fun hboth => hperson hboth.2
    unfold Ladder.next
    dsimp only
    rw [hsame]
    simp only [if_neg hno]

theorem climb_congr {mech mech' : Mechanisms} (h : ∀ l why, Ladder.next mech l why = Ladder.next mech' l why) :
    ∀ (left : Nat) (l : Ladder) (why : Assoc Text Why), l.climb mech left why = l.climb mech' left why := by
  intro left
  induction left with
  | zero => exact fun _ _ => rfl
  | succ left ih =>
    intro l why
    simp only [Ladder.climb, h, ih]

/-- The mechanisms with a question are not those that need no material. -/
theorem askable_ne {m : Text} (h : askable m = true) : m ≠ unix ∧ m ≠ host := by
  simp only [askable, decide_eq_true_eq, List.mem_cons, List.not_mem_nil, or_false] at h
  rcases h with rfl | rfl | rfl <;> exact ⟨by decide, by decide⟩

theorem available_material (lib : Library) (url : Url) (w : World) (c : Account) {offer : Offer}
    (hunix : offer.name ≠ unix) (hhost : offer.name ≠ host) :
    available places lib url w c offer = lib.make offer (material places offer.name url c w) := by
  rw [available, if_neg hunix, if_neg hhost]

theorem attempts_congr (h : SameFindings places a b) (hperson : interactive a.config a.world = true)
    (lib : Library) {offer : Offer} (hask : askable offer.name = true) :
    ∀ (left attempt : Nat) (verdict : Option Why),
      attempts places lib a.url a.world a.config offer left attempt verdict =
        attempts places lib b.url b.world b.config offer left attempt verdict := by
  obtain ⟨hunix, hhost⟩ := askable_ne hask
  intro left
  induction left with
  | zero => exact fun _ _ => rfl
  | succ left ih =>
    intro attempt verdict
    unfold attempts
    cases hanswer : lib.answer offer.name attempt with
    | none => rfl
    | some answer =>
      cases answer with
      | nil => rfl
      | cons c rest =>
        have hprompted := h.prompted hperson offer.name hask (c :: rest) (List.cons_ne_nil _ _)
        simp only [Login.prompted] at hprompted
        simp only [available_material lib _ _ _ hunix hhost, hprompted, ih]

/-- **Logins that find the same are the same login.** -/
theorem SameFindings.sameLogin (h : SameFindings places a b)
    (horder : a.config.authOrder = b.config.authOrder)
    (hcleartext : a.config.ztnCleartext = b.config.ztnCleartext)
    (huser : userOf a.url a.config = userOf b.url b.config) : SameLogin places a b := by
  intro lib sec tls
  have hselect : select sec a.config.toConfig [] tls = select sec b.config.toConfig [] tls := by
    simp only [select, offerOrder, withholdCleartextToken, horder, hcleartext]
  have havailable : (mechanisms places lib a).available = (mechanisms places lib b).available := by
    funext offer
    have hmaterial := h.material offer.name
    simp only [Login.material] at hmaterial
    simp only [mechanisms, available, huser, hmaterial]
  have hwhy : (mechanisms places lib a).whyNot = (mechanisms places lib b).whyNot := by
    funext offer
    have hmaterial := h.material offer.name
    simp only [Login.material] at hmaterial
    simp only [mechanisms, hmaterial]
  have hask : interactive a.config a.world = true →
      (mechanisms places lib a).ask = (mechanisms places lib b).ask := by
    intro hperson
    funext offer
    have hmaterial := h.material offer.name
    simp only [Login.material] at hmaterial
    simp only [mechanisms, ask, hmaterial]
    split
    · next hgo =>
      rw [Bool.and_eq_true] at hgo
      exact attempts_congr h hperson lib hgo.1 2 0 none
    · rfl
  have hmech : mechanisms places lib b =
      { mechanisms places lib a with ask := (mechanisms places lib b).ask } := by
    simp only [mechanisms] at havailable hwhy
    simp only [mechanisms, havailable, hwhy, h.person]
  unfold tries
  rw [hselect, hmech]
  exact climb_congr (fun l why => Ladder.next_ask hask l why) _ _ _

/-! ### Told apart -/

/-- A server that offers one mechanism. -/
def oneOffer (m : Text) : Text := "&P=".toList ++ m

/-- The mechanisms that read something. -/
def reading : List Text := [sss, ztn, gsi, krb5]

theorem parse_oneOffer {m : Text} (hm : m ∈ reading) : parseSecurityTrailer (oneOffer m) = [⟨m, []⟩] := by
  simp only [reading, List.mem_cons, List.not_mem_nil, or_false] at hm
  rcases hm with rfl | rfl | rfl | rfl <;> decide

theorem reading_ne {m : Text} (hm : m ∈ reading) : m ∈ registry ∧ m ≠ unix ∧ m ≠ host := by
  simp only [reading, List.mem_cons, List.not_mem_nil, or_false] at hm
  rcases hm with rfl | rfl | rfl | rfl <;> exact ⟨by decide, by decide, by decide⟩

/-- With one offer, the ladder has nothing else to try. -/
theorem select_oneOffer {m : Text} (hm : m ∈ reading) (c : Config) :
    ∃ rest : List Text, (∀ n ∈ rest, n = m) ∧
      select (oneOffer m) c [] (some true) =
        (⟨[(m, ⟨m, []⟩)], m :: rest, m :: rest, false, false⟩, []) := by
  have hby : byName [⟨m, []⟩] = [(m, ⟨m, []⟩)] := rfl
  have hhas : ∀ n, Assoc.has [(m, (⟨m, []⟩ : Offer))] n = decide (n = m) := by
    intro n
    simp only [Assoc.has, Assoc.get]
    by_cases hn : n = m <;> simp [hn]
  have hall : ∀ n ∈ c.authOrder.filter (fun n => Assoc.has [(m, (⟨m, []⟩ : Offer))] n), n = m := by
    intro n hn
    have := (List.mem_filter.mp hn).2
    rw [hhas, decide_eq_true_eq] at this
    exact this
  simp only [select, parse_oneOffer hm, hby, withholdCleartextToken, offerOrder, List.foldl_cons,
    List.foldl_nil]
  rw [if_pos (.inl (by decide))]
  cases hfilter : c.authOrder.filter (fun n => Assoc.has [(m, (⟨m, []⟩ : Offer))] n) with
  | nil => exact ⟨[], by simp, by simp⟩
  | cons n rest =>
    rw [hfilter] at hall
    obtain rfl : n = m := hall n List.mem_cons_self
    exact ⟨rest, fun x hx => hall x (List.mem_cons_of_mem _ hx), by simp⟩

/-- What a ladder of one offer yields: something, if the mechanism or the person has it. -/
theorem tries_oneOffer (lib : Library) {m : Text} (hm : m ∈ reading) (a : Login)
    (hmade : ∀ text, lib.make ⟨m, []⟩ (a.material places m) ≠ .error text) :
    tries places lib a (oneOffer m) (some true) ≠ [] ↔
      (∃ e, lib.make ⟨m, []⟩ (a.material places m) = .ok (some e)) ∨
        interactive a.config a.world = true ∧
          ∃ e, ask places lib a.url a.world a.config ⟨m, []⟩ = .ok e := by
  obtain ⟨hregistered, hunix, hhost⟩ := reading_ne hm
  obtain ⟨rest, hrest, hselect⟩ := select_oneOffer hm a.config.toConfig
  have hget : Assoc.get [(m, (⟨m, []⟩ : Offer))] m = some ⟨m, []⟩ := by simp [Assoc.get]
  have havailable : (mechanisms places lib a).available ⟨m, []⟩ =
      lib.make ⟨m, []⟩ (a.material places m) := available_material lib _ _ _ hunix hhost
  have hnamed : (mechanisms places lib a).registered m = true := decide_eq_true hregistered
  unfold tries
  rw [hselect]
  show Ladder.climb _ (rest.length + 1 + 1) _ _ ≠ [] ↔ _
  unfold Ladder.climb Ladder.next
  simp only [Bool.false_eq_true, if_false]
  cases hmake : lib.make ⟨m, []⟩ (a.material places m) with
  | error text => exact absurd hmake (hmade text)
  | ok found =>
    cases found with
    | some e =>
      simp only [availableCredential, hnamed, if_true, hget, havailable, hmake]
      simp
    | none =>
      -- nothing is found under any of the names, which are all one
      have hnone : ∀ (names : List Text) (why : Assoc Text Why), (∀ n ∈ names, n = m) →
          ∃ why', availableCredential (mechanisms places lib a) [(m, ⟨m, []⟩)] names why =
            (.ok none, [], why') := by
        intro names
        induction names with
        | nil => exact fun why _ => ⟨why, rfl⟩
        | cons n names ih =>
          intro why hnames
          obtain rfl : n = m := hnames n List.mem_cons_self
          simp only [availableCredential, hnamed, if_true, hget, havailable, hmake]
          exact ih _ fun x hx => hnames x (List.mem_cons_of_mem _ hx)
      obtain ⟨why', hwhy'⟩ := hnone (m :: rest) [] (by
        intro n hn
        rcases List.mem_cons.mp hn with rfl | hn
        · rfl
        · exact hrest n hn)
      rw [hwhy']
      by_cases hperson : interactive a.config a.world = true
      · have hperson' : (mechanisms places lib a).interactive = true := hperson
        simp only [hperson', hperson, and_self, if_true, true_and]
        cases hask : ask places lib a.url a.world a.config ⟨m, []⟩ with
        | ok e =>
          have hask' : (mechanisms places lib a).ask ⟨m, []⟩ = .ok e := hask
          simp [firstPrompted, hnamed, hget, hask']
        | error verdict =>
          have hask' : (mechanisms places lib a).ask ⟨m, []⟩ = .error verdict := hask
          have hprompt : ∀ (names : List Text) (why : Assoc Text Why), (∀ n ∈ names, n = m) →
              ∃ why', firstPrompted (mechanisms places lib a) [(m, ⟨m, []⟩)] names why =
                (.ok none, why') := by
            intro names
            induction names with
            | nil => exact fun why _ => ⟨why, rfl⟩
            | cons n names ih =>
              intro why hnames
              obtain rfl : n = m := hnames n List.mem_cons_self
              cases verdict with
              | none =>
                simp only [firstPrompted, hnamed, if_true, hget, hask']
                exact ih _ fun x hx => hnames x (List.mem_cons_of_mem _ hx)
              | some v =>
                simp only [firstPrompted, hnamed, if_true, hget, hask']
                exact ih _ fun x hx => hnames x (List.mem_cons_of_mem _ hx)
          obtain ⟨why'', hwhy''⟩ := hprompt (m :: rest) why' (by
            intro n hn
            rcases List.mem_cons.mp hn with rfl | hn
            · rfl
            · exact hrest n hn)
          rw [hwhy'']
          simp
      · have hperson' : ¬ (mechanisms places lib a).interactive = true := hperson
        simp [hperson', hperson]

/-- A library that makes something of one finding only, and a person who always gives the
same answer. -/
def keen (wanted : Material) (asks : Bool) (answer : Text) : Library where
  make := fun _ found => .ok (if found = wanted then some (oneRound []) else none)
  whyNot := fun _ _ => []
  missing := fun _ _ => asks
  answer := fun _ _ => some answer

theorem keen_attempts {wanted : Material} {answer m : Text} (hanswer : answer ≠ [])
    (hask : askable m = true) (a : Login) :
    ∀ (left attempt : Nat) (verdict : Option Why),
      (∃ e, attempts places (keen wanted true answer) a.url a.world a.config ⟨m, []⟩ (left + 1) attempt
        verdict = .ok e) ↔ a.prompted places m answer = wanted := by
  obtain ⟨hunix, hhost⟩ := askable_ne hask
  cases answer with
  | nil => exact absurd rfl hanswer
  | cons c rest =>
    intro left
    induction left with
    | zero =>
      intro attempt verdict
      simp only [attempts, keen, available, if_neg hunix, if_neg hhost, Login.prompted]
      split <;> simp_all
    | succ left ih =>
      intro attempt verdict
      unfold attempts
      simp only [keen, available, if_neg hunix, if_neg hhost, if_true]
      by_cases hwanted : a.prompted places m (c :: rest) = wanted
      · have hmaterial : material places m a.url (usingAnswer places m (c :: rest) a.config a.world)
            a.world = wanted := hwanted
        simp [hmaterial, hwanted]
      · have hmaterial : ¬ material places m a.url (usingAnswer places m (c :: rest) a.config a.world)
            a.world = wanted := hwanted
        simp only [if_neg hmaterial]
        exact ih (attempt + 1) _

theorem keen_tries {wanted : Material} {asks : Bool} {answer m : Text} (hanswer : answer ≠ [])
    (hm : m ∈ reading) (a : Login) :
    tries places (keen wanted asks answer) a (oneOffer m) (some true) ≠ [] ↔
      a.material places m = wanted ∨
        interactive a.config a.world = true ∧ asks = true ∧ askable m = true ∧
          a.prompted places m answer = wanted := by
  rw [tries_oneOffer (keen wanted asks answer) hm a (by simp [keen])]
  have hmake : (∃ e, (keen wanted asks answer).make ⟨m, []⟩ (a.material places m) = .ok (some e)) ↔
      a.material places m = wanted := by
    simp only [keen]
    by_cases hwanted : a.material places m = wanted <;> simp [hwanted]
  have hasked : (∃ e, ask places (keen wanted asks answer) a.url a.world a.config ⟨m, []⟩ = .ok e) ↔
      asks = true ∧ askable m = true ∧ a.prompted places m answer = wanted := by
    unfold ask
    cases asks with
    | false => simp [keen]
    | true =>
      cases hask : askable m with
      | false => simp
      | true =>
        have h : (∃ e, attempts places (keen wanted true answer) a.url a.world a.config ⟨m, []⟩ 2 0
            none = .ok e) ↔ a.prompted places m answer = wanted := keen_attempts hanswer hask a 1 0 none
        simp only [true_and, ← h]
        rw [if_pos (by simp [keen])]
  rw [hmake, hasked]

theorem material_nothing {m : Text} (hm : m ∉ reading) (url : Url) (c : Account) (w : World) :
    material places m url c w = .nothing := by
  simp only [reading, List.mem_cons, List.not_mem_nil, or_false, not_or] at hm
  obtain ⟨h₁, h₂, h₃, h₄⟩ := hm
  rw [material, if_neg h₁, if_neg h₂, if_neg h₃, if_neg h₄]

theorem askable_reading {m : Text} (h : askable m = true) : m ∈ reading := by
  simp only [askable, decide_eq_true_eq, List.mem_cons, List.not_mem_nil, or_false] at h
  rcases h with rfl | rfl | rfl <;> decide

/-- A keytab that a person names is another than the one that was looked for. -/
theorem exists_other_keytab (places : Places) (a : Login) :
    ∃ answer, answer ≠ [] ∧ a.prompted places sss answer ≠ a.material places sss := by
  have hprompted : ∀ answer : Text, answer.head? ≠ some '~' → answer ≠ [] →
      a.prompted places sss answer =
        .keytab (answer, a.world.stat answer) (userOf a.url a.config) := by
    intro answer htilde hne
    cases answer with
    | nil => exact absurd rfl hne
    | cons c rest =>
      have hc : c ≠ '~' := fun h => htilde (by rw [h]; rfl)
      have hexpand : expanduser places a.world (c :: rest) = c :: rest := by
        unfold expanduser
        split
        · next heq => exact absurd (List.cons.inj heq).1 hc
        · rfl
      have husing : usingAnswer places sss (c :: rest) a.config a.world =
          { a.config with keytab := some (c :: rest) } := by
        simp only [usingAnswer, hexpand]
        rw [if_neg (by decide), if_true]
      rw [Login.prompted, husing, material, if_pos rfl]
      rfl
  have hmaterial : a.material places sss = .keytab (stateOf a.world
      (defaultKeytabPath places a.config a.world)) (userOf a.url a.config) := by
    rw [Login.material, material, if_pos rfl]
  by_cases hk : defaultKeytabPath places a.config a.world = ['k']
  · refine ⟨['l'], by decide, ?_⟩
    rw [hprompted ['l'] (by decide) (by decide), hmaterial, hk]
    intro h
    have hpath : (['l'] : Text) = ['k'] := congrArg Prod.fst (Material.keytab.inj h).1
    exact absurd hpath (by decide)
  · refine ⟨['k'], by decide, ?_⟩
    rw [hprompted ['k'] (by decide) (by decide), hmaterial]
    intro h
    exact hk (congrArg Prod.fst (Material.keytab.inj h).1).symm

/-- **The same login has found the same**: what a server would have to offer to tell two
findings apart is the mechanism that reads them. -/
theorem SameLogin.sameFindings (h : SameLogin places a b) : SameFindings places a b := by
  have htries : ∀ (wanted : Material) (asks : Bool) (answer m : Text), answer ≠ [] → m ∈ reading →
      (a.material places m = wanted ∨ interactive a.config a.world = true ∧ asks = true ∧
          askable m = true ∧ a.prompted places m answer = wanted ↔
        b.material places m = wanted ∨ interactive b.config b.world = true ∧ asks = true ∧
          askable m = true ∧ b.prompted places m answer = wanted) := by
    intro wanted asks answer m hanswer hm
    rw [← keen_tries hanswer hm, ← keen_tries hanswer hm, h]
  have hmaterial : ∀ m, a.material places m = b.material places m := by
    intro m
    by_cases hm : m ∈ reading
    · have hkeen := htries (a.material places m) false ['k'] m (by decide) hm
      simp only [Bool.false_eq_true, false_and, and_false, or_false, true_iff] at hkeen
      exact hkeen.symm
    · rw [Login.material, Login.material, material_nothing hm, material_nothing hm]
  have hperson : interactive a.config a.world = interactive b.config b.world := by
    obtain ⟨answer, hanswer, hother⟩ := exists_other_keytab places a
    obtain ⟨answer', hanswer', hother'⟩ := exists_other_keytab places b
    have hkeen := htries (a.prompted places sss answer) true answer sss hanswer (by decide)
    have hkeen' := htries (b.prompted places sss answer') true answer' sss hanswer' (by decide)
    have hask : askable sss = true := by decide
    rw [hmaterial sss] at hother hkeen hkeen'
    simp only [hask, hother.symm, false_or, true_and, and_true] at hkeen
    simp only [hask, hother'.symm, false_or, true_and, and_true] at hkeen'
    cases ha : interactive a.config a.world <;> cases hb : interactive b.config b.world
    · rfl
    · rw [ha, hb] at hkeen'
      simp at hkeen'
    · rw [ha, hb] at hkeen
      simp at hkeen
    · rfl
  refine ⟨hmaterial, hperson, fun hasked m hask answer hanswer => ?_⟩
  have hm := askable_reading hask
  by_contra hne
  -- one of the two differs from what was found without asking
  by_cases ho : a.prompted places m answer = b.material places m
  · have hkeen := htries (b.prompted places m answer) true answer m hanswer hm
    rw [hmaterial m] at hkeen
    rw [ho] at hne hkeen
    simp [hne, hask, ← hperson, hasked] at hkeen
  · have hkeen := htries (a.prompted places m answer) true answer m hanswer hm
    rw [hmaterial m] at hkeen
    have ho' : ¬ b.material places m = a.prompted places m answer := fun heq => ho heq.symm
    have hne' : ¬ b.prompted places m answer = a.prompted places m answer := fun heq => hne heq.symm
    simp [ho', hne', hask, ← hperson, hasked] at hkeen

end

end XrdClient.Auth
