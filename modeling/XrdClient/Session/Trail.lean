/-
  Session/Trail.lean --- what a request says, after all that has happened to it.

  Source: `session/_rewrite.py`; `_redirect` and `_go_home` of `session/router.py`; `parse`
  of `url.py`.

  A `Trail` is what the way of a request has to do with its path fields: the path that a
  redirect named last, the servers that failed, and what came last, a redirect with its
  token or a return for a reason.  What goes out is a function of the fields that the
  caller gave and of the trail (`Reached.fields`).
-/
import XrdClient.Lib.Posix
import XrdClient.Proto.Encoders
import XrdClient.Session.Route

set_option autoImplicit false

namespace XrdClient.Session

open XrdClient.Lib
open XrdClient.Proto
open XrdClient.Auth
open XrdClient.Proto.Encoders (Cls)

/-! ## The path fields of a request -/

def kXR_cancel : Nat := 1

/-- `_PATH_FIELDS`, and `path` for what is not listed. -/
def pathNames (cls : Cls) : List Text :=
  match cls with
  | .symlink => ["dst".toList]
  | .mv | .link => ["src".toList, "dst".toList]
  | .statx => ["paths".toList]
  | .prepare => ["paths".toList]
  | _ => ["path".toList]

/-- The attributes of a request that are text, or lists of it. -/
abbrev Attributes : Type := Assoc Text PathField

/-- `_path_fields`. -/
def pathFields (cls : Cls) (options : Nat) (attributes : Attributes) : PathFields :=
  if cls = .prepare ∧ options &&& kXR_cancel ≠ 0 then []
  else (pathNames cls).filterMap fun name => (attributes.get name).map fun value => (name, value)

/-- `setattr(request, name, value)`, for each field. -/
def setFields (attributes : Attributes) (fields : PathFields) : Attributes :=
  fields.foldl (fun attributes field => attributes.set field.1 field.2) attributes

/-! ## URLs -/

/-- `_normalize`. -/
def normalize (path : Text) : Text :=
  if path = [] then ['/']
  else
    let trailing := decide (path.getLast? = some '/') && decide (1 < path.length)
    let norm := Posix.render (Posix.components ('/' :: path.dropWhile (· = '/')))
    if trailing ∧ norm.getLast? ≠ some '/' then norm ++ ['/'] else norm

def HTTP_SCHEMES : List Text := ["http".toList, "https".toList, "dav".toList, "davs".toList, "webdav".toList]

def TLS_SCHEMES : List Text := ["roots".toList, "xroots".toList, "https".toList, "davs".toList, "s3".toList]

/-- `_default_port`. -/
def defaultPort (scheme : Text) : Nat :=
  if scheme ∈ ["https".toList, "davs".toList, "webdav".toList, "s3".toList] then 443
  else if scheme ∈ ["http".toList, "dav".toList] then 80
  else 1094

/-- `text.rpartition("@")`: what is before the last one, if there is one, and what is
behind it. -/
def splitUser (authority : Text) : Option Text × Text :=
  let hostport := (authority.reverse.takeWhile (· ≠ '@')).reverse
  (if '@' ∈ authority then some (authority.take (authority.length - hostport.length - 1)) else none, hostport)

/-- `_host_port`. -/
def hostPort (hostport : Text) : Text × Text :=
  match hostport with
  | '[' :: rest =>
      let (host, _, port) := partitionAt ']' rest
      (host, port.dropWhile (· = ':'))
  | _ =>
      let (host, _, port) := partitionAt ':' hostport
      (host, port)

/-- `parse`.  Of the standard library, `abspath`, `unquote` and the reading of a port are
parameters. -/
def parseUrl (abspath unquote : Text → Text) (int : Text → Option Nat) (text : Text) : Except Misdirected Parsed :=
  match partitionScheme text with
  | none => .ok ⟨"file".toList, { port := 0 }, abspath text⟩
  | some (scheme, rest) =>
      let scheme := lower scheme
      if scheme = "file".toList then .ok ⟨scheme, { port := 0 }, if rest = [] then ['/'] else rest⟩
      else
        let (authority, sep, tail) := partitionAt '/' rest
        let (userinfo, hostport) := splitUser authority
        let (host, port) := hostPort hostport
        match (if port = [] then some (defaultPort scheme) else int port) with
        | none => .error (.unparsed text)
        | some port =>
            let path := (partitionAt '?' (if sep then '/' :: tail else ['/'])).1
            let path := if scheme ∈ HTTP_SCHEMES then unquote path else path
            .ok ⟨scheme, {
              useTls := decide (scheme ∈ TLS_SCHEMES), host := lower host, port := port
              username := unquote (partitionAt ':' (userinfo.getD [])).1 }, normalize path⟩

/-! ## Trails -/

/-- What happened to a request last. -/
inductive Mark where
  | none
  | token (token : Text)
  | failed (reason : Text)
  deriving DecidableEq

structure Trail where
  /-- The path that a redirect named last. -/
  moved : Text := []
  /-- The servers that failed. -/
  tried : List Text := []
  mark : Mark := .none
  deriving DecidableEq

/-- A redirect. -/
def Trail.hop (trail : Trail) (path token : Text) : Trail :=
  { trail with moved := if path = [] then trail.moved else path, mark := .token token }

/-- A return, from a host that failed. -/
def Trail.home (trail : Trail) (host reason : Text) : Trail :=
  { trail with tried := Session.tried trail.tried host, mark := .failed reason }

/-- A path, as it goes out. -/
def Trail.put (trail : Trail) (path : Text) : Text :=
  match trail.mark with
  | .none => path
  | .token token => withToken path token
  | .failed reason => withTried path trail.tried reason

/-- The caller's fields, where the last redirect that named a path has moved them. -/
def PathFields.movedTo (original : PathFields) (path : Text) : PathFields :=
  if path = [] then original else repath original path

/-- What a request says at the end of a trail. -/
def PathFields.sent (original : PathFields) (trail : Trail) : PathFields :=
  (original.movedTo trail.moved).map trail.put

/-- What a turn that the request outlives adds to its trail. -/
def Errand.trail (parse : Text → Except Misdirected Parsed) (c : Policy) (world : Nat → Turn) (s : Errand)
    (trail : Trail) : Trail :=
  let (_, result, s) := s.attempt c (world s.turns)
  let host := (s.route.target.getD s.router.url).host
  match result with
  | .error (.redirect target) =>
      match (if target.port < 0 then targetPath target.host else .ok none), redirectPath parse target with
      | .ok none, .ok path => trail.hop path target.token
      | _, _ => trail
  | .error (.connection _) => if s.route.away then trail.home host LOST else trail
  | .error (.server code) => trail.home host (triedReason code)
  | _ => trail

/-- A call of `execute` about to start. -/
def Errand.start (r : Router) (request : Ask) : Errand :=
  { request := request, route := { home := r.url }, router := r }

/-- The attempts that a call of `execute` comes to, and the way there. -/
inductive Reached (parse : Text → Except Misdirected Parsed) (c : Policy) (world : Nat → Turn) (first : Errand) :
    Errand → Trail → Prop where
  | start : Reached parse c world first first {}
  | turn {s s' : Errand} {trail : Trail} {log : List Entry} (h : Reached parse c world first s trail)
      (hturn : s.turn parse c world = (log, .inl s')) :
      Reached parse c world first s' (s.trail parse c world trail)

/-! ## CGI -/

/-- A path without its CGI. -/
def base (path : Text) : Text := (partitionAt '?' path).1

/-- The parameters of a path. -/
def cgi (path : Text) : List Text := ((partitionAt '?' path).2.2.splitOn '&').filter (· ≠ [])

/-- A parameter that is the caller's business alone. -/
def isOwn (item : Text) : Bool :=
  decide ((partitionAt '=' item).1 ∉ ["tried".toList, "triedrc".toList])

/-- Of the caller's parameters, those. -/
def own (path : Text) : List Text := (cgi path).filter isOwn

/-- A parameter of that name. -/
def isNamed (name : String) (item : Text) : Bool := decide ((partitionAt '=' item).1 = name.toList)

/-- The hosts that a parameter lists. -/
def listed (item : Text) : List Text := ((partitionAt '=' item).2.2.splitOn ',').filter (· ≠ [])

/-- The hosts that the `tried=` parameters of a path list. -/
def triedHosts (path : Text) : List Text := ((cgi path).filter (isNamed "tried")).flatMap listed

theorem partitionAt_base (path : Text) :
    ('?' ∉ path ∧ base path = path ∧ cgi path = []) ∨ ∃ query, '?' ∉ base path ∧ path = base path ++ '?' :: query ∧
      cgi path = (query.splitOn '&').filter (· ≠ []) := by
  rcases partitionAt_cases '?' path with ⟨hnot, heq⟩ | ⟨head, tail, hhead, hpath, heq⟩
  · exact .inl ⟨hnot, by rw [base, heq], by rw [cgi, heq]; simp⟩
  · have hbase : base path = head := by rw [base, heq]
    exact .inr ⟨tail, hbase ▸ hhead, hbase ▸ hpath, by rw [cgi, heq]⟩

theorem base_append {head : Text} (h : '?' ∉ head) (query : Text) : base (head ++ '?' :: query) = head := by
  rw [base, partitionAt_append h]

theorem cgi_append {head : Text} (h : '?' ∉ head) (query : Text) :
    cgi (head ++ '?' :: query) = (query.splitOn '&').filter (· ≠ []) := by
  rw [cgi, partitionAt_append h]

/-- A token goes behind the caller's parameters. -/
theorem withToken_keeps (path token : Text) :
    base (withToken path token) = base path ∧ cgi path <+: cgi (withToken path token) := by
  unfold withToken
  split
  · exact ⟨rfl, List.prefix_refl _⟩
  · rcases partitionAt_base path with ⟨hnot, hbase, hcgi⟩ | ⟨query, hnot, hpath, hcgi⟩
    · rw [if_neg hnot, base_append hnot, hbase, hcgi]
      exact ⟨rfl, List.nil_prefix⟩
    · have hmem : '?' ∈ path := by
        rw [hpath]
        simp
      have hout : path ++ '&' :: token = base path ++ '?' :: (query ++ '&' :: token) := by
        rw [← List.cons_append, ← List.append_assoc, ← hpath]
      rw [if_pos hmem, hout, base_append hnot, cgi_append hnot, hcgi, List.splitOn_append_cons_self,
        List.filter_append]
      exact ⟨rfl, List.prefix_append _ _⟩

theorem isOwn_eq (item : Text) : isOwn item = (!isNamed "tried" item && !isNamed "triedrc" item) := by
  simp only [isOwn, isNamed, List.mem_cons, List.not_mem_nil, or_false, not_or, Bool.decide_and, decide_not]

/-- `_without_tried`, from what it has kept and found so far. -/
theorem foldl_withoutTried (items kept earlier : List Text) :
    items.foldl (fun (kept, earlier) item =>
      let (key, _, value) := partitionAt '=' item
      if key = "tried".toList then (kept, earlier ++ (value.splitOn ',').filter (· ≠ []))
      else if key = "triedrc".toList then (kept, earlier)
      else (kept ++ [item], earlier)) (kept, earlier)
    = (kept ++ items.filter isOwn, earlier ++ (items.filter (isNamed "tried")).flatMap listed) := by
  induction items generalizing kept earlier with
  | nil =>
    rw [List.filter_nil, List.filter_nil, List.flatMap_nil, List.append_nil, List.append_nil]
    rfl
  | cons item items ih =>
    rw [List.foldl_cons, List.filter_cons, List.filter_cons, isOwn_eq]
    dsimp only
    by_cases htried : (partitionAt '=' item).1 = "tried".toList
    · have hnamed : isNamed "tried" item = true := decide_eq_true htried
      rw [if_pos htried, ih]
      simp only [hnamed, Bool.not_true, Bool.false_and, Bool.false_eq_true, if_false, if_true, List.flatMap_cons,
        List.append_assoc, listed]
    · have hnamed : isNamed "tried" item = false := decide_eq_false htried
      rw [if_neg htried]
      simp only [hnamed, Bool.not_false, Bool.true_and, Bool.false_eq_true, if_false]
      by_cases hreason : (partitionAt '=' item).1 = "triedrc".toList
      · have hrc : isNamed "triedrc" item = true := decide_eq_true hreason
        rw [if_pos hreason, ih]
        simp only [hrc, Bool.not_true, Bool.false_eq_true, if_false]
      · have hrc : isNamed "triedrc" item = false := decide_eq_false hreason
        rw [if_neg hreason, ih]
        simp only [hrc, Bool.not_false, if_true, List.append_assoc, List.singleton_append]

/-- What `_without_tried` keeps, and what it finds. -/
theorem withoutTried_eq (path : Text) : withoutTried (partitionAt '?' path).2.2 = (own path, triedHosts path) :=
  foldl_withoutTried _ [] []

theorem splitOn_intercalate_append {items : List Text} (hitems : ∀ item ∈ items, '&' ∉ item) {more : List Text}
    (hmore : more ≠ []) :
    (['&'].intercalate (items ++ more)).splitOn '&' = items ++ (['&'].intercalate more).splitOn '&' := by
  induction items with
  | nil => rfl
  | cons item items ih =>
    obtain ⟨hitem, hitems⟩ := List.forall_mem_cons.mp hitems
    have hrest := ih hitems
    obtain ⟨next, rest, heq⟩ := List.exists_cons_of_ne_nil (List.append_ne_nil_of_right_ne_nil items hmore)
    rw [heq] at hrest
    have hjoin : ['&'].intercalate (item :: next :: rest) = item ++ '&' :: ['&'].intercalate (next :: rest) := by
      simp [List.intercalate]
    rw [List.cons_append, heq, hjoin, List.splitOn_append_cons_self_of_not_mem hitem, hrest, List.cons_append]

/-- A parameter of the caller's is one as it stands. -/
theorem mem_own {path item : Text} (h : item ∈ own path) : '&' ∉ item ∧ item ≠ [] := by
  have hmem := List.mem_of_mem_filter h
  exact ⟨Posix.not_mem_of_mem_splitOn (List.mem_of_mem_filter hmem), by simpa using List.of_mem_filter hmem⟩

/-- The list of who failed goes behind the parameters that are the caller's own. -/
theorem withTried_keeps (path : Text) (hosts : List Text) (reason : Text) :
    base (withTried path hosts reason) = base path ∧ (own path).Sublist (cgi (withTried path hosts reason)) := by
  unfold withTried
  split
  · exact ⟨rfl, List.filter_sublist⟩
  · have hnot : '?' ∉ base path := by
      rcases partitionAt_base path with ⟨hnot, hbase, -⟩ | ⟨_, hnot, -⟩
      · rwa [hbase]
      · exact hnot
    have hown : ∀ item ∈ own path, '&' ∉ item ∧ item ≠ [] := fun item hitem => mem_own hitem
    dsimp only
    rw [withoutTried_eq, List.append_assoc]
    refine ⟨base_append hnot _, ?_⟩
    rw [show (partitionAt '?' path).1 = base path from rfl, cgi_append hnot,
      splitOn_intercalate_append (fun item hitem => (hown item hitem).1)
        (List.append_ne_nil_of_left_ne_nil (List.cons_ne_nil _ _) _), List.filter_append,
      List.filter_eq_self.mpr fun item hitem => decide_eq_true (hown item hitem).2]
    exact List.sublist_append_left _ _

/-! ## Where a redirect moves a request -/

/-- A field that a redirect's path can take the place of. -/
def PathField.Named : PathField → Prop
  | .one path => path ≠ []
  | .many _ => False

/-- `path` with the CGI of `value`. -/
def replaced (path value : Text) : Text := path ++ value.drop (base value).length

theorem replaced_eq (path value : Text) :
    replaced path value =
      path ++ (if (partitionAt '?' value).2.1 then ['?'] else []) ++ (partitionAt '?' value).2.2 := by
  unfold replaced base
  rcases partitionAt_cases '?' value with ⟨-, heq⟩ | ⟨head, tail, -, hvalue, heq⟩
  · rw [heq]
    simp
  · rw [heq, hvalue, List.drop_left]
    simp

/-- Of two paths the second one counts. -/
theorem replaced_replaced {path : Text} (hpath : '?' ∉ path) (next value : Text) :
    replaced next (replaced path value) = replaced next value := by
  rcases partitionAt_base value with ⟨-, hbase, -⟩ | ⟨query, hnot, hvalue, -⟩
  · have hnone : replaced path value = path := by rw [replaced, hbase, List.drop_length, List.append_nil]
    have hwhole : base path = path := by rw [base, partitionAt_of_not_mem hpath]
    rw [hnone, replaced, replaced, hwhole, hbase, List.drop_length, List.drop_length]
  · have hcgi : ∀ p, replaced p value = p ++ '?' :: query := by
      intro p
      rw [replaced]
      conv_lhs => rw [hvalue]
      rw [base_append hnot, List.drop_left]
    rw [hcgi path, hcgi next, replaced, base_append hpath, List.drop_left]

theorem repathFirst_spec (path : Text) (before : PathFields) (hbefore : ∀ f ∈ before, ¬ f.2.Named) (name : Text)
    {value : Text} (hvalue : value ≠ []) (after : PathFields) :
    repathFirst path (before ++ (name, .one value) :: after) =
      before ++ (name, .one (replaced path value)) :: after := by
  induction before with
  | nil =>
    cases value with
    | nil => exact absurd rfl hvalue
    | cons c value =>
      rw [List.nil_append, repathFirst, replaced_eq]
      rfl
  | cons field before ih =>
    obtain ⟨hfield, hbefore⟩ := List.forall_mem_cons.mp hbefore
    have hrest := ih hbefore
    obtain ⟨other, _ | _⟩ := field
    · next text =>
      obtain rfl : text = [] := by
        by_contra h
        exact hfield h
      rw [List.cons_append, repathFirst, hrest]
      · rfl
      · nofun
    · rw [List.cons_append, repathFirst, hrest]
      · rfl
      · nofun

/-- The last field that names a path is moved, and keeps its CGI. -/
theorem repath_spec (path : Text) (before : PathFields) (name : Text) {value : Text} (hvalue : value ≠ [])
    {after : PathFields} (hafter : ∀ f ∈ after, ¬ f.2.Named) :
    repath (before ++ (name, .one value) :: after) path =
      before ++ (name, .one (replaced path value)) :: after := by
  have hrev : (before ++ (name, PathField.one value) :: after).reverse =
      after.reverse ++ (name, .one value) :: before.reverse := by simp
  rw [repath, hrev, repathFirst_spec path _ (fun f hf => hafter f (List.mem_reverse.mp hf)) name hvalue]
  simp

theorem repathFirst_none (path : Text) {fields : PathFields} (h : ∀ f ∈ fields, ¬ f.2.Named) :
    repathFirst path fields = fields := by
  induction fields with
  | nil => rfl
  | cons field fields ih =>
    obtain ⟨hfield, hfields⟩ := List.forall_mem_cons.mp h
    have hrest := ih hfields
    obtain ⟨other, _ | _⟩ := field
    · next text =>
      obtain rfl : text = [] := by
        by_contra h
        exact hfield h
      rw [repathFirst, hrest]
      nofun
    · rw [repathFirst, hrest]
      nofun

theorem repath_none (path : Text) {fields : PathFields} (h : ∀ f ∈ fields, ¬ f.2.Named) :
    repath fields path = fields := by
  rw [repath, repathFirst_none path fun f hf => h f (List.mem_reverse.mp hf), List.reverse_reverse]

/-- Some field names a path, and none behind it does; or none does. -/
theorem lastNamed (fields : PathFields) :
    (∀ f ∈ fields, ¬ f.2.Named) ∨ ∃ before name value after, fields = before ++ (name, .one value) :: after ∧
      value ≠ [] ∧ ∀ f ∈ after, ¬ f.2.Named := by
  induction fields with
  | nil => exact .inl nofun
  | cons field fields ih =>
    rcases ih with hnone | ⟨before, name, value, after, rfl, hvalue, hafter⟩
    · obtain ⟨name, value | paths⟩ := field
      · by_cases hvalue : value = []
        · exact .inl (List.forall_mem_cons.mpr ⟨fun h => h hvalue, hnone⟩)
        · exact .inr ⟨[], name, value, fields, rfl, hvalue, hnone⟩
      · exact .inl (List.forall_mem_cons.mpr ⟨id, hnone⟩)
    · exact .inr ⟨field :: before, name, value, after, rfl, hvalue, hafter⟩

/-- A request that was moved and is moved again is where it is moved to last. -/
theorem repath_repath (original : PathFields) {path : Text} (hpath : path ≠ []) (hnot : '?' ∉ path) (next : Text) :
    repath (repath original path) next = repath original next := by
  rcases lastNamed original with hnone | ⟨before, name, value, after, rfl, hvalue, hafter⟩
  · rw [repath_none path hnone]
  · have hsome : replaced path value ≠ [] := List.append_ne_nil_of_left_ne_nil hpath _
    rw [repath_spec path before name hvalue hafter, repath_spec next before name hsome hafter,
      replaced_replaced hnot, repath_spec next before name hvalue hafter]

theorem not_mem_render {names : List Text} (h : ∀ n ∈ names, '?' ∉ n) : '?' ∉ Posix.render names := by
  unfold Posix.render Posix.body
  split
  · decide
  · intro hmem
    obtain ⟨n, hn, hc⟩ := List.mem_flatMap.mp hmem
    rcases List.mem_cons.mp hc with hc | hc
    · exact absurd hc (by decide)
    · exact h n hn hc

theorem not_mem_components {path : Text} (h : '?' ∉ path) : ∀ n ∈ Posix.components path, '?' ∉ n := by
  have hfold : ∀ (parts : List Text), (∀ p ∈ parts, '?' ∉ p) → ∀ at_ : List Text, (∀ n ∈ at_, '?' ∉ n) →
      ∀ n ∈ parts.foldl Posix.follow at_, '?' ∉ n := by
    intro parts
    induction parts with
    | nil => exact fun _ _ hat => hat
    | cons p parts ih =>
      intro hparts at_ hat
      obtain ⟨hp, hparts⟩ := List.forall_mem_cons.mp hparts
      refine ih hparts _ fun n hn => ?_
      unfold Posix.follow at hn
      split at hn
      · exact hat n hn
      · split at hn
        · exact hat n (List.dropLast_subset _ hn)
        · rcases List.mem_append.mp hn with hn | hn
          · exact hat n hn
          · rwa [List.mem_singleton.mp hn]
  exact hfold _ (fun part hpart hmem => h (Posix.subset_of_mem_splitOn hpart hmem)) [] nofun

theorem not_mem_normalize {path : Text} (h : '?' ∉ path) : '?' ∉ normalize path := by
  have hnorm : '?' ∉ Posix.render (Posix.components ('/' :: path.dropWhile (· = '/'))) := by
    refine not_mem_render (not_mem_components ?_)
    rw [List.mem_cons, not_or]
    exact ⟨by decide, fun hmem => h ((List.dropWhile_sublist _).subset hmem)⟩
  unfold normalize
  split
  · decide
  · dsimp only
    split
    · rw [List.mem_append, not_or]
      exact ⟨hnorm, by decide⟩
    · exact hnorm

/-- No path of an XRootD URL has CGI in it. -/
def ReadsPaths (parse : Text → Except Misdirected Parsed) : Prop :=
  ∀ url p, parse url = .ok p → p.scheme ∈ ROOT_SCHEMES → '?' ∉ p.path

theorem not_http_of_root {scheme : Text} (h : scheme ∈ ROOT_SCHEMES) :
    scheme ∉ HTTP_SCHEMES ∧ scheme ≠ "file".toList := by
  simp only [ROOT_SCHEMES, List.mem_cons, List.not_mem_nil, or_false] at h
  rcases h with rfl | rfl | rfl | rfl | rfl <;> decide

theorem parseUrl_readsPaths (abspath unquote : Text → Text) (int : Text → Option Nat) :
    ReadsPaths (parseUrl abspath unquote int) := by
  intro url p h hscheme
  unfold parseUrl at h
  split at h
  · cases h
    exact absurd rfl (not_http_of_root hscheme).2
  · dsimp only at h
    split at h
    · next hfile =>
      cases h
      exact absurd hfile (not_http_of_root hscheme).2
    · split at h
      · cases h
      · cases h
        have hbase : ∀ text : Text, '?' ∉ base text := by
          intro text
          rcases partitionAt_base text with ⟨hnot, hbase, -⟩ | ⟨_, hnot, -⟩
          · rwa [hbase]
          · exact hnot
        dsimp only at hscheme ⊢
        rw [if_neg (not_http_of_root hscheme).1]
        exact not_mem_normalize (hbase _)

/-! ## One turn -/

/-- At the start of its way a request says what the caller said. -/
theorem PathFields.sent_start (original : PathFields) : original.sent {} = original := by
  refine (List.map_congr_left fun field _ => ?_).trans (List.map_id original)
  obtain ⟨name, value | paths⟩ := field
  · rfl
  · show (name, PathField.many (List.map _ paths)) = (name, .many paths)
    rw [show (Trail.put {}) = id from rfl, List.map_id]

/-- What the request says, and what is kept for later, are as the trail has it. -/
structure OnTrail (original : PathFields) (trail : Trail) (s : Errand) : Prop where
  fields : s.request.fields = original.sent trail
  snapshot : s.route.original = some (original.movedTo trail.moved) ∨
    s.route.original = none ∧ trail = {} ∧ s.route.away = false
  tried : s.route.tried = trail.tried
  clean : '?' ∉ trail.moved

/-- What is kept of the request, and of its way, from one state to the next. -/
structure Errand.Stays (s s' : Errand) : Prop where
  fields : s'.request.fields = s.request.fields
  original : s'.route.original = s.route.original
  tried : s'.route.tried = s.route.tried
  away : s'.route.away = s.route.away

theorem OnTrail.stays {original : PathFields} {trail : Trail} {s s' : Errand} (h : OnTrail original trail s)
    (hstays : s.Stays s') : OnTrail original trail s' := by
  refine ⟨hstays.fields.trans h.fields, ?_, hstays.tried.trans h.tried, h.clean⟩
  rw [hstays.original, hstays.away]
  exact h.snapshot

theorem Errand.attempt_stays (c : Policy) (s : Errand) (t : Turn) : s.Stays (s.attempt c t).2.2 := by
  unfold Errand.attempt
  dsimp only
  split
  · exact ⟨rfl, rfl, rfl, rfl⟩
  · split <;> exact ⟨rfl, rfl, rfl, rfl⟩

theorem Errand.point_keeps (c : Policy) (s : Errand) (destination : Url) :
    (s.point c destination).request = s.request ∧ (s.point c destination).route.original = s.route.original ∧
      (s.point c destination).route.tried = s.route.tried := by
  unfold Errand.point
  dsimp only
  split <;> split <;> exact ⟨rfl, rfl, rfl⟩

section

variable {parse : Text → Except Misdirected Parsed} {c : Policy}

/-- A path that a redirect names has no CGI in it. -/
theorem redirectPath_clean (hparse : ReadsPaths parse) {target : RedirectInfo} {from_ there : Url} {path : Text}
    (hthere : destination parse from_ target = .ok there) (hpath : redirectPath parse target = .ok path) : '?' ∉ path := by
  unfold redirectPath at hpath
  split at hpath
  · cases hpath
    exact List.not_mem_nil
  next hport =>
    dsimp only at hpath
    split at hpath
    · cases hpath
      exact List.not_mem_nil
    · cases hparsed : parse (asUrl target.host) with
      | error e =>
        rw [hparsed] at hpath
        cases hpath
      | ok p =>
        rw [hparsed] at hpath
        cases hpath
        -- a URL of another scheme was refused before
        have hscheme : p.scheme ∈ ROOT_SCHEMES := by
          unfold destination at hthere
          rw [if_pos (by omega)] at hthere
          unfold redirectUrl at hthere
          rw [hparsed] at hthere
          by_contra hnot
          simp [bind, Except.bind, hnot, throw, throwThe, MonadExceptOf.throw] at hthere
        exact hparse _ _ hparsed hscheme

theorem Errand.redirect_spec (hparse : ReadsPaths parse) {s s' : Errand} {target : RedirectInfo}
    (h : s.redirect parse c target = .ok s') :
    ∃ path, redirectPath parse target = .ok path ∧ '?' ∉ path ∧ s'.route.tried = s.route.tried ∧
      s'.route.original = some ((s.route.original.getD s.request.fields).movedTo path) ∧
      s'.request.fields = retarget ((s.route.original.getD s.request.fields).movedTo path) target.token := by
  unfold Errand.redirect at h
  dsimp only at h
  split at h
  · cases h
  split at h
  · cases h
  next there hthere =>
    split at h
    · cases h
    next path hpath =>
      cases h
      obtain ⟨hrequest, horiginal, htried⟩ :=
        point_keeps c { s with route := { s.route with hops := s.route.hops + 1 } } there
      refine ⟨path, hpath, redirectPath_clean hparse hthere hpath, htried, ?_, ?_⟩
      · simp only [horiginal, hrequest]
        rfl
      · simp only [horiginal, hrequest]
        rfl

/-- A second move undoes the first. -/
theorem PathFields.movedTo_movedTo (original : PathFields) {path : Text} (hnot : '?' ∉ path) (next : Text) :
    (original.movedTo path).movedTo next = original.movedTo (if next = [] then path else next) := by
  by_cases hnext : next = []
  · rw [if_pos hnext, hnext]
    exact if_pos rfl
  · rw [if_neg hnext, movedTo, if_neg hnext, movedTo, movedTo, if_neg hnext]
    split
    · rfl
    · next hpath => exact repath_repath original hpath hnot next

theorem OnTrail.redirect (hparse : ReadsPaths parse) {original : PathFields} {trail : Trail} {s s' : Errand}
    {target : RedirectInfo} (h : OnTrail original trail s) (hredirect : s.redirect parse c target = .ok s') :
    ∃ path, redirectPath parse target = .ok path ∧ OnTrail original (trail.hop path target.token) s' := by
  obtain ⟨path, hpath, hclean, htried, horiginal, hfields⟩ := Errand.redirect_spec hparse hredirect
  have hbase : s.route.original.getD s.request.fields = original.movedTo trail.moved := by
    rcases h.snapshot with hsome | ⟨hnone, rfl, -⟩
    · rw [hsome]
      rfl
    · rw [hnone, Option.getD_none, h.fields]
      exact PathFields.sent_start original
  have hmoved : (original.movedTo trail.moved).movedTo path =
      original.movedTo (trail.hop path target.token).moved := PathFields.movedTo_movedTo original h.clean path
  rw [hbase, hmoved] at horiginal hfields
  refine ⟨path, hpath, hfields, .inl horiginal, htried.trans h.tried, ?_⟩
  show '?' ∉ (if path = [] then trail.moved else path)
  split
  · exact h.clean
  · exact hclean

theorem OnTrail.goHome {original : PathFields} {trail : Trail} {s : Errand} (h : OnTrail original trail s)
    (haway : s.route.away = true) (reason : Text) :
    OnTrail original (trail.home (s.route.target.getD s.router.url).host reason) (s.goHome reason) := by
  have hsome : s.route.original = some (original.movedTo trail.moved) := by
    rcases h.snapshot with hsome | ⟨-, -, hnot⟩
    · exact hsome
    · rw [haway] at hnot
      cases hnot
  have hkept : (s.goHome reason).route.original = s.route.original ∧
      (s.goHome reason).route.tried = Session.tried s.route.tried (s.route.target.getD s.router.url).host ∧
      (s.goHome reason).request.fields = (s.route.original.getD []).map fun path =>
        withTried path (Session.tried s.route.tried (s.route.target.getD s.router.url).host) reason := by
    unfold Errand.goHome Errand.returnHome
    dsimp only
    split
    · exact ⟨rfl, rfl, rfl⟩
    · split
      · exact ⟨rfl, rfl, rfl⟩
      · exact ⟨rfl, rfl, rfl⟩
  obtain ⟨horiginal, htried, hfields⟩ := hkept
  refine ⟨?_, .inl (horiginal.trans hsome), htried.trans (by rw [h.tried]; rfl), h.clean⟩
  rw [hfields, hsome, h.tried]
  rfl

/-- **One turn.**  What goes out next is as the trail has it. -/
theorem OnTrail.turn (hparse : ReadsPaths parse) {world : Nat → Turn} {original : PathFields} {trail : Trail}
    {s s' : Errand} {log : List Entry} (h : OnTrail original trail s)
    (hturn : s.turn parse c world = (log, .inl s')) : OnTrail original (s.trail parse c world trail) s' := by
  unfold Errand.turn at hturn
  dsimp only at hturn
  split at hturn
  · cases hturn
  have hstays := Errand.attempt_stays c s (world s.turns)
  unfold Errand.trail
  rcases hattempt : s.attempt c (world s.turns) with ⟨entries, result, s₁⟩
  rw [hattempt] at hturn hstays
  dsimp only at hturn hstays ⊢
  -- the turn is counted, which the request does not see
  have h₁ : OnTrail original trail { s₁ with turns := s₁.turns + 1 } :=
    h.stays ⟨hstays.fields, hstays.original, hstays.tried, hstays.away⟩
  cases result with
  | ok data => cases hturn
  | error e =>
    cases e with
    | redirect target =>
      dsimp only at hturn ⊢
      unfold Errand.follow at hturn
      split at hturn
      · cases hturn
      split at hturn
      · cases hturn
      · next file hfile =>
        rw [hfile]
        unfold Errand.goLocal at hturn
        split at hturn
        · cases hturn
        · split at hturn
          · cases hturn
            exact h₁.stays ⟨rfl, rfl, rfl, rfl⟩
          · cases hturn
      · next hnone =>
        rw [hnone]
        split at hturn
        · cases hturn
        next hredirect =>
        cases hturn
        obtain ⟨path, hpath, hout⟩ := h₁.redirect hparse hredirect
        rw [hpath]
        exact hout
    | connection timeout =>
      dsimp only at hturn ⊢
      unfold Errand.recover at hturn
      dsimp only at hturn
      split at hturn
      · cases hturn
      split at hturn
      · cases hturn
      split at hturn
      · next haway =>
        cases hturn
        have hcounted : OnTrail original trail { s₁ with
            turns := s₁.turns + 1
            route := { s₁.route with attempts := s₁.route.attempts + 1 } } := h₁.stays ⟨rfl, rfl, rfl, rfl⟩
        rw [if_pos (show s₁.route.away = true from haway)]
        exact hcounted.goHome haway LOST
      · next haway =>
        cases hturn
        rw [if_neg (show ¬ s₁.route.away = true from haway)]
        exact h₁.stays ⟨rfl, rfl, rfl, rfl⟩
    | server code =>
      dsimp only at hturn ⊢
      unfold Errand.retryAtBalancer at hturn
      split at hturn
      · cases hturn
      next hmay =>
      have haway : s₁.route.away = true := by
        simp only [Errand.balancerMayRetry, Bool.not_eq_true', Bool.not_eq_false] at hmay
        simp only [Bool.and_eq_true] at hmay
        exact hmay.1.1.1.1
      have hhome := h₁.goHome haway (triedReason code)
      cases hturn
      dsimp only
      split
      · exact hhome.stays ⟨rfl, rfl, rfl, rfl⟩
      · exact hhome
    | waitLimit | expired | transient | redirectLimit | misdirected | other => cases hturn

/-- **What goes out, at every attempt.**  Whatever has happened before, the path fields are
those of the caller, moved to where the last redirect that named a path moved them, with
what the last hop or the last return puts on each path. -/
theorem Reached.onTrail (hparse : ReadsPaths parse) {world : Nat → Turn} {r : Router} {request : Ask} {s : Errand}
    {trail : Trail} (h : Reached parse c world (.start r request) s trail) : OnTrail request.fields trail s := by
  induction h with
  | start =>
    exact ⟨(PathFields.sent_start request.fields).symm, .inr ⟨rfl, rfl, rfl⟩, rfl, List.not_mem_nil⟩
  | turn _ hturn ih => exact ih.turn hparse hturn

end

/-! ## The request itself -/

theorem get_setFields_of_not_mem {attributes : Attributes} {fields : PathFields} {name : Text}
    (h : name ∉ List.map Prod.fst fields) : (setFields attributes fields).get name = attributes.get name := by
  induction fields generalizing attributes with
  | nil => rfl
  | cons field fields ih =>
    rw [List.map_cons, List.mem_cons, not_or] at h
    rw [setFields, List.foldl_cons, ← setFields, ih h.2, Assoc.get_set_of_ne _ _ h.1]

/-- What was written is read back. -/
theorem filterMap_setFields {names : List Text} (hnames : names.Nodup) {attributes : Attributes} {fields : PathFields}
    (h : List.map Prod.fst fields =
      List.map Prod.fst (names.filterMap fun name => (attributes.get name).map fun value => (name, value))) :
    (names.filterMap fun name => ((setFields attributes fields).get name).map fun value => (name, value)) =
      fields := by
  have hsub : ∀ (names : List Text) (attributes : Attributes),
      List.map Prod.fst (names.filterMap fun name => (attributes.get name).map fun value => (name, value)) ⊆ names := by
    intro names attributes name hname
    obtain ⟨field, hfield, rfl⟩ := List.mem_map.mp hname
    obtain ⟨found, hfound, heq⟩ := List.mem_filterMap.mp hfield
    obtain ⟨value, -, rfl⟩ := Option.map_eq_some_iff.mp heq
    exact hfound
  induction names generalizing attributes fields with
  | nil =>
    rw [List.filterMap_nil, List.map_nil, List.map_eq_nil_iff] at h
    rw [h, List.filterMap_nil]
  | cons name names ih =>
    obtain ⟨hname, hrest⟩ := List.nodup_cons.mp hnames
    cases hget : attributes.get name with
    | none =>
      rw [List.filterMap_cons_none (by rw [hget]; rfl)] at h
      have hout : name ∉ List.map Prod.fst fields := fun hmem => hname (hsub _ _ (h ▸ hmem))
      rw [List.filterMap_cons_none (by rw [get_setFields_of_not_mem hout, hget]; rfl), ih hrest h]
    | some value =>
      rw [List.filterMap_cons_some (by rw [hget]; rfl), List.map_cons] at h
      obtain ⟨⟨name', out⟩, more, rfl, hfirst, hmore⟩ := List.map_eq_cons_iff.mp h
      obtain rfl : name' = name := hfirst
      have hsame : (names.filterMap fun name => (attributes.get name).map fun value => (name, value)) =
          names.filterMap fun name => ((attributes.set name' out).get name).map fun value => (name, value) := by
        refine List.filterMap_congr fun other hother => ?_
        rw [Assoc.get_set_of_ne]
        rintro rfl
        exact hname hother
      rw [hsame] at hmore
      have hout : name' ∉ List.map Prod.fst more := fun hmem => hname (hsub _ _ (hmore ▸ hmem))
      have hset : setFields attributes ((name', out) :: more) = setFields (attributes.set name' out) more := rfl
      rw [hset, List.filterMap_cons_some, ih hrest hmore]
      rw [get_setFields_of_not_mem hout, Assoc.get_set_self]
      rfl

theorem pathNames_nodup (cls : Cls) : (pathNames cls).Nodup := by cases cls <;> decide

theorem pathFields_setFields {cls : Cls} {options : Nat} {attributes : Attributes} {fields : PathFields}
    (h : List.map Prod.fst fields = List.map Prod.fst (pathFields cls options attributes)) :
    pathFields cls options (setFields attributes fields) = fields := by
  unfold pathFields at h ⊢
  split
  · next hcancel =>
    rw [if_pos hcancel, List.map_nil, List.map_eq_nil_iff] at h
    rw [h]
  · next hcancel =>
    rw [if_neg hcancel] at h
    exact filterMap_setFields (pathNames_nodup cls) h

/-- The fields keep their names. -/
theorem PathFields.sent_names (original : PathFields) (trail : Trail) :
    List.map Prod.fst (original.sent trail) = List.map Prod.fst original := by
  have hmap : List.map Prod.fst (original.sent trail) = List.map Prod.fst (original.movedTo trail.moved) := by
    rw [sent, map, List.map_map]
    rfl
  rw [hmap, movedTo]
  split
  · rfl
  · rcases lastNamed original with hnone | ⟨before, name, value, after, rfl, hvalue, hafter⟩
    · rw [repath_none _ hnone]
    · rw [repath_spec _ before name hvalue hafter]
      simp

/-- What goes out of a request, at the end of a trail. -/
structure Outgoing (cls : Cls) (options : Nat) (attributes : Attributes) (trail : Trail) (out : Attributes) : Prop where
  /-- A function of what the caller said, of where the last redirect that named a path
  moved it, and of the last hop or return: that goes on every path. -/
  fields : pathFields cls options out = ((pathFields cls options attributes).movedTo trail.moved).map trail.put
  /-- What is no path of the server's is the caller's. -/
  others : ∀ name, name ∉ pathNames cls → out.get name = attributes.get name
  /-- The last field that names a path moves, and no other does. -/
  moved : ∀ (before : PathFields) (name value : Text) (after : PathFields),
    pathFields cls options attributes = before ++ (name, .one value) :: after → value ≠ [] →
    (∀ f ∈ after, ¬ f.2.Named) → trail.moved ≠ [] →
    (pathFields cls options attributes).movedTo trail.moved =
      before ++ (name, .one (replaced trail.moved value)) :: after
  base : ∀ path, base (trail.put path) = Session.base path
  /-- A token leaves all the parameters where they were. -/
  cgi : (∀ reason, trail.mark ≠ .failed reason) → ∀ path, cgi path <+: Session.cgi (trail.put path)
  own : ∀ path, (own path).Sublist (Session.cgi (trail.put path))

/-- **A redirect leaves nothing behind.**  For every request, and every way it takes: what
is written into its attributes before an attempt is a function of what the caller said, of
the path that the last redirect to name one named, and of what came last, a token or the
list of who failed and why; and the caller's own parameters stay, in their order. -/
theorem Reached.outgoing {abspath unquote : Text → Text} {int : Text → Option Nat} {c : Policy}
    {world : Nat → Turn} {r : Router} {request : Ask} {s : Errand} {trail : Trail} {cls : Cls} {options : Nat}
    {attributes : Attributes} (hfields : request.fields = pathFields cls options attributes)
    (h : Reached (parseUrl abspath unquote int) c world (.start r request) s trail) :
    Outgoing cls options attributes trail (setFields attributes s.request.fields) := by
  have hsent := (h.onTrail (parseUrl_readsPaths abspath unquote int)).fields
  rw [hfields] at hsent
  have hnames : List.map Prod.fst s.request.fields = List.map Prod.fst (pathFields cls options attributes) := by
    rw [hsent, PathFields.sent_names]
  refine ⟨?_, fun name hname => ?_, fun before name value after heq hvalue hafter hmoved => ?_, fun path => ?_,
    fun hmark path => ?_, fun path => ?_⟩
  · rw [pathFields_setFields hnames, hsent]
    rfl
  · refine get_setFields_of_not_mem fun hmem => hname ?_
    rw [hnames] at hmem
    unfold pathFields at hmem
    split at hmem
    · cases hmem
    · obtain ⟨field, hfield, rfl⟩ := List.mem_map.mp hmem
      obtain ⟨found, hfound, heq⟩ := List.mem_filterMap.mp hfield
      obtain ⟨value, -, rfl⟩ := Option.map_eq_some_iff.mp heq
      exact hfound
  · rw [PathFields.movedTo, if_neg hmoved, heq, repath_spec _ before name hvalue hafter]
  · unfold Trail.put
    split
    · rfl
    · exact (withToken_keeps path _).1
    · exact (withTried_keeps path _ _).1
  · unfold Trail.put
    split
    · exact List.prefix_refl _
    · exact (withToken_keeps path _).2
    · next reason hfailed => exact absurd hfailed (hmark reason)
  · unfold Trail.put
    split
    · exact List.filter_sublist
    · exact List.filter_sublist.trans (withToken_keeps path _).2.sublist
    · exact (withTried_keeps path _ _).2

/-- A manager that sends the request to another server, which then drops it. -/
def manager : Router := { url := { host := "m".toList, port := 1094 }, sticky := false }

def sentAway (target : RedirectInfo) : Nat → Turn
  | 0 => { last := .redirected target }
  | _ => { last := .lost false }

def bareRename : Attributes := [("src".toList, .one "/a?x=1".toList), ("dst".toList, .one "/b".toList)]

/-- A rename, moved by its redirect. -/
theorem Reached.outgoing_rename : ∃ (s : Errand) (trail : Trail),
    s.request.fields = [("src".toList, .one "/a?x=1&t=1".toList), ("dst".toList, .one "/new?t=1".toList)] ∧
      Outgoing .mv 0 bareRename trail (setFields bareRename s.request.fields) := by
  refine ⟨_, _, ?_, @Reached.outgoing id id (fun _ => none) {}
    (sentAway ⟨"root://ds//new".toList, -1, "t=1".toList⟩) manager
    { idempotent := true, fields := pathFields .mv 0 bareRename } _ _ .mv 0 bareRename rfl (.turn .start rfl)⟩
  decide

/-- A list of who failed takes in the one that the caller gave, which stood before another
parameter; and what is moved of a rename to nowhere is its source. -/
theorem caller_changed :
    (¬ ∀ (c : Policy) (world : Nat → Turn) (r : Router) (path out : Text) (s : Errand) (trail : Trail),
      Reached (parseUrl id id fun _ => none) c world
        (.start r { idempotent := true, fields := [("path".toList, .one path)] }) s trail →
      s.request.fields = [("path".toList, .one out)] → (cgi path).Sublist (cgi out)) ∧
    ¬ ∀ (original : PathFields) (path : Text), (repath original path).dropLast = original.dropLast := by
  refine ⟨fun h => ?_, fun h => ?_⟩
  · have hkept := h {} (sentAway ⟨"ds".toList, 1095, []⟩) manager "/f?tried=a&x=1".toList
      "/f?x=1&tried=a,ds&triedrc=srverr".toList _ _ (.turn (.turn .start rfl) rfl) (by decide)
    exact absurd hkept (by decide)
  · exact absurd (h [("src".toList, .one "/a".toList), ("dst".toList, .one [])] "/b".toList) (by decide)

end XrdClient.Session
