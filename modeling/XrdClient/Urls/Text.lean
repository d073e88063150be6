/-
  Urls/Text.lean --- a URL, read from text and written out.

  Source: `url.py`, `XRootDURL`, `parse`, `__str__`, `quote_path` and `unquote_path`.  The
  steps of `parse` that a redirect needs, `_host_port`, `_default_port` and `_normalize`
  among them, are those of `Session/Trail`, which reads what `parse` does (`parseUrl_eq_parse`).

  Of the standard library, `lower`, `abspath` and the reading of a number are parameters;
  `Library` has what is known of them.
-/
import XrdClient.Lib.Repr
import XrdClient.Session.Trail
import XrdClient.Urls.Cgi

set_option autoImplicit false

namespace XrdClient.Urls

open XrdClient.Lib
open XrdClient.Session (defaultPort splitUser hostPort partitionScheme HTTP_SCHEMES ROOT_SCHEMES)

def S3_SCHEMES : List Text := ["s3".toList]

/-- `XRootDURL`; `rawQuery` is the query as it goes on the wire. -/
structure XRootDURL where
  scheme : Text := "root".toList
  host : Text := []
  port : Int := 1094
  path : Text := ['/']
  username : Text := []
  password : Text := []
  query : Assoc Text Text := []
  rawQuery : Text := []
  deriving DecidableEq

/-- `parse` raises: the port is no number, and the text. -/
structure InvalidPort where
  text : Text
  deriving DecidableEq

/-! ## Paths -/

/-- `_ENCODED_SLASH.split(path)` -/
def splitSlash : Text → List Text
  | '%' :: '2' :: c :: rest =>
      if c = 'F' ∨ c = 'f' then [] :: splitSlash rest
      else (splitSlash ('2' :: c :: rest)).modifyHead ('%' :: ·)
  | c :: rest => (splitSlash rest).modifyHead (c :: ·)
  | [] => [[]]

def ENCODED_SLASH : Text := "%2F".toList

/-- `quote_path` -/
def quotePath (path : Text) : Text := ENCODED_SLASH.intercalate ((splitSlash path).map (quote ['/']))

/-- `unquote_path` -/
def unquotePath (path : Text) : Text := ENCODED_SLASH.intercalate ((splitSlash path).map unquote)

/-- `text.lstrip("/")` -/
def lstrip (text : Text) : Text := text.dropWhile (· = '/')

/-! ## Reading and writing -/

section

variable (lower abspath : Text → Text) (int : Text → Option Int)

/-- `__post_init__` -/
def XRootDURL.init (u : XRootDURL) : XRootDURL := { u with
  scheme := lower u.scheme
  host := lower u.host
  rawQuery := if sameMapping (decode u.rawQuery) u.query then u.rawQuery else reconcile u.rawQuery u.query }

/-- `_file_url` -/
def fileUrl (path : Text) : XRootDURL := XRootDURL.init lower { scheme := "file".toList, port := 0, path := path }

/-- `_authority`: the user, the password and the rest. -/
def authority (text : Text) : Text × Text × Text :=
  match splitUser text with
  | (none, hostport) => ([], [], hostport)
  | (some userinfo, hostport) =>
      let (user, _, password) := partitionAt ':' userinfo
      (unquote user, unquote password, hostport)

/-- `_port` -/
def portOf (value scheme : Text) : Option Int := if value = [] then some (defaultPort scheme) else int value

/-- `_path_query`: the path, the CGI and what it decodes to. -/
def pathQuery (sep : Bool) (tail : Text) : Text × Text × Assoc Text Text :=
  let (path, _, cgi) := partitionAt '?' (if sep then '/' :: tail else ['/'])
  (path, cgi, decode cgi)

/-- `parse` -/
def parse (text : Text) : Except InvalidPort XRootDURL :=
  match partitionScheme text with
  | none => .ok (fileUrl lower (abspath text))
  | some (scheme, rest) =>
      let scheme := lower scheme
      if scheme = "file".toList then .ok (fileUrl lower (if rest = [] then ['/'] else rest))
      else
        let (authorityText, sep, tail) := partitionAt '/' rest
        let (username, password, hostport) := authority authorityText
        let (host, portText) := hostPort hostport
        match portOf int portText scheme with
        | none => .error ⟨text⟩
        | some port =>
            let (path, cgi, query) := pathQuery sep tail
            let path := if scheme ∈ HTTP_SCHEMES then unquotePath path else path
            .ok (XRootDURL.init lower
              { scheme, host, port, path := Session.normalize path, username, password, query, rawQuery := cgi })

/-- What `parse` returns: a `file` URL, or one whose parts are those of the text. -/
theorem parse_ok {text : Text} {u : XRootDURL} (h : parse lower abspath int text = .ok u) :
    (∃ path, (path = abspath text ∨ path ≠ []) ∧ u = fileUrl lower path) ∨
    ∃ scheme rest authorityText sep tail username password hostport port,
      partitionScheme text = some (scheme, rest) ∧ lower scheme ≠ "file".toList ∧
      partitionAt '/' rest = (authorityText, sep, tail) ∧
      authority authorityText = (username, password, hostport) ∧
      portOf int (hostPort hostport).2 (lower scheme) = some port ∧
      u = XRootDURL.init lower {
        scheme := lower scheme, host := (hostPort hostport).1, port := port
        path := Session.normalize
          (if lower scheme ∈ HTTP_SCHEMES then unquotePath (pathQuery sep tail).1 else (pathQuery sep tail).1)
        username := username, password := password
        query := decode (pathQuery sep tail).2.1, rawQuery := (pathQuery sep tail).2.1 } := by
  rw [parse] at h
  split at h
  · exact .inl ⟨abspath text, .inl rfl, (Except.ok.inj h).symm⟩
  · next scheme rest hscheme =>
    simp only at h
    split at h
    · refine .inl ⟨_, .inr ?_, (Except.ok.inj h).symm⟩
      split
      · exact List.cons_ne_nil _ _
      · assumption
    · next hfile =>
      split at h
      · cases h
      · next port hport =>
        exact .inr ⟨scheme, rest, _, _, _, _, _, _, port, hscheme, hfile, rfl, rfl, hport, (Except.ok.inj h).symm⟩

end

namespace XRootDURL

/-- `netloc` -/
def netloc (u : XRootDURL) : Text :=
  (if ':' ∈ u.host then '[' :: u.host ++ [']'] else u.host) ++ ':' :: reprInt u.port

/-- The credentials that `__str__` writes. -/
def auth (u : XRootDURL) : Text :=
  if u.username = [] then []
  else quote [] u.username ++ (if u.password = [] then [] else ':' :: quote [] u.password) ++ ['@']

/-- `__str__` -/
def str (u : XRootDURL) : Text :=
  if u.scheme = "file".toList then "file://".toList ++ u.path
  else
    let sep := if u.scheme ∈ ROOT_SCHEMES then "//".toList else "/".toList
    let address := if u.scheme ∈ S3_SCHEMES then u.host else u.netloc
    let path := if u.scheme ∈ HTTP_SCHEMES then quotePath u.path else u.path
    u.scheme ++ "://".toList ++ u.auth ++ address ++ sep ++ lstrip path ++
      (if u.rawQuery = [] then [] else '?' :: u.rawQuery)

/-- The changes of `evolve`: every attribute that is given. -/
structure Changes where
  scheme : Option Text := none
  host : Option Text := none
  port : Option Int := none
  path : Option Text := none
  username : Option Text := none
  password : Option Text := none
  query : Option (Assoc Text Text) := none
  rawQuery : Option Text := none
  deriving DecidableEq

/-- `replace(url, **changes)`, before `__post_init__`. -/
def replaced (u : XRootDURL) (changes : Changes) : XRootDURL where
  scheme := changes.scheme.getD u.scheme
  host := changes.host.getD u.host
  port := changes.port.getD u.port
  path := changes.path.getD u.path
  username := changes.username.getD u.username
  password := changes.password.getD u.password
  query := changes.query.getD u.query
  rawQuery := changes.rawQuery.getD u.rawQuery

/-- The query that `with_query` asks for: a parameter that is `None` is skipped. -/
def merged (u : XRootDURL) (params : Assoc Text (Option Text)) : Assoc Text Text :=
  params.foldl (fun query param =>
    match param.2 with
    | none => query
    | some value => query.set param.1 value) u.query

end XRootDURL

/-! ## What a redirect reads -/

/-- Of a URL, what a redirect goes by. -/
def XRootDURL.parsed (u : XRootDURL) : Session.Parsed where
  scheme := u.scheme
  url := {
    useTls := decide (u.scheme ∈ Session.TLS_SCHEMES), host := u.host, port := u.port.toNat
    username := u.username }
  path := u.path

theorem toLower_toLower (c : Char) : c.toLower.toLower = c.toLower := by
  by_cases hupper : c.val ≥ 'A'.val ∧ c.val ≤ 'Z'.val
  · have hsmall : ¬ (c.val + ('a'.val - 'A'.val) ≥ 'A'.val ∧ c.val + ('a'.val - 'A'.val) ≤ 'Z'.val) := by
      simp only [ge_iff_le, UInt32.le_iff_toNat_le, UInt32.toNat_add, Char.reduceVal, UInt32.reduceSub,
        UInt32.reduceToNat] at hupper ⊢
      omega
    simp only [Char.toLower, dif_pos hupper, dif_neg hsmall]
  · simp only [Char.toLower, dif_neg hupper]

theorem lower_lower (s : Text) : Session.lower (Session.lower s) = Session.lower s := by
  rw [Session.lower, Session.lower, List.map_map]
  exact List.map_congr_left fun c _ => toLower_toLower c

theorem fileUrl_parsed (path : Text) :
    (fileUrl Session.lower path).parsed = ⟨"file".toList, { port := 0 }, path⟩ := rfl

/-- A redirect reads of a URL what `parse` does; its path is not unquoted on `root`. -/
theorem parseUrl_eq_parse (abspath : Text → Text) (int : Text → Option Int) {text : Text}
    (hroot : ∀ scheme rest, partitionScheme text = some (scheme, rest) → Session.lower scheme ∉ HTTP_SCHEMES) :
    Session.parseUrl abspath unquote (fun port => (int port).map Int.toNat) text =
      ((parse Session.lower abspath int text).map XRootDURL.parsed).mapError fun e => .unparsed e.text := by
  rw [Session.parseUrl, parse]
  cases hscheme : partitionScheme text with
  | none => rfl
  | some parts =>
    obtain ⟨scheme, rest⟩ := parts
    have hhttp := hroot scheme rest hscheme
    dsimp only
    rw [if_neg hhttp]
    split
    · next hfile =>
      rw [hfile]
      rfl
    · have huser : ∀ authorityText, (authority authorityText).1 =
          unquote (partitionAt ':' ((splitUser authorityText).1.getD [])).1 := by
        intro authorityText
        rw [authority]
        rcases splitUser authorityText with ⟨_ | userinfo, hostport⟩ <;> rfl
      have hhost : ∀ authorityText, (authority authorityText).2.2 = (splitUser authorityText).2 := by
        intro authorityText
        rw [authority]
        rcases splitUser authorityText with ⟨_ | userinfo, hostport⟩ <;> rfl
      rw [hhost, ← huser, portOf]
      by_cases hport : (hostPort (splitUser (partitionAt '/' rest).1).2).2 = []
      · rw [if_pos hport, if_pos hport]
        simp only [XRootDURL.init, lower_lower]
        rfl
      · rw [if_neg hport, if_neg hport]
        cases int (hostPort (splitUser (partitionAt '/' rest).1).2).2 with
        | none => rfl
        | some port =>
          simp only [XRootDURL.init, lower_lower]
          rfl

end XrdClient.Urls
