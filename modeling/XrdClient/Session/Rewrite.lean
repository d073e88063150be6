/-
  Session/Rewrite.lean --- how a redirect rewrites the request it answered.

  Source: `session/_rewrite.py`; `target_path` is in `session/local.py`.

  All of it is text.  `parse` is `url.parse`, as far as a redirect asks it.
-/
import XrdClient.Proto.Responses
import XrdClient.Auth.Identity

set_option autoImplicit false

namespace XrdClient.Session

open XrdClient.Lib
open XrdClient.Proto
open XrdClient.Auth

/-! ## Path fields -/

/-- A field that names one path, or several. -/
inductive PathField where
  | one (path : Text)
  | many (paths : List Text)
  deriving DecidableEq

/-- The fields of a request that a redirect's token goes on, by name. -/
abbrev PathFields : Type := List (Text × PathField)

def PathField.map (f : Text → Text) : PathField → PathField
  | .one path => .one (f path)
  | .many paths => .many (paths.map f)

/-- Every path of every field, changed. -/
def PathFields.map (f : Text → Text) (fields : PathFields) : PathFields :=
  List.map (fun p => (p.1, p.2.map f)) fields

/-- `_with_token`. -/
def withToken (path token : Text) : Text :=
  if token = [] ∨ path = [] then path
  else path ++ (if '?' ∈ path then '&' else '?') :: token

/-- `_retarget`: what the request says from now on. -/
def retarget (original : PathFields) (token : Text) : PathFields :=
  original.map fun path => withToken path token

/-- The first single path that is not empty, in place of which `path` goes. -/
def repathFirst (path : Text) : PathFields → PathFields
  | [] => []
  | (name, .one (c :: value)) :: rest =>
      let (_, sep, query) := partitionAt '?' (c :: value)
      (name, .one (path ++ (if sep then ['?'] else []) ++ query)) :: rest
  | field :: rest => field :: repathFirst path rest

/-- `_repath`: of a rename it is the destination that moves, so the last field. -/
def repath (original : PathFields) (path : Text) : PathFields :=
  (repathFirst path original.reverse).reverse

/-! ## Whom it has been to -/

/-- `tried`. -/
def tried (hosts : List Text) (host : Text) : List Text :=
  if host ∈ hosts then hosts else hosts ++ [host]

/-- `_without_tried`: the other parameters, and the hosts named. -/
def withoutTried (query : Text) : List Text × List Text :=
  ((query.splitOn '&').filter (· ≠ [])).foldl (fun (kept, earlier) item =>
    let (key, _, value) := partitionAt '=' item
    if key = "tried".toList then (kept, earlier ++ (value.splitOn ',').filter (· ≠ []))
    else if key = "triedrc".toList then (kept, earlier)
    else (kept ++ [item], earlier)) ([], [])

/-- `with_tried`. -/
def withTried (path : Text) (hosts : List Text) (reason : Text) : Text :=
  if hosts = [] ∨ path = [] then path
  else
    let (base, _, query) := partitionAt '?' path
    let (kept, earlier) := withoutTried query
    let names := (earlier ++ hosts).foldl tried []
    let kept := kept ++ ["tried=".toList ++ [','].intercalate names] ++
      (if reason = [] then [] else ["triedrc=".toList ++ reason])
    base ++ '?' :: ['&'].intercalate kept

def kXR_FSError : Nat := 3005
def kXR_IOError : Nat := 3007
def kXR_NoMemory : Nat := 3008
def kXR_NotAuthorized : Nat := 3010
def kXR_NotFound : Nat := 3011
def kXR_ServerError : Nat := 3012
def kXR_Unsupported : Nat := 3013
def kXR_isDirectory : Nat := 3016
def kXR_Overloaded : Nat := 3024

/-- `TRIED_REASONS.get(code, "")`. -/
def triedReason (code : Nat) : Text :=
  if code = kXR_NotFound then "enoent".toList
  else if code = kXR_IOError then "ioerr".toList
  else if code = kXR_FSError then "fserr".toList
  else if code = kXR_ServerError then "srverr".toList
  else []

def LOST : Text := "srverr".toList

/-! ## Where it points -/

/-- What is before the first `://`, and what is behind it. -/
def partitionScheme : Text → Option (Text × Text)
  | ':' :: '/' :: '/' :: rest => some ([], rest)
  | c :: rest => (partitionScheme rest).map fun p => (c :: p.1, p.2)
  | [] => none

/-- Of a URL, its scheme, where it goes and the path it names. -/
structure Parsed where
  scheme : Text
  url : Url
  path : Text

/-- Why a redirect is not followed. -/
inductive Misdirected where
  /-- `parse` raises. -/
  | unparsed (text : Text)
  /-- `redirected to a … URL, which is not XRootD: …`. -/
  | notXRootD (scheme host : Text)
  /-- `kXR_redirect with a negative port names no host: …`. -/
  | noHost (host : Text)
  /-- `redirected to …, a file on another host`. -/
  | otherHost (url : Text)
  /-- `refusing the redirect to …: local_redirect is 'never'`. -/
  | never (url : Text)
  /-- `refusing the redirect to …: the server that sent it is not on this host …`. -/
  | notLocal (url : Text)
  deriving DecidableEq

section

variable (parse : Text → Except Misdirected Parsed)

/-- `_as_url`. -/
def asUrl (host : Text) : Text :=
  if (partitionScheme host).isSome then host else "root://".toList ++ host

/-- `ROOT_SCHEMES`. -/
def ROOT_SCHEMES : List Text := ["root".toList, "roots".toList, "xroot".toList, "xroots".toList,
  "xrootd".toList]

/-- `_redirect_url`. -/
def redirectUrl (base : Url) (host : Text) : Except Misdirected Url := do
  let target ← parse (asUrl host)
  if target.scheme ∉ ROOT_SCHEMES then throw (.notXRootD target.scheme host)
  if target.url.host = [] then throw (.noHost host)
  return { base with useTls := target.url.useTls, host := target.url.host, port := target.url.port }

/-- `_destination`. -/
def destination (base : Url) (target : RedirectInfo) : Except Misdirected Url :=
  if target.port < 0 then redirectUrl parse base target.host
  else .ok { base with host := target.host, port := if target.port = 0 then base.port else target.port.toNat }

/-- `_redirect_path`. -/
def redirectPath (target : RedirectInfo) : Except Misdirected Text :=
  if 0 ≤ target.port then .ok []
  else
    let url := asUrl target.host
    let rest := ((partitionScheme url).map Prod.snd).getD []
    if (partitionAt '/' rest).2.2 = [] then .ok [] else (parse url).map Parsed.path

end

def lower (s : Text) : Text := s.map Char.toLower

/-- `target_path`: the path of a `file://` URL of this host, or `none` if it is no such
URL. -/
def targetPath (url : Text) : Except Misdirected (Option Text) :=
  match partitionScheme url with
  | none => .ok none
  | some (scheme, rest) =>
      if lower scheme ≠ "file".toList then .ok none
      else
        let rest := (partitionAt '?' rest).1
        let rest := if "localhost/".toList.isPrefixOf (lower rest) then rest.drop "localhost".length else rest
        if rest.head? = some '/' then .ok (some rest)
        else .error (.otherHost url)

end XrdClient.Session
