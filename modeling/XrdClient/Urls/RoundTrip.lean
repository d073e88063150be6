/-
  Urls/RoundTrip.lean --- a URL that was parsed, written out and parsed again.

  Source: `url.py`, `parse` and `__str__`.

  `Remote` is what `parse` makes of a text with a scheme of a server: parts that are split
  where they will be split again.  Part by part, what is written is read back.

  An `s3` URL is written without its port, since a bucket is no endpoint, and comes back with
  the default one.  Four spellings do not come back as they were: an escaped slash in small
  letters in an HTTP path, a password without a user, a host that begins with a bracket and
  has no colon, and a bucket with a colon.  Nothing is claimed of them here.
-/
import Mathlib
import XrdClient.Urls.Paths

set_option autoImplicit false

namespace XrdClient.Urls

open XrdClient.Lib
open XrdClient.Session (defaultPort splitUser hostPort partitionScheme HTTP_SCHEMES ROOT_SCHEMES
  not_mem_normalize)

/-! ## The standard library -/

/-- What is known of `str.lower`, `os.path.abspath` and `int`. -/
structure Library (lower abspath : Text → Text) (int : Text → Option Int) : Prop where
  lower_lower : ∀ s, lower (lower s) = lower s
  lower_small : ∀ s : Text, (∀ c ∈ s, c.toNat < 128 ∧ c.isUpper = false) → lower s = s
  /-- Only letters become letters. -/
  mem_lower : ∀ (s : Text) (c : Char), c.toNat < 128 → c.isAlpha = false → c ∈ lower s → c ∈ s
  head_lower : ∀ (s : Text) (c : Char), c.toNat < 128 → c.isAlpha = false → (lower s).head? = some c → s.head? = some c
  abspath_ne_nil : ∀ s, abspath s ≠ []
  /-- A number that was read is read again from its decimal text. -/
  int_reprInt : ∀ s n, int s = some n → int (reprInt n) = some n
  int_default : ∀ scheme, int (reprInt (defaultPort scheme)) = some (defaultPort scheme : Int)

/-- A host is of the text, and ends where it can be seen to end. -/
def Closed (host : Text) : Prop := ']' ∉ host ∨ ':' ∉ host ∧ host.head? ≠ some '['

/-- No character of a number is one that a URL is split at. -/
theorem mem_reprInt {n : Int} {c : Char} (h : c ∈ reprInt n) : isDigit c = true ∨ c = '-' := by
  unfold reprInt at h
  split at h
  · rcases List.mem_cons.mp h with rfl | h
    · exact .inr rfl
    · exact .inl (decimal_digits _ c h)
  · exact .inl (decimal_digits _ c h)

theorem not_mem_reprInt {c : Char} (hc : isDigit c = false) (hminus : c ≠ '-') (n : Int) : c ∉ reprInt n := by
  intro h
  rcases mem_reprInt h with hdigit | heq
  · rw [hc] at hdigit
    cases hdigit
  · exact hminus heq

theorem reprInt_ne_nil (n : Int) : reprInt n ≠ [] := by
  unfold reprInt
  split
  · exact List.cons_ne_nil _ _
  · exact decimal_ne_nil _

theorem hostPort_plain {text : Text} (h : text.head? ≠ some '[') :
    hostPort text = ((partitionAt ':' text).1, (partitionAt ':' text).2.2) := by
  unfold hostPort
  split
  · exact absurd rfl h
  · rfl

/-- An address with its port is read back, if the host can be seen to end. -/
theorem XRootDURL.hostPort_netloc {u : XRootDURL} (hclosed : Closed u.host)
    (hhead : ':' ∉ u.host → u.host.head? ≠ some '[') : hostPort u.netloc = (u.host, reprInt u.port) := by
  unfold XRootDURL.netloc
  by_cases hcolon : ':' ∈ u.host
  · have hbracket : ']' ∉ u.host := hclosed.resolve_right fun h => h.1 hcolon
    have hnone : ':' ∉ reprInt u.port := not_mem_reprInt (by decide) (by decide) _
    rw [if_pos hcolon]
    simp only [List.cons_append, List.append_assoc, List.nil_append, hostPort]
    rw [partitionAt_append hbracket]
    simp only [Prod.mk.injEq, true_and]
    obtain ⟨c, rest, hport⟩ := List.exists_cons_of_ne_nil (reprInt_ne_nil u.port)
    have hc : c ≠ ':' := by
      rintro rfl
      exact hnone (hport ▸ List.mem_cons_self)
    rw [hport, List.dropWhile_cons_of_pos (by simp), List.dropWhile_cons_of_neg (by simpa using hc)]
  · have hplain : (u.host ++ ':' :: reprInt u.port).head? ≠ some '[' := by
      cases hhost : u.host with
      | nil => exact fun h => absurd (Option.some.inj h) (by decide)
      | cons c rest => exact fun h => hhead hcolon (by rw [hhost]; exact h)
    rw [if_neg hcolon, hostPort_plain hplain, partitionAt_append hcolon]

/-- A bucket is read back, and has no port. -/
theorem hostPort_bucket {host : Text} (hcolon : ':' ∉ host) (hhead : host.head? ≠ some '[') :
    hostPort host = (host, []) := by
  rw [hostPort_plain hhead, partitionAt_of_not_mem hcolon]

section

variable {lower abspath : Text → Text} {int : Text → Option Int}

/-- What `parse` makes of the URL of a server. -/
structure Remote (lower : Text → Text) (int : Text → Option Int) (u : XRootDURL) : Prop where
  scheme : u.scheme ∈ ROOT_SCHEMES ++ HTTP_SCHEMES ++ S3_SCHEMES
  lower_scheme : lower u.scheme = u.scheme
  lower_host : lower u.host = u.host
  slash : '/' ∉ u.host
  marker : '@' ∉ u.host
  closed : Closed u.host
  port : int (reprInt u.port) = some u.port
  path : Normal u.path
  question : u.scheme ∉ HTTP_SCHEMES → '?' ∉ u.path
  query : u.query = decode u.rawQuery

/-- What is written of a URL comes back: if it is a bucket's, without a port of its own and
without a colon; if its host has no colon, without a bracket in front; with a user, if there is
a password; and with the escaped slashes of an HTTP path in capitals. -/
structure Written (u : XRootDURL) : Prop where
  port : u.scheme ∈ S3_SCHEMES → u.port = 443
  bucket : u.scheme ∈ S3_SCHEMES → ':' ∉ u.host
  bracket : ':' ∉ u.host → u.host.head? ≠ some '['
  password : u.username = [] → u.password = []
  capitals : u.scheme ∈ HTTP_SCHEMES → ¬ "%2f".toList <:+: u.path

/-- The path that is written is the path that is read. -/
theorem Remote.written {u : XRootDURL} (h : Remote lower int u)
    (hcapitals : u.scheme ∈ HTTP_SCHEMES → ¬ "%2f".toList <:+: u.path) :
    ∃ tail, (if u.scheme ∈ ROOT_SCHEMES then "//".toList else "/".toList)
        ++ lstrip (if u.scheme ∈ HTTP_SCHEMES then quotePath u.path else u.path) = '/' :: tail ∧ '?' ∉ tail ∧
      Session.normalize (if u.scheme ∈ HTTP_SCHEMES then unquotePath ('/' :: tail) else '/' :: tail) = u.path := by
  have hapart : ∀ scheme ∈ HTTP_SCHEMES, scheme ∉ ROOT_SCHEMES := by decide
  have hlstrip : ∀ rest : Text, rest.head? ≠ some '/' → lstrip ('/' :: rest) = rest := by
    intro rest hrest
    cases rest with
    | nil => rfl
    | cons c rest => exact (List.dropWhile_cons_of_pos (by simp)).trans (List.dropWhile_cons_of_neg (by simpa using hrest))
  obtain ⟨rest, hpath, hrest⟩ := h.path.slash
  by_cases hhttp : u.scheme ∈ HTTP_SCHEMES
  · have hquoted : quotePath u.path = '/' :: quotePath rest := by rw [hpath, quotePath_slash]
    have hsmall : ¬ "%2f".toList <:+: rest := fun hin =>
      hcapitals hhttp (hpath ▸ hin.trans (List.suffix_cons _ _).isInfix)
    simp only [if_neg (hapart _ hhttp), if_pos hhttp]
    rw [hquoted, hlstrip _ fun hhead => hrest (head_quotePath hsmall hhead)]
    refine ⟨quotePath rest, rfl, question_not_mem_quotePath rest, ?_⟩
    rw [← hquoted, unquotePath_quotePath_of_capitals (hcapitals hhttp)]
    exact h.path.normalize_eq (.inl rfl)
  · have hquestion : '?' ∉ rest := fun hmem => h.question hhttp (hpath ▸ List.mem_cons_of_mem _ hmem)
    simp only [if_neg hhttp]
    have hnormalize : Session.normalize u.path = u.path ∧ Session.normalize ('/' :: u.path) = u.path :=
      ⟨h.path.normalize_eq (.inl rfl), h.path.normalize_eq (.inr rfl)⟩
    rw [hpath] at hnormalize ⊢
    rw [hlstrip rest hrest]
    split
    · exact ⟨'/' :: rest, rfl, by simp [hquestion], hnormalize.2⟩
    · exact ⟨rest, rfl, hquestion, hnormalize.1⟩

/-- The address that is written is the host and the port that are read. -/
theorem Remote.address {u : XRootDURL} (h : Remote lower int u) (hwritten : Written u) : ∃ portText,
    hostPort (if u.scheme ∈ S3_SCHEMES then u.host else u.netloc) = (u.host, portText) ∧
      portOf int portText u.scheme = some u.port := by
  split
  · next hs3 =>
    refine ⟨[], hostPort_bucket (hwritten.bucket hs3) (hwritten.bracket (hwritten.bucket hs3)), ?_⟩
    rw [portOf, if_pos rfl, hwritten.port hs3, List.mem_singleton.mp hs3]
    decide
  · refine ⟨reprInt u.port, XRootDURL.hostPort_netloc h.closed hwritten.bracket, ?_⟩
    rw [portOf, if_neg (reprInt_ne_nil _), h.port]

end

end XrdClient.Urls
