/-
  Urls/Paths.lean --- paths that come through writing and reading.

  Source: `url.py`, `_normalize`, `quote_path` and `unquote_path`.

  A normal path is what `normalize` makes, and has one slash in front; a second one, as
  `root://` URLs have it, is taken off again.

  `quote_path` cuts at escaped slashes and quotes what is between.  Nothing that is quoted
  looks like one, so `unquote_path` finds the same cuts.  It writes them in capitals, though,
  so a path that spells one in small letters is not the one that comes back.
-/
import XrdClient.Lib.Pieces
import XrdClient.Urls.Text

set_option autoImplicit false

namespace XrdClient.Urls

open XrdClient.Lib

/-! ## Normal paths -/

/-- A path that normalising leaves as it is. -/
def Normal (path : Text) : Prop := ∃ names : List Text, (∀ n ∈ names, Posix.Name n) ∧
  (path = Posix.render names ∨ names ≠ [] ∧ path = Posix.body names ++ ['/'])

/-- One slash is in front. -/
theorem Normal.slash {path : Text} (h : Normal path) : ∃ rest, path = '/' :: rest ∧ rest.head? ≠ some '/' := by
  obtain ⟨names, hnames, hpath⟩ := h
  cases names with
  | nil =>
    obtain rfl : path = ['/'] := hpath.resolve_right fun h => h.1 rfl
    exact ⟨[], rfl, nofun⟩
  | cons n names =>
    obtain ⟨hn, -⟩ := List.forall_mem_cons.mp hnames
    have hhead : ∀ rest : Text, (n ++ rest).head? ≠ some '/' := by
      intro rest
      obtain ⟨c, n', rfl⟩ := List.exists_cons_of_ne_nil hn.1
      exact fun hslash => Posix.head_ne_slash hn.2.1 hslash
    rcases hpath with rfl | ⟨-, rfl⟩
    · exact ⟨n ++ Posix.body names, rfl, hhead _⟩
    · exact ⟨n ++ Posix.body names ++ ['/'], rfl, by rw [List.append_assoc]; exact hhead _⟩

/-- A normal path stays, with one slash in front or two. -/
theorem Normal.normalize_eq {path written : Text} (h : Normal path) (hwritten : written = path ∨ written = '/' :: path) :
    Session.normalize written = path := by
  obtain ⟨rest, hpath, hrest⟩ := h.slash
  have hdrop : rest.dropWhile (· = '/') = rest := by
    cases rest with
    | nil => rfl
    | cons c rest => exact List.dropWhile_cons_of_neg (by simpa using hrest)
  have hstrip : '/' :: written.dropWhile (· = '/') = path := by
    rcases hwritten with rfl | rfl <;> simp [hpath, hdrop]
  have hnil : written ≠ [] := by
    rcases hwritten with rfl | rfl <;> simp [hpath]
  have hlast : written.getLast? = path.getLast? := by
    rcases hwritten with rfl | rfl
    · rfl
    · rw [hpath, List.getLast?_cons_cons]
  rw [Session.normalize, if_neg hnil, hstrip, hlast]
  obtain ⟨names, hnames, rfl | ⟨hne, rfl⟩⟩ := h
  · rw [Posix.components_render hnames]
    simp only
    rw [if_neg]
    rintro ⟨htrailing, hnone⟩
    simp [hnone] at htrailing
  · have hlong : 1 < written.length := by
      obtain ⟨n, names, rfl⟩ := List.exists_cons_of_ne_nil hne
      rcases hwritten with rfl | rfl <;> simp [Posix.body]
    rw [Posix.components_append_slash, Posix.components_body hnames, Posix.render_of_ne_nil hne]
    simp only
    rw [if_pos]
    exact ⟨by simp [hlong], Posix.getLast_body hnames hne⟩

/-! ## Escaped slashes -/

theorem splitSlash_cons {c : Char} (h : c ≠ '%') (rest : Text) :
    splitSlash (c :: rest) = (splitSlash rest).modifyHead (c :: ·) := by
  rw [splitSlash]
  rintro d tail rfl
  exact absurd rfl h

theorem splitSlash_percent {high low : Char} (h : ¬ (high = '2' ∧ (low = 'F' ∨ low = 'f'))) (rest : Text) :
    splitSlash ('%' :: high :: low :: rest) = (splitSlash (high :: low :: rest)).modifyHead ('%' :: ·) := by
  by_cases hhigh : high = '2'
  · subst hhigh
    rw [splitSlash, if_neg fun hlow => h ⟨rfl, hlow⟩]
  · rw [splitSlash]
    rintro d tail - heq
    exact hhigh (List.cons.inj heq).1

theorem splitSlash_ne_nil (path : Text) : splitSlash path ≠ [] := by
  fun_induction splitSlash path with
  | case1 => exact List.cons_ne_nil _ _
  | case2 c rest h ih => exact fun hnil => ih (List.modifyHead_eq_nil_iff.mp hnil)
  | case3 c rest h ih => exact fun hnil => ih (List.modifyHead_eq_nil_iff.mp hnil)
  | case4 => exact List.cons_ne_nil _ _

/-- No quoted byte looks like an escaped slash. -/
theorem splitSlash_quoteByte (b : UInt8) (rest : Text) :
    splitSlash (quoteByte ['/'] b ++ rest) = (splitSlash rest).modifyHead (quoteByte ['/'] b ++ ·) := by
  have hb := b.toNat_lt
  unfold quoteByte
  split
  · next hsafe =>
    have hne : Char.ofNat b.toNat ≠ '%' := fun heq => absurd (heq ▸ hsafe.2) (by decide)
    exact splitSlash_cons hne rest
  · next hunsafe =>
    have hdigits : ∀ n, n < 16 → upperHex n ≠ '%' ∧ (upperHex n = '2' → n = 2) ∧
        (upperHex n = 'F' ∨ upperHex n = 'f' → n = 15) := by decide
    have hhigh := hdigits (b.toNat / 16) (by omega)
    have hlow := hdigits (b.toNat % 16) (by omega)
    -- the byte of a slash is not escaped
    have hslash : ¬ (upperHex (b.toNat / 16) = '2' ∧ (upperHex (b.toNat % 16) = 'F' ∨ upperHex (b.toNat % 16) = 'f')) := by
      rintro ⟨htwo, hfifteen⟩
      have hbyte : b.toNat = 47 := by
        have := hhigh.2.1 htwo
        have := hlow.2.2 hfifteen
        omega
      rw [hbyte] at hunsafe
      exact hunsafe (by decide)
    rw [List.cons_append, List.cons_append, List.cons_append, List.nil_append, splitSlash_percent hslash,
      splitSlash_cons hhigh.1, splitSlash_cons hlow.1, List.modifyHead_modifyHead, List.modifyHead_modifyHead]
    rfl

theorem splitSlash_quote (part rest : Text) :
    splitSlash (quote ['/'] part ++ rest) = (splitSlash rest).modifyHead (quote ['/'] part ++ ·) := by
  unfold quote
  induction encodeUtf8 part with
  | nil =>
    rw [List.flatMap_nil, List.nil_append]
    cases splitSlash rest <;> rfl
  | cons b bs ih =>
    rw [List.flatMap_cons, List.append_assoc, splitSlash_quoteByte, ih, List.modifyHead_modifyHead]
    congr 1
    funext part
    exact (List.append_assoc _ _ _).symm

/-- The cuts of a quoted path are those of the path. -/
theorem splitSlash_quoted {parts : List Text} (h : parts ≠ []) :
    splitSlash (ENCODED_SLASH.intercalate (parts.map (quote ['/']))) = parts.map (quote ['/']) := by
  induction parts with
  | nil => exact absurd rfl h
  | cons part parts ih =>
    cases parts with
    | nil =>
      have hone := splitSlash_quote part []
      rw [List.append_nil] at hone
      rw [List.map_singleton, List.intercalate_singleton, hone]
      exact congrArg (fun p => [p]) (List.append_nil _)
    | cons next parts =>
      have hrest := ih (List.cons_ne_nil _ _)
      rw [List.map_cons, List.map_cons, List.intercalate_cons_cons, List.append_assoc, splitSlash_quote]
      have hcut : ∀ more, splitSlash (ENCODED_SLASH ++ more) = [] :: splitSlash more := fun more => by
        rw [ENCODED_SLASH]
        exact if_pos (.inl rfl)
      rw [hcut, List.modifyHead_cons, List.append_nil]
      exact congrArg (quote ['/'] part :: ·) hrest

/-- Reading what is written gives the path, with escaped slashes in capitals. -/
theorem unquotePath_quotePath (path : Text) :
    unquotePath (quotePath path) = ENCODED_SLASH.intercalate (splitSlash path) := by
  have hread : ((splitSlash path).map (quote ['/'])).map unquote = splitSlash path := by
    rw [List.map_map]
    exact (List.map_congr_left fun part _ => unquote_quote (by decide) part).trans (List.map_id _)
  rw [unquotePath, quotePath, splitSlash_quoted (splitSlash_ne_nil path), hread]

theorem intercalate_modifyHead {sep : Text} {parts : List Text} (h : parts ≠ []) (front : Text) :
    sep.intercalate (parts.modifyHead (front ++ ·)) = front ++ sep.intercalate parts := by
  obtain ⟨part, parts, rfl⟩ := List.exists_cons_of_ne_nil h
  cases parts with
  | nil => rw [List.modifyHead_cons, List.intercalate_singleton, List.intercalate_singleton]
  | cons next parts =>
    rw [List.modifyHead_cons, List.intercalate_cons_cons, List.intercalate_cons_cons, List.append_assoc,
      List.append_assoc, List.append_assoc]

/-- A path that spells no slash in small letters is put together again as it was. -/
theorem intercalate_splitSlash {path : Text} (h : ¬ "%2f".toList <:+: path) :
    ENCODED_SLASH.intercalate (splitSlash path) = path := by
  have htail : ∀ {c : Char} {rest : Text}, ¬ "%2f".toList <:+: c :: rest → ¬ "%2f".toList <:+: rest :=
    fun h hrest => h (hrest.trans (List.suffix_cons _ _).isInfix)
  fun_induction splitSlash path with
  | case1 c rest hc ih =>
    have hcapital : c = 'F' := hc.resolve_right fun hsmall => h (hsmall ▸ (List.prefix_append _ rest).isInfix)
    obtain ⟨part, parts, hparts⟩ := List.exists_cons_of_ne_nil (splitSlash_ne_nil rest)
    have hrest := ih (htail (htail (htail h)))
    rw [hparts] at hrest ⊢
    rw [List.intercalate_cons_cons, hrest, hcapital]
    rfl
  | case2 c rest hc ih =>
    exact (intercalate_modifyHead (splitSlash_ne_nil _) ['%']).trans (congrArg ('%' :: ·) (ih (htail h)))
  | case3 c rest hc ih =>
    exact (intercalate_modifyHead (splitSlash_ne_nil _) [c]).trans (congrArg (c :: ·) (ih (htail h)))
  | case4 => rfl

/-- So a path is read back from what it is quoted as. -/
theorem unquotePath_quotePath_of_capitals {path : Text} (h : ¬ "%2f".toList <:+: path) :
    unquotePath (quotePath path) = path := by
  rw [unquotePath_quotePath, intercalate_splitSlash h]

/-! ## What is written -/

/-- A quoted text starts with a slash only if the text does. -/
theorem head_quote {part : Text} (h : (quote ['/'] part).head? = some '/') : part.head? = some '/' := by
  obtain ⟨rest, hrest⟩ := List.head?_eq_some_iff.mp h
  have hbytes := percentDecode_quote (show '%' ∉ ['/'] by decide) part
  rw [hrest, percentDecode_cons (by decide)] at hbytes
  have htext := decodeReplace_encodeUtf8 part
  rw [← hbytes, ← List.nil_append (_ :: _), decodeReplace_append (by decide)] at htext
  rw [← htext]
  rfl

theorem head_quotePath {path : Text} (hcapitals : ¬ "%2f".toList <:+: path) (h : (quotePath path).head? = some '/') :
    path.head? = some '/' := by
  obtain ⟨part, parts, hparts⟩ := List.exists_cons_of_ne_nil (splitSlash_ne_nil path)
  have hpath := intercalate_splitSlash hcapitals
  rw [quotePath, hparts, List.map_cons] at h
  rw [hparts] at hpath
  have hpart : (quote ['/'] part).head? = some '/' := by
    cases hquoted : quote ['/'] part with
    | nil =>
      rw [hquoted] at h
      cases parts with
      | nil => cases h
      | cons next parts =>
        rw [List.map_cons, List.intercalate_cons_cons] at h
        exact absurd (Option.some.inj h) (by decide)
    | cons c rest =>
      rw [hquoted] at h
      cases parts with
      | nil => exact h
      | cons next parts => exact h
  obtain ⟨rest, rfl⟩ := List.head?_eq_some_iff.mp (head_quote hpart)
  rw [← hpath]
  cases parts with
  | nil => rfl
  | cons next parts => rfl

theorem quotePath_slash (rest : Text) : quotePath ('/' :: rest) = '/' :: quotePath rest := by
  obtain ⟨part, parts, hparts⟩ := List.exists_cons_of_ne_nil (splitSlash_ne_nil rest)
  have hquote : quote ['/'] ('/' :: part) = '/' :: quote ['/'] part := quote_append ['/'] ['/'] part
  rw [quotePath, quotePath, splitSlash_cons (by decide), hparts, List.modifyHead_cons, List.map_cons, List.map_cons,
    hquote]
  exact intercalate_modifyHead (List.cons_ne_nil (quote ['/'] part) _) ['/']

theorem question_not_mem_quotePath (path : Text) : '?' ∉ quotePath path := by
  apply not_mem_intercalate (by decide)
  intro part hpart hmem
  obtain ⟨own, -, rfl⟩ := List.mem_map.mp hpart
  exact absurd (mem_quote hmem).2 (by decide)

end XrdClient.Urls
