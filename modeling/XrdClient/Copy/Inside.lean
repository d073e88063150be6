/-
  Copy/Inside.lean --- `copy_tree`: where the names that a server lists lead.

  A recursive copy joins the names of a listing to a path three times: to walk, to say
  where a file is relative to the source, and to say where it goes.  The server is
  whatever it likes to be here; a `Host` answers each request, in whatever order they
  come, with any lines, hrefs or keys, any stat and any word about links.

  `root://` names are checked by `_checked`, WebDAV hrefs by their directory, and S3
  names not at all.  What survives can still be `.` (in a listing without stats), `..`
  (as an href), or a name that the walk itself cuts at a `?`.  `kept_inside_iff` says that
  these are the ways out, and the only ones.
-/
import XrdClient.Client.Walk
import XrdClient.Lib.Posix

set_option autoImplicit false

namespace XrdClient.Copy.Inside

open XrdClient.Lib
open XrdClient.Lib.Posix
open XrdClient.Client (splitCgi)

/-- A stat, as far as a walk looks at it. -/
structure Info where
  isDir : Bool
  id : Text
  deriving DecidableEq

structure Entry where
  name : Text
  stat : Option Info
  deriving DecidableEq

/-- What a server answers to a listing. -/
inductive Reply where
  /-- `kXR_dirlist`: the text of the body. -/
  | dirlist (text : Text)
  /-- `PROPFIND`: the paths of the hrefs, in document order. -/
  | propfind (found : List (Text × Info))
  /-- `ListObjectsV2`: the names that `listing_items` makes of its pages. -/
  | objects (found : List (Text × Info))
  deriving DecidableEq

/-! ## The listing functions -/

/-- `_checked`. -/
def checked (name : Text) : Bool := '/' ∉ name ∧ name ≠ ['.', '.']

/-- `zip(lines[::2], lines[1::2])`. -/
def pairs : List Text → List (Text × Text)
  | name :: stat :: lines => (name, stat) :: pairs lines
  | _ => []

/-- The entries of a listing with stats; `statOf` reads a stat line. -/
def parsePairs (statOf : Text → Option Info) : List (Text × Text) → Option (List Entry)
  | [] => some []
  | (name, line) :: rest =>
    if name = ['.'] then parsePairs statOf rest
    else if checked name then
      match statOf line, parsePairs statOf rest with
      | some info, some entries => some (⟨name, some info⟩ :: entries)
      | _, _ => none
    else none

/-- The lines of a body that have something in them. -/
def bodyLines (text : Text) : List Text := (text.splitOn '\n').filter (· ≠ [])

/-- `parse_dirlist`, `none` where it raises. -/
def parseDirlist (statOf : Text → Option Info) (text : Text) : Option (List Entry) :=
  if (bodyLines text).head? ≠ some ['.'] then
    if (bodyLines text).all checked then some ((bodyLines text).map fun name => ⟨name, none⟩)
    else none
  else parsePairs statOf (pairs (bodyLines text))

/-- `child.rstrip("/") or "/"`. -/
def trimmed (path : Text) : Text := if rstrip path = [] then ['/'] else rstrip path

/-- `HTTPFileSystem.scandir`'s loop. -/
def scanHrefs (here : Text) : List (Text × Info) → Option (List Entry)
  | [] => some []
  | (child, info) :: rest =>
    if trimmed child = here then scanHrefs here rest
    else if dirname (trimmed child) ≠ here then none
    else
      match scanHrefs here rest with
      | some entries => some (⟨basename (trimmed child), some info⟩ :: entries)
      | none => none

/-- `scandir`, by the kind of the answer. -/
def scandir (statOf : Text → Option Info) (here : Text) : Reply → Option (List Entry)
  | .dirlist text => parseDirlist statOf text
  | .propfind found => scanHrefs here found
  | .objects found => some (found.map fun (name, info) => ⟨name, some info⟩)

/-! ## The walk -/

/-- Whatever a server answers, by how many requests it has had. -/
structure Host where
  /-- A listing; `none` is an `OSError`. -/
  reply : Nat → Text → Option Reply
  stat : Nat → Text → Option Info
  link : Nat → Text → Option Bool
  statOf : Text → Option Info

/-- `url._normalize`. -/
def normalize (path : Text) : Text :=
  if path = [] then ['/']
  else
    let norm := render (components path)
    if path.getLast? = some '/' ∧ 1 < path.length ∧ norm.getLast? ≠ some '/' then norm ++ ['/']
    else norm

/-- The collection that a `PROPFIND` on a path is made of. -/
def here (root : Text) : Text :=
  let target := render (components (splitCgi root).1) ++ (splitCgi root).2
  trimmed (normalize (if target.getLast? = some '/' then target else target ++ ['/']))

/-- The requests made so far, and the stat ids seen. -/
structure State where
  asked : Nat
  seen : List Text
  deriving DecidableEq

/-- `_partition`: directories, the rest, and the ids. -/
def sortEntries (H : Host) (base cgi : Text) :
    List Entry → Nat → List Text × List Text × Assoc Text Text → Nat × List Text × List Text ×
      Assoc Text Text
  | [], asked, acc => (asked, acc)
  | e :: rest, asked, (dirs, files, ids) =>
    let (info, asked) :=
      match e.stat with
      | some info => (some info, asked)
      | none => (H.stat asked (join base e.name ++ cgi), asked + 1)
    match info with
    | some ⟨true, id⟩ =>
      sortEntries H base cgi rest asked (dirs ++ [e.name], files, ids.set e.name id)
    | _ => sortEntries H base cgi rest asked (dirs, files ++ [e.name], ids)

/-- A directory that was listed: what its listing gave, the files it was found to have,
and the names that were descended into. -/
structure Visit where
  base : Text
  cgi : Text
  reply : Reply
  entries : List Entry
  files : List Text
  entered : List Text

/-- The loop over `dirs`: the names entered, and the visits below them.  `none` for the
state says that the walk went no further. -/
def walkChildren (H : Host) (walk : Text → State → List Visit × Option State)
    (base cgi : Text) (ids : Assoc Text Text) :
    List Text → State → List Text × List Visit × Option State
  | [], s => ([], [], some s)
  | name :: dirs, s =>
    let child := join base name ++ cgi
    match Client.Namespace.enters false (H.link s.asked) child
        ((ids.get name).getD []) s.seen with
    | (false, seen) => walkChildren H walk base cgi ids dirs ⟨s.asked + 1, seen⟩
    | (true, seen) =>
      match walk child ⟨s.asked + 1, seen⟩ with
      | (visits, none) => ([name], visits, none)
      | (visits, some s) =>
        let (entered, more, s) := walkChildren H walk base cgi ids dirs s
        (name :: entered, visits ++ more, s)

/-- `BaseFileSystem._walk`, for as many levels as there is fuel. -/
def walkFrom (H : Host) : Nat → Text → State → List Visit × Option State
  | 0, _, _ => ([], none)
  | fuel + 1, root, s =>
    match H.reply s.asked root with
    | none => ([], some ⟨s.asked + 1, s.seen⟩)
    | some reply =>
      match scandir H.statOf (here root) reply with
      | none => ([], none)
      | some entries =>
        let (base, cgi) := splitCgi root
        let (asked, dirs, files, ids) := sortEntries H base cgi entries (s.asked + 1) ([], [], [])
        let (entered, visits, s) :=
          walkChildren H (walkFrom H fuel) base cgi ids dirs ⟨asked, s.seen⟩
        (⟨base, cgi, reply, entries, files, entered⟩ :: visits, s)

/-- `_cgi`, with nothing asked for explicitly. -/
def cgi (extra : Text) : Text := if extra = [] then [] else '?' :: extra

/-- `fs.walk(url.path)`: the directories that a copy of `src` lists; `extra` is what the
URL puts on each request. -/
def walk (H : Host) (fuel : Nat) (src extra : Text) : List Visit :=
  (walkFrom H fuel (render (components src) ++ cgi extra) ⟨0, []⟩).1

/-! ## Where a file goes -/

/-- `_walk`'s path of a file relative to the source. -/
def relative (src base name : Text) : Text :=
  let rel := Posix.strip (base.drop (rstrip src).length)
  if rel = [] then name else rel ++ '/' :: name

/-- `dst_url / rel`. -/
def destination (dst rel : Text) : Text := normalize (join dst rel)

/-- The directory that a name leads a walk to. -/
def childBase (v : Visit) (name : Text) : Text := (splitCgi (join v.base name ++ v.cgi)).1

/-- Every name that survived is one name, every file goes strictly inside the target, and
every directory entered is strictly below its parent. -/
structure KeptInside (src dst : Text) (v : Visit) : Prop where
  names : ∀ e ∈ v.entries, Name e.name
  files : ∀ name ∈ v.files, Below dst (destination dst (relative src v.base name))
  deeper : ∀ name ∈ v.entered, Below v.base (childBase v name)

/-- The answer spells its names as names. -/
def Spelled : Reply → Prop
  | .dirlist text => (bodyLines text).head? = some ['.'] ∨ ['.'] ∉ bodyLines text
  | .propfind found => ∀ child ∈ found,
      basename (trimmed child.1) ≠ ['.'] ∧ basename (trimmed child.1) ≠ ['.', '.']
  | .objects found => ∀ item ∈ found, Name item.1

instance : DecidablePred Spelled
  | .dirlist _ => inferInstanceAs (Decidable (_ ∨ _))
  | .propfind found => inferInstanceAs (Decidable (∀ child ∈ found, _ ∧ _))
  | .objects found => inferInstanceAs (Decidable (∀ item ∈ found, Name item.1))

/-- What a directory listing must be for a copy to stay inside. -/
structure Proper (v : Visit) : Prop where
  spelled : Spelled v.reply
  /-- What a walk makes of a name that it descends into, which it cuts at a `?`. -/
  entered : ∀ name ∈ v.entered, Name (splitCgi name).1

instance (v : Visit) : Decidable (Proper v) :=
  decidable_of_iff (Spelled v.reply ∧ ∀ name ∈ v.entered, Name (splitCgi name).1)
    ⟨fun h => ⟨h.1, h.2⟩, fun h => ⟨h.spelled, h.entered⟩⟩

/-! ## Names in the answers -/

theorem mem_bodyLines {text line : Text} (h : line ∈ bodyLines text) : line ≠ [] := by
  simpa using (List.mem_filter.mp h).2

theorem checked_iff {name : Text} : checked name = true ↔ '/' ∉ name ∧ name ≠ ['.', '.'] :=
  decide_eq_true_iff

theorem mem_pairs {lines : List Text} {p : Text × Text} (h : p ∈ pairs lines) : p.1 ∈ lines := by
  induction lines using pairs.induct with
  | case1 name stat lines ih =>
    rw [pairs] at h
    rcases List.mem_cons.mp h with rfl | h
    · exact List.mem_cons_self
    · exact List.mem_cons_of_mem _ (List.mem_cons_of_mem _ (ih h))
  | case2 lines hlines =>
    rw [pairs] at h
    · exact absurd h List.not_mem_nil
    · exact hlines

/-- A listing with stats keeps names alone: its own entry is left out. -/
theorem parsePairs_names {statOf : Text → Option Info} {lines : List (Text × Text)}
    {entries : List Entry} (h : parsePairs statOf lines = some entries)
    (hne : ∀ p ∈ lines, p.1 ≠ []) : ∀ e ∈ entries, Name e.name := by
  induction lines generalizing entries with
  | nil =>
    cases h
    exact fun e he => absurd he List.not_mem_nil
  | cons p lines ih =>
    obtain ⟨name, line⟩ := p
    have hrest := fun q (hq : q ∈ lines) => hne q (List.mem_cons_of_mem _ hq)
    rw [parsePairs] at h
    by_cases hdot : name = ['.']
    · rw [if_pos hdot] at h
      exact ih h hrest
    rw [if_neg hdot] at h
    cases hchecked : checked name with
    | false =>
      rw [hchecked] at h
      cases h
    | true =>
      rw [hchecked, if_pos rfl] at h
      cases hstat : statOf line with
      | none =>
        rw [hstat] at h
        cases h
      | some info =>
        cases hmore : parsePairs statOf lines with
        | none =>
          rw [hstat, hmore] at h
          cases h
        | some more =>
          rw [hstat, hmore] at h
          cases h
          obtain ⟨hslash, hdots⟩ := checked_iff.mp hchecked
          intro e he
          rcases List.mem_cons.mp he with rfl | he
          · exact ⟨hne (name, line) List.mem_cons_self, hslash, hdot, hdots⟩
          · exact ih hmore hrest e he

theorem parseDirlist_names {statOf : Text → Option Info} {text : Text} {entries : List Entry}
    (h : parseDirlist statOf text = some entries) :
    (∀ e ∈ entries, Name e.name) ↔
      ((bodyLines text).head? = some ['.'] ∨ ['.'] ∉ bodyLines text) := by
  unfold parseDirlist at h
  by_cases hhead : (bodyLines text).head? = some ['.']
  · rw [if_neg (not_not.mpr hhead)] at h
    refine ⟨fun _ => Or.inl hhead, fun _ => parsePairs_names h fun p hp => ?_⟩
    exact mem_bodyLines (mem_pairs hp)
  · rw [if_pos hhead] at h
    cases hall : (bodyLines text).all checked with
    | false =>
      rw [hall] at h
      cases h
    | true =>
      rw [hall, if_pos rfl] at h
      cases h
      constructor
      · intro hnames
        exact Or.inr fun hdot => (hnames _ (List.mem_map_of_mem hdot)).2.2.1 rfl
      · rintro (hhead' | hdot) e he
        · exact absurd hhead' hhead
        · obtain ⟨name, hname, rfl⟩ := List.mem_map.mp he
          obtain ⟨hslash, hdots⟩ := checked_iff.mp (List.all_eq_true.mp hall name hname)
          exact ⟨mem_bodyLines hname, hslash, fun h => hdot (h ▸ hname), hdots⟩

theorem not_mem_basename (path : Text) : '/' ∉ basename path := by
  intro h
  simpa using List.mem_rtakeWhile_imp h

/-- What is directly in a directory, and is not it, has a last part. -/
theorem basename_ne_nil {child root : Text} (hne : trimmed child ≠ root)
    (hdir : dirname (trimmed child) = root) : basename (trimmed child) ≠ [] := by
  intro hnil
  have hslash : ∀ h : trimmed child ≠ [], (trimmed child).getLast h = '/' := by
    intro h
    by_contra hlast
    have := List.rtakeWhile_eq_nil_iff.mp hnil h
    simp [hlast] at this
  unfold trimmed at hne hdir hslash
  by_cases hstrip : rstrip child = []
  · rw [if_pos hstrip] at hne hdir
    exact hne hdir
  · rw [if_neg hstrip] at hslash
    have := List.rdropWhile_last_not (fun c => decide (c = '/')) child hstrip
    simp only [decide_eq_true_eq] at this
    exact this (hslash hstrip)

theorem scanHrefs_names {root : Text} (hroot : basename root = [] ∨ Name (basename root))
    {found : List (Text × Info)} {entries : List Entry}
    (h : scanHrefs root found = some entries) :
    (∀ e ∈ entries, Name e.name) ↔
      ∀ child ∈ found,
        basename (trimmed child.1) ≠ ['.'] ∧ basename (trimmed child.1) ≠ ['.', '.'] := by
  induction found generalizing entries with
  | nil =>
    cases h
    simp
  | cons c found ih =>
    obtain ⟨child, info⟩ := c
    rw [scanHrefs] at h
    by_cases hself : trimmed child = root
    · rw [if_pos hself] at h
      rw [ih h, List.forall_mem_cons]
      refine (and_iff_right ?_).symm
      rw [hself]
      rcases hroot with hnil | hname
      · rw [hnil]
        exact ⟨nofun, nofun⟩
      · exact hname.2.2
    rw [if_neg hself] at h
    by_cases hdir : dirname (trimmed child) = root
    · rw [if_neg (not_not.mpr hdir)] at h
      cases hmore : scanHrefs root found with
      | none =>
        rw [hmore] at h
        cases h
      | some more =>
        rw [hmore] at h
        cases h
        rw [List.forall_mem_cons, List.forall_mem_cons, ih hmore]
        refine and_congr_left fun _ => ?_
        exact ⟨fun hname => hname.2.2,
          fun hdots => ⟨basename_ne_nil hself hdir, not_mem_basename _, hdots⟩⟩
    · rw [if_pos hdir] at h
      cases h

/-! ## Texts and what they lead to -/

theorem normalize_form (path : Text) : ∃ slash : Bool,
    normalize path =
      if slash then render (components path) ++ (if components path = [] then [] else ['/'])
      else render (components path) := by
  unfold normalize
  by_cases hnil : path = []
  · subst hnil
    exact ⟨false, rfl⟩
  rw [if_neg hnil]
  by_cases hslash : path.getLast? = some '/' ∧ 1 < path.length ∧
      (render (components path)).getLast? ≠ some '/'
  · refine ⟨true, ?_⟩
    have hne : components path ≠ [] := fun h => hslash.2.2 (by rw [h]; rfl)
    simp only [if_pos hslash, if_pos, if_neg hne]
  · exact ⟨false, by simp only [if_neg hslash, Bool.false_eq_true, if_false]⟩

theorem names_components (path : Text) : ∀ n ∈ components path, Name n :=
  fun _ h => name_of_mem_components h

theorem rstrip_normalize (path : Text) : rstrip (normalize path) = body (components path) := by
  have hrender := rstrip_render (names_components path)
  obtain ⟨slash, hform⟩ := normalize_form path
  rw [hform]
  cases slash with
  | false => exact hrender
  | true =>
    by_cases hne : components path = []
    · simpa only [if_pos hne, if_true, List.append_nil] using hrender
    · simp only [if_neg hne, if_true]
      rw [rstrip_append_slash, hrender]

theorem components_normalize (path : Text) : components (normalize path) = components path := by
  have hrender := components_render (names_components path)
  obtain ⟨slash, hform⟩ := normalize_form path
  rw [hform]
  cases slash with
  | false => exact hrender
  | true =>
    by_cases hne : components path = []
    · simpa only [if_pos hne, if_true, List.append_nil] using hrender
    · simp only [if_neg hne, if_true]
      rw [components_append_slash, hrender]

/-- A collection's own path ends in no part that is not a name. -/
theorem basename_here (root : Text) : basename (here root) = [] ∨ Name (basename (here root)) := by
  have htrimmed : ∀ path, trimmed (normalize path) = render (components path) := by
    intro path
    unfold trimmed
    rw [rstrip_normalize]
    unfold render
    by_cases hne : components path = []
    · rw [hne]
      rfl
    · obtain ⟨n, rest, hcons⟩ := List.exists_cons_of_ne_nil hne
      rw [if_neg (by rw [hcons]; simp [body]), if_neg hne]
  unfold here
  rw [htrimmed]
  exact basename_render (names_components _)

/-- A listing that was accepted gives names alone when its answer was spelled so. -/
theorem scandir_names {statOf : Text → Option Info} {root : Text} {reply : Reply}
    {entries : List Entry} (h : scandir statOf (here root) reply = some entries) :
    (∀ e ∈ entries, Name e.name) ↔ Spelled reply := by
  cases reply with
  | dirlist text => exact parseDirlist_names h
  | propfind found => exact scanHrefs_names (basename_here root) h
  | objects found =>
    rw [scandir] at h
    cases h
    rw [List.forall_mem_map]
    rfl

/-- What follows a path on its requests. -/
def IsCgi (cgi : Text) : Prop := cgi = [] ∨ cgi.head? = some '?'

theorem splitCgi_append {path cgi : Text} (hpath : '?' ∉ path) (hcgi : IsCgi cgi) :
    splitCgi (path ++ cgi) = (path, cgi) := by
  have hall : ∀ c ∈ path, decide (c ≠ '?') = true := fun c hc =>
    decide_eq_true fun h => hpath (h ▸ hc)
  unfold splitCgi
  rw [List.takeWhile_append_of_pos hall, List.dropWhile_append_of_pos hall]
  rcases hcgi with rfl | hcgi
  · simp
  · obtain ⟨rest, rfl⟩ := List.head?_eq_some_iff.mp hcgi
    simp

theorem splitCgi_eq (path : Text) : (splitCgi path).1 ++ (splitCgi path).2 = path :=
  List.takeWhile_append_dropWhile

theorem not_mem_splitCgi (path : Text) : '?' ∉ (splitCgi path).1 := by
  intro h
  simpa using List.mem_takeWhile_imp h

theorem isCgi_splitCgi (path : Text) {cgi : Text} (hcgi : IsCgi cgi) :
    IsCgi ((splitCgi path).2 ++ cgi) := by
  cases hrest : (splitCgi path).2 with
  | nil => exact hcgi
  | cons c rest =>
    right
    have hne : path.dropWhile (· ≠ '?') ≠ [] := by
      intro h
      rw [splitCgi, h] at hrest
      cases hrest
    have hc := List.head_dropWhile_not (fun c => decide (c ≠ '?')) hne
    have hhead : (path.dropWhile (· ≠ '?')).head hne = c := by
      have hdrop : path.dropWhile (· ≠ '?') = c :: rest := hrest
      simp only [hdrop, List.head_cons]
    rw [hhead] at hc
    simpa using hc

/-- A name that a walk does not cut. -/
def Plain (n : Text) : Prop := Name n ∧ '?' ∉ n

theorem not_mem_body {names : List Text} (h : ∀ n ∈ names, Plain n) : '?' ∉ body names := by
  intro hmem
  obtain ⟨n, hn, hmem⟩ := List.mem_flatMap.mp hmem
  rcases List.mem_cons.mp hmem with heq | hmem
  · exact absurd heq (by decide)
  · exact (h n hn).2 hmem

theorem not_mem_render {names : List Text} (h : ∀ n ∈ names, Plain n) : '?' ∉ render names := by
  unfold render
  split
  · decide
  · exact not_mem_body h

/-- A child's request is cut at the first `?` of its name, or where its CGI begins. -/
theorem splitCgi_child {names : List Text} (hnames : ∀ n ∈ names, Plain n) {name : Text}
    (hname : Name name) {cgi : Text} (hcgi : IsCgi cgi) :
    splitCgi (join (render names) name ++ cgi) =
      (body names ++ '/' :: (splitCgi name).1, (splitCgi name).2 ++ cgi) := by
  have hcut : body names ++ '/' :: name ++ cgi =
      (body names ++ '/' :: (splitCgi name).1) ++ ((splitCgi name).2 ++ cgi) := by
    conv_lhs => rw [← splitCgi_eq name]
    simp
  rw [join_name (fun n hn => (hnames n hn).1) hname, render_concat, hcut]
  refine splitCgi_append ?_ (isCgi_splitCgi name hcgi)
  simp only [List.mem_append, List.mem_cons, not_or]
  exact ⟨not_mem_body hnames, by decide, not_mem_splitCgi name⟩

/-- A file's path relative to the source is what the walk went through, and its name. -/
theorem relative_eq (src : Text) {names : List Text} (hnames : ∀ n ∈ names, Name n) (name : Text) :
    '/' :: relative (normalize src) (render (components src ++ names)) name =
      body (names ++ [name]) := by
  unfold relative
  rw [rstrip_normalize, body_append]
  by_cases hnil : names = []
  · have hstrip : Posix.strip ((render (components src ++ names)).drop
        (body (components src)).length) = [] := by
      subst hnil
      rw [List.append_nil]
      unfold render
      split
      · next h =>
        rw [h]
        rfl
      · rw [List.drop_length]
        rfl
    rw [hstrip]
    simp [hnil, body]
  · have hdrop : (render (components src ++ names)).drop (body (components src)).length =
        body names := by
      unfold render
      rw [if_neg (by simp [hnil]), body_append, List.drop_left]
    have hstrip := strip_body hnames hnil
    have hne : Posix.strip (body names) ≠ [] := by
      intro h
      rw [h] at hstrip
      have := getLast_body hnames hnil
      rw [← hstrip] at this
      exact this rfl
    rw [hdrop]
    simp only [if_neg hne]
    rw [← List.cons_append, hstrip]
    simp [body]

/-- A file goes below the target by what the walk went through, and its name. -/
theorem components_destination (src dst : Text) {names : List Text}
    (hnames : ∀ n ∈ names, Name n) {name : Text} (hname : Name name) :
    components (destination (normalize dst)
        (relative (normalize src) (render (components src ++ names)) name)) =
      components (normalize dst) ++ (names ++ [name]) := by
  have hall : ∀ n ∈ names ++ [name], Name n := by
    intro n hn
    rcases List.mem_append.mp hn with hn | hn
    · exact hnames n hn
    · exact List.mem_singleton.mp hn ▸ hname
  obtain ⟨first, rest, hcons⟩ := List.exists_cons_of_ne_nil
    (show names ++ [name] ≠ [] by simp)
  have hrelative : relative (normalize src) (render (components src ++ names)) name =
      first ++ body rest := by
    have := relative_eq src hnames name
    rw [hcons] at this
    simpa [body] using this
  rw [hcons] at hall
  obtain ⟨slash, hform⟩ := normalize_form dst
  have hjoin := @join_body (components dst) (names_components dst) first rest
    (hall first List.mem_cons_self) slash
  rw [← hform] at hjoin
  unfold destination
  rw [hrelative, hjoin, components_normalize, components_normalize, body_append, hcons]
  rw [components_append_body hall, components_body (names_components dst)]

/-! ## One directory -/

/-- A directory that was listed where the walk went through names alone. -/
def Rooted (src : Text) (v : Visit) : Prop :=
  ∃ names, v.base = render (components src ++ names) ∧ (∀ n ∈ names, Plain n) ∧ IsCgi v.cgi

/-- What a visit has to do with the answer that it was made of. -/
structure Made (H : Host) (v : Visit) : Prop where
  listed : ∃ root, scandir H.statOf (here root) v.reply = some v.entries
  files : ∀ name ∈ v.files, ∃ e ∈ v.entries, e.name = name
  entered : ∀ name ∈ v.entered, ∃ e ∈ v.entries, e.name = name

/-- What either side of the equivalence says of a directory, for the walk below it. -/
def Leads (v : Visit) : Prop :=
  (∀ e ∈ v.entries, Name e.name) ∧ ∀ name ∈ v.entered, Name (splitCgi name).1

section OneDirectory

variable {H : Host} {src dst : Text} {v : Visit}

theorem plain_append (hsrc : '?' ∉ render (components src)) {names : List Text}
    (hnames : ∀ n ∈ names, Plain n) : ∀ n ∈ components src ++ names, Plain n := by
  intro n hn
  rcases List.mem_append.mp hn with hn | hn
  · refine ⟨names_components src n hn, fun hmem => hsrc ?_⟩
    unfold render
    rw [if_neg (List.ne_nil_of_mem hn)]
    exact List.mem_flatMap.mpr ⟨n, hn, List.mem_cons_of_mem _ hmem⟩
  · exact hnames n hn

theorem proper_iff_leads (hmade : Made H v) : Proper v ↔ Leads v := by
  obtain ⟨root, hlisted⟩ := hmade.listed
  have hspelled := scandir_names hlisted
  exact ⟨fun h => ⟨hspelled.mpr h.spelled, h.entered⟩,
    fun h => ⟨hspelled.mp h.1, h.2⟩⟩

/-- A name that is entered leads strictly deeper when what the walk makes of it is a name. -/
theorem below_childBase_iff (hsrc : '?' ∉ render (components src)) (hroot : Rooted src v)
    {name : Text} (hname : Name name) :
    Below v.base (childBase v name) ↔ Name (splitCgi name).1 := by
  obtain ⟨names, hbase, hnames, hcgi⟩ := hroot
  have hall := plain_append hsrc hnames
  have hslash : '/' ∉ (splitCgi name).1 := fun h =>
    hname.2.1 (List.takeWhile_subset _ h)
  refine below_follow_iff ?_ hslash
  unfold childBase
  rw [hbase, splitCgi_child hall hname hcgi, components_append_name hslash,
    components_body fun n hn => (hall n hn).1, components_render fun n hn => (hall n hn).1]

theorem keptInside_iff_leads (hsrc : '?' ∉ render (components src)) (hmade : Made H v)
    (hroot : Rooted src v) : KeptInside (normalize src) (normalize dst) v ↔ Leads v := by
  have hentered : (∀ e ∈ v.entries, Name e.name) → ∀ name ∈ v.entered, Name name := by
    intro hnames name hname
    obtain ⟨e, he, rfl⟩ := hmade.entered name hname
    exact hnames e he
  constructor
  · intro h
    refine ⟨h.names, fun name hname => ?_⟩
    exact (below_childBase_iff hsrc hroot (hentered h.names name hname)).mp (h.deeper name hname)
  · rintro ⟨hnames, hdeeper⟩
    refine ⟨hnames, fun name hname => ?_, fun name hname => ?_⟩
    · obtain ⟨e, he, rfl⟩ := hmade.files name hname
      obtain ⟨through, hbase, hthrough, -⟩ := hroot
      rw [hbase]
      exact ⟨through ++ [e.name], by simp, components_destination src dst
        (fun n hn => (hthrough n hn).1) (hnames e he)⟩
    · exact (below_childBase_iff hsrc hroot (hentered hnames name hname)).mpr
        (hdeeper name hname)

end OneDirectory

/-! ## The directories that are listed -/

theorem mem_sortEntries (H : Host) (base cgi : Text) (entries : List Entry) :
    ∀ (asked : Nat) (dirs files : List Text) (ids : Assoc Text Text),
      (∀ name ∈ (sortEntries H base cgi entries asked (dirs, files, ids)).2.1,
        name ∈ dirs ∨ ∃ e ∈ entries, e.name = name) ∧
      ∀ name ∈ (sortEntries H base cgi entries asked (dirs, files, ids)).2.2.1,
        name ∈ files ∨ ∃ e ∈ entries, e.name = name := by
  induction entries with
  | nil => exact fun _ _ _ _ => ⟨fun _ h => Or.inl h, fun _ h => Or.inl h⟩
  | cons e entries ih =>
    intro asked dirs files ids
    -- a name that is added is the entry's, and every other was there or is of the rest
    have hmore : ∀ {names : List Text} {name : Text},
        (name ∈ names ++ [e.name] ∨ ∃ e' ∈ entries, e'.name = name) →
        name ∈ names ∨ ∃ e' ∈ e :: entries, e'.name = name := by
      rintro names name (h | ⟨e', he', rfl⟩)
      · rcases List.mem_append.mp h with h | h
        · exact Or.inl h
        · exact Or.inr ⟨e, List.mem_cons_self, (List.mem_singleton.mp h).symm⟩
      · exact Or.inr ⟨e', List.mem_cons_of_mem _ he', rfl⟩
    have hsame : ∀ {names : List Text} {name : Text},
        (name ∈ names ∨ ∃ e' ∈ entries, e'.name = name) →
        name ∈ names ∨ ∃ e' ∈ e :: entries, e'.name = name :=
      fun h => h.imp_right fun ⟨e', he', hname⟩ => ⟨e', List.mem_cons_of_mem _ he', hname⟩
    rw [sortEntries]
    generalize (match e.stat with
      | some info => (some info, asked)
      | none => (H.stat asked (join base e.name ++ cgi), asked + 1)) = answer
    obtain ⟨info, asked⟩ := answer
    rcases info with _ | ⟨_ | _, id⟩
    · exact ⟨fun name h => hsame ((ih _ _ _ _).1 name h),
        fun name h => hmore ((ih _ _ _ _).2 name h)⟩
    · exact ⟨fun name h => hsame ((ih _ _ _ _).1 name h),
        fun name h => hmore ((ih _ _ _ _).2 name h)⟩
    · exact ⟨fun name h => hmore ((ih _ _ _ _).1 name h),
        fun name h => hsame ((ih _ _ _ _).2 name h)⟩

/-- The loop enters names of its list, and lists nothing but what is below them. -/
theorem mem_walkChildren (H : Host) (walk : Text → State → List Visit × Option State)
    (base cgi : Text) (ids : Assoc Text Text) (dirs : List Text) : ∀ s : State,
      (∀ name ∈ (walkChildren H walk base cgi ids dirs s).1, name ∈ dirs) ∧
      ∀ v ∈ (walkChildren H walk base cgi ids dirs s).2.1,
        ∃ name ∈ (walkChildren H walk base cgi ids dirs s).1, ∃ s',
          v ∈ (walk (join base name ++ cgi) s').1 ∧
          (walk (join base name ++ cgi) s').1 ⊆ (walkChildren H walk base cgi ids dirs s).2.1 := by
  induction dirs with
  | nil => exact fun _ => ⟨fun _ h => h, fun _ h => absurd h List.not_mem_nil⟩
  | cons name dirs ih =>
    intro s
    rw [walkChildren]
    simp only
    rcases henters : Client.Namespace.enters false (H.link s.asked) (join base name ++ cgi)
      ((ids.get name).getD []) s.seen with ⟨_ | _, seen⟩
    · obtain ⟨hentered, hvisits⟩ := ih ⟨s.asked + 1, seen⟩
      exact ⟨fun n hn => List.mem_cons_of_mem _ (hentered n hn), hvisits⟩
    · rcases hbelow : walk (join base name ++ cgi) ⟨s.asked + 1, seen⟩ with ⟨visits, _ | after⟩
      · simp only [hbelow]
        refine ⟨fun n hn => List.mem_singleton.mp hn ▸ List.mem_cons_self, fun v hv => ?_⟩
        exact ⟨name, List.mem_cons_self, ⟨s.asked + 1, seen⟩, by rw [hbelow]; exact hv,
          by rw [hbelow]; exact fun _ h => h⟩
      · simp only [hbelow]
        obtain ⟨hentered, hvisits⟩ := ih after
        refine ⟨fun n hn => ?_, fun v hv => ?_⟩
        · rcases List.mem_cons.mp hn with rfl | hn
          · exact List.mem_cons_self
          · exact List.mem_cons_of_mem _ (hentered n hn)
        · rcases List.mem_append.mp hv with hv | hv
          · exact ⟨name, List.mem_cons_self, ⟨s.asked + 1, seen⟩, by rw [hbelow]; exact hv,
              by rw [hbelow]; exact List.subset_append_left _ _⟩
          · obtain ⟨n, hn, s', hmem, hsub⟩ := hvisits v hv
            exact ⟨n, List.mem_cons_of_mem _ hn, s', hmem,
              fun w hw => List.mem_append_right _ (hsub hw)⟩

/-- What is listed from a path is its own directory, or is listed from a name in it. -/
theorem mem_walkFrom {H : Host} {fuel : Nat} {root : Text} {s : State} {v : Visit}
    (h : v ∈ (walkFrom H fuel root s).1) :
    ∃ below, fuel = below + 1 ∧ ∃ top ∈ (walkFrom H fuel root s).1, Made H top ∧
      splitCgi root = (top.base, top.cgi) ∧
      (v = top ∨ ∃ name ∈ top.entered, ∃ s',
        v ∈ (walkFrom H below (join top.base name ++ top.cgi) s').1 ∧
        (walkFrom H below (join top.base name ++ top.cgi) s').1 ⊆
          (walkFrom H fuel root s).1) := by
  cases fuel with
  | zero => exact absurd h List.not_mem_nil
  | succ fuel =>
    refine ⟨fuel, rfl, ?_⟩
    rw [walkFrom] at h ⊢
    cases hreply : H.reply s.asked root with
    | none =>
      rw [hreply] at h
      exact absurd h List.not_mem_nil
    | some reply =>
      rw [hreply] at h
      simp only at h ⊢
      cases hlisted : scandir H.statOf (here root) reply with
      | none =>
        rw [hlisted] at h
        exact absurd h List.not_mem_nil
      | some entries =>
        rw [hlisted] at h
        simp only at h ⊢
        have hsorted := mem_sortEntries H (splitCgi root).1 (splitCgi root).2 entries
          (s.asked + 1) [] [] []
        rcases hsort : sortEntries H (splitCgi root).1 (splitCgi root).2 entries
          (s.asked + 1) ([], [], []) with ⟨asked, dirs, files, ids⟩
        rw [hsort] at h hsorted
        simp only at h hsorted ⊢
        have hchildren := mem_walkChildren H (walkFrom H fuel) (splitCgi root).1
          (splitCgi root).2 ids dirs ⟨asked, s.seen⟩
        rcases hloop : walkChildren H (walkFrom H fuel) (splitCgi root).1 (splitCgi root).2 ids
          dirs ⟨asked, s.seen⟩ with ⟨entered, visits, after⟩
        rw [hloop] at h hchildren
        simp only at h hchildren ⊢
        refine ⟨_, List.mem_cons_self, ⟨⟨root, hlisted⟩, fun name hname => ?_,
          fun name hname => ?_⟩, rfl, ?_⟩
        · exact (hsorted.2 name hname).resolve_left List.not_mem_nil
        · exact (hsorted.1 name (hchildren.1 name hname)).resolve_left List.not_mem_nil
        · rcases List.mem_cons.mp h with rfl | h
          · exact Or.inl rfl
          · obtain ⟨name, hname, s', hmem, hsub⟩ := hchildren.2 v h
            exact Or.inr ⟨name, hname, s', hmem, fun w hw => List.mem_cons_of_mem _ (hsub hw)⟩

theorem made_of_mem {H : Host} {fuel : Nat} {root : Text} {s : State} {v : Visit}
    (h : v ∈ (walkFrom H fuel root s).1) : Made H v := by
  induction fuel generalizing root s with
  | zero => exact absurd h List.not_mem_nil
  | succ fuel ih =>
    obtain ⟨below, hfuel, top, -, hmade, -, rfl | ⟨name, -, s', hmem, -⟩⟩ := mem_walkFrom h
    · exact hmade
    · cases hfuel
      exact ih hmem

/-- As long as what is entered leads deeper, the walk goes through names. -/
theorem rooted_of_mem {H : Host} {src : Text} (hsrc : '?' ∉ render (components src)) {fuel : Nat}
    {root : Text} {s : State} {names : List Text} {cgi : Text}
    (hroot : root = render (components src ++ names) ++ cgi) (hnames : ∀ n ∈ names, Plain n)
    (hcgi : IsCgi cgi) (hleads : ∀ v ∈ (walkFrom H fuel root s).1, Rooted src v → Leads v) :
    ∀ v ∈ (walkFrom H fuel root s).1, Rooted src v := by
  induction fuel generalizing root s names cgi with
  | zero => exact fun v h => absurd h List.not_mem_nil
  | succ fuel ih =>
    intro v h
    obtain ⟨below, hfuel, top, htop, hmade, hsplit, hv⟩ := mem_walkFrom h
    cases hfuel
    have hall := plain_append hsrc hnames
    rw [hroot, splitCgi_append (not_mem_render hall) hcgi] at hsplit
    obtain ⟨hbase, htail⟩ := Prod.mk.inj hsplit
    have hrooted : Rooted src top := ⟨names, hbase.symm, hnames, htail ▸ hcgi⟩
    obtain rfl | ⟨name, hname, s', hmem, hsub⟩ := hv
    · exact hrooted
    · obtain ⟨hentries, hentered⟩ := hleads top htop hrooted
      have hsingle : Name name := by
        obtain ⟨e, he, rfl⟩ := hmade.entered name hname
        exact hentries e he
      have hplain : Plain (splitCgi name).1 := ⟨hentered name hname, not_mem_splitCgi name⟩
      refine @ih _ s' (names ++ [(splitCgi name).1]) ((splitCgi name).2 ++ cgi) ?_ ?_
        (isCgi_splitCgi name hcgi) (fun w hw => hleads w (hsub hw)) v hmem
      · have hbelow : render (components src ++ (names ++ [(splitCgi name).1])) =
            body (components src ++ names) ++ '/' :: (splitCgi name).1 := by
          rw [← List.append_assoc, render_concat]
        rw [← hbase, ← htail, join_name (fun n hn => (hall n hn).1) hsingle, render_concat, hbelow]
        conv_lhs => rw [← splitCgi_eq name]
        simp
      · intro n hn
        rcases List.mem_append.mp hn with hn | hn
        · exact hnames n hn
        · exact List.mem_singleton.mp hn ▸ hplain

theorem isCgi_cgi (extra : Text) : IsCgi (cgi extra) := by
  unfold cgi
  split
  · exact Or.inl rfl
  · exact Or.inr rfl

/-- A recursive copy stays inside its target, and goes deeper with each directory, exactly
when every answer spells names and the walk cuts none of them short to something else. -/
theorem kept_inside_iff (H : Host) (fuel : Nat) (src dst extra : Text)
    (hsrc : '?' ∉ normalize src) :
    (∀ v ∈ walk H fuel (normalize src) extra,
        KeptInside (normalize src) (normalize dst) v) ↔
      ∀ v ∈ walk H fuel (normalize src) extra, Proper v := by
  have hplain : '?' ∉ render (components src) := by
    obtain ⟨slash, hform⟩ := normalize_form src
    rw [hform] at hsrc
    cases slash with
    | false => exact hsrc
    | true => exact fun h => hsrc (List.mem_append_left _ h)
  have hroot : render (components (normalize src)) ++ cgi extra =
      render (components src ++ []) ++ cgi extra := by
    rw [components_normalize, List.append_nil]
  have hrooted := fun hleads => @rooted_of_mem H src hplain fuel _ ⟨0, []⟩ [] _ hroot
    (fun n hn => absurd hn List.not_mem_nil) (isCgi_cgi extra) hleads
  unfold walk
  constructor
  · intro h v hv
    have hleads : ∀ w ∈ (walkFrom H fuel _ ⟨0, []⟩).1, Rooted src w → Leads w := fun w hw hroot =>
      (keptInside_iff_leads hplain (made_of_mem hw) hroot).mp (h w hw)
    exact (proper_iff_leads (made_of_mem hv)).mpr (hleads v hv (hrooted hleads v hv))
  · intro h v hv
    have hleads : ∀ w ∈ (walkFrom H fuel _ ⟨0, []⟩).1, Rooted src w → Leads w := fun w hw _ =>
      (proper_iff_leads (made_of_mem hw)).mp (h w hw)
    exact (keptInside_iff_leads hplain (made_of_mem hv) (hrooted hleads v hv)).mpr
      (hleads v hv (hrooted hleads v hv))

/-- A collection with a collection in it, whose one member is a file. -/
def inward : Host where
  reply asked _ :=
    if asked = 0 then
      some (.propfind [(['/', 'd', '/'], ⟨true, []⟩), (['/', 'd', '/', 'a', '/'], ⟨true, []⟩)])
    else some (.propfind [(['/', 'd', '/', 'a', '/', 'f'], ⟨false, []⟩)])
  stat _ _ := none
  link _ _ := some false
  statOf _ := none

theorem kept_inside_iff_inward : (walk inward 2 (normalize ['/', 'd']) []).length = 2 ∧
    ∀ v ∈ walk inward 2 (normalize ['/', 'd']) [],
      KeptInside (normalize ['/', 'd']) (normalize ['/', 't']) v :=
  ⟨by decide, (kept_inside_iff inward 2 ['/', 'd'] ['/', 't'] [] (by decide)).mpr (by decide)⟩

/-- A bucket with the key `d/../f`, read as a tree from `/d`. -/
def upward : Host where
  reply asked _ :=
    if asked = 0 then some (.objects [(['.', '.'], ⟨true, []⟩)])
    else some (.objects [(['f'], ⟨false, []⟩)])
  stat _ _ := none
  link _ _ := some false
  statOf _ := none

/-- A key with a `..` in it is a name that survives, is walked to above the source, and is
copied to outside the target. -/
theorem copied_outside :
    (∃ v ∈ walk upward 2 (normalize ['/', 'd']) [], ∃ e ∈ v.entries, ¬ Name e.name) ∧
    (∃ v ∈ walk upward 2 (normalize ['/', 'd']) [], ∃ name ∈ v.entered,
      ¬ Below v.base (childBase v name)) ∧
    ∃ v ∈ walk upward 2 (normalize ['/', 'd']) [], ∃ name ∈ v.files,
      destination (normalize ['/', 't']) (relative (normalize ['/', 'd']) v.base name) =
        ['/', 'f'] ∧
      ¬ Below (normalize ['/', 't'])
        (destination (normalize ['/', 't']) (relative (normalize ['/', 'd']) v.base name)) := by
  decide

end XrdClient.Copy.Inside
