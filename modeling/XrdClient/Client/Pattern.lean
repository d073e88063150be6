/-
  Client/Pattern.lean --- `client/_fsbase.py`: a glob pattern and the regular expression
  that `_glob_regex` makes of it.

  THE CODE.  `globRegex` writes the text of a regular expression, `compile` is what
  `re.compile` makes of such a text, `fullmatch` what the result matches.  `compile`
  knows what `_glob_regex` can write and what can be left of it when a class runs on
  into it.

  THE READING.  `reading` takes a pattern as `pathlib` does: a class ends in its own
  component or is no class, a `]` that it begins with is one of its characters, and
  nothing but `**` goes past a slash.

  The two are compared piece by piece (`compile_globRegex`), where the pattern is `tame`.
-/
import XrdClient.Lib.Bytes
import XrdClient.Lib.Spans

set_option autoImplicit false

namespace XrdClient.Client.Pattern

open XrdClient.Lib
open XrdClient.Lib.Spans

/-! ## The regular expression -/

/-- What `re.escape` puts a backslash before. -/
def special : Text := "()[]\x7b\x7d?*+-|^$\\.&~# \t\n\r\x0b\x0c".toList

/-- `re.escape` of one character. -/
def reEscape (c : Char) : Text := if c ∈ special then ['\\', c] else [c]

/-- The body of a class: `!` is `^`, and a backslash is one. -/
def classBody (body : Text) : Text :=
  let body := body.flatMap fun c => if c = '\\' then ['\\', '\\'] else [c]
  if body.head? = some '!' then '^' :: body.tail else body

/-- A character of a regular expression, or a backslash and what it is before. -/
inductive Token where
  | plain (c : Char)
  | escaped (c : Char)
  deriving DecidableEq

def Token.char : Token → Char
  | .plain c => c
  | .escaped c => c

/-- The tokens of a regular expression; a backslash at its end is an error. -/
def tokenize : Text → Option (List Token)
  | [] => some []
  | [c] => if c = '\\' then none else some [.plain c]
  | c :: d :: rest =>
    if c = '\\' then (tokenize rest).map (.escaped d :: ·)
    else (tokenize (d :: rest)).map (.plain c :: ·)

/-- The items of a class, as ranges, and what is after it.  `first` says that a `]` here
is the first item. -/
def parseItems (first : Bool) : List Token → Option (List (Char × Char) × List Token)
  | [] => none
  | t :: d :: u :: ts =>
    if t = .plain ']' ∧ first = false then some ([], d :: u :: ts)
    else if d = .plain '-' then
      if u = .plain ']' then some ([(t.char, t.char), ('-', '-')], ts)
      else if t.char ≤ u.char then
        (parseItems false ts).map fun r => ((t.char, u.char) :: r.1, r.2)
      else none
    else (parseItems false (d :: u :: ts)).map fun r => ((t.char, t.char) :: r.1, r.2)
  | t :: ts =>
    if t = .plain ']' ∧ first = false then some ([], ts)
    else (parseItems false ts).map fun r => ((t.char, t.char) :: r.1, r.2)

inductive Repeat where
  | once
  | star
  | plus
  deriving DecidableEq

/-- The parts of a compiled expression. -/
inductive Node where
  | lit (c : Char)
  /-- A class, and how often. -/
  | set (negated : Bool) (items : List (Char × Char)) (times : Repeat)
  /-- `.*` -/
  | dotStar
  /-- `(?:[^/]+/)*` -/
  | dirs
  deriving DecidableEq

/-- A quantifier, if there is one. -/
def quantifier : List Token → Repeat × List Token
  | t :: ts =>
    if t = .plain '*' then (.star, ts) else if t = .plain '+' then (.plus, ts) else (.once, t :: ts)
  | [] => (.once, [])

/-- What the group of directories is after its `(`. -/
def dirTokens : List Token := "?:[^/]+/)*".toList.map .plain

/-- `re.compile` of tokens; `none` is `re.error`.  A `)`, `*` or `+` by itself is what a
class left over of `(?:[^/]+/)*`. -/
def compileFrom : Nat → List Token → Option (List Node)
  | _, [] => some []
  | 0, _ :: _ => none
  | fuel + 1, .escaped c :: ts => (compileFrom fuel ts).map (.lit c :: ·)
  | fuel + 1, .plain c :: ts =>
    if c = '[' then
      let (negated, ts) := if ts.head? = some (.plain '^') then (true, ts.tail) else (false, ts)
      match parseItems true ts with
      | none => none
      | some (items, ts) =>
        let (times, ts) := quantifier ts
        (compileFrom fuel ts).map (.set negated items times :: ·)
    else if c = '.' ∧ ts.head? = some (.plain '*') then
      (compileFrom fuel ts.tail).map (.dotStar :: ·)
    else if c = '(' ∧ dirTokens.isPrefixOf ts then
      (compileFrom fuel (ts.drop dirTokens.length)).map (.dirs :: ·)
    else if c ∈ special then none
    else (compileFrom fuel ts).map (.lit c :: ·)

/-- A character is in one of the ranges. -/
def member (items : List (Char × Char)) (c : Char) : Bool :=
  items.any fun (lo, hi) => lo ≤ c ∧ c ≤ hi

/-- Whole names, each with a slash after it; `inName` says that one has begun. -/
def wholeNames : Bool → Text → Bool
  | inName, [] => !inName
  | inName, c :: rest => if c = '/' then inName && wholeNames false rest else wholeNames true rest

/-- What one part of a compiled expression matches. -/
def Node.takes : Node → Text → Bool
  | .lit c, a => a = [c]
  | .set negated items times, a =>
    a.all (fun c => member items c != negated) &&
      match times with
      | .once => a.length = 1
      | .star => true
      | .plus => a ≠ []
  | .dotStar, a => '\n' ∉ a
  | .dirs, a => wholeNames false a

inductive PatternPiece where
  | lit (c : Char)
  /-- `?` -/
  | any
  /-- `*` -/
  | star
  | set (negated : Bool) (items : List (Char × Char))
  /-- `**` as a whole component, with its slash: zero or more directories. -/
  | dirs
  /-- `**` anywhere else. -/
  | deep
  deriving DecidableEq

/-- The characters of a class: `a-b` is from `a` to `b`. -/
def ranges : Text → List (Char × Char)
  | [] => []
  | a :: d :: b :: rest =>
    if d = '-' then (a, b) :: ranges rest else (a, a) :: ranges (d :: b :: rest)
  | a :: rest => (a, a) :: ranges rest

/-- The class that begins after a `[`, and how much of the text it is: none if no `]`
ends it in its component. -/
def bracket (rest : Text) : Option (Bool × List (Char × Char) × Nat) :=
  let part := rest.takeWhile (· ≠ '/')
  let negated : Bool := part.head? = some '!'
  let body := if negated then part.tail else part
  if ']' ∈ body.tail then
    let inner := body.take 1 ++ body.tail.takeWhile (· ≠ ']')
    some (negated, ranges inner, (if negated then 1 else 0) + inner.length + 1)
  else none

/-- A pattern, read component by component; `start` says that a component begins. -/
def reading : Bool → Nat → Text → List PatternPiece
  | _, _, [] => []
  | _, skip + 1, c :: rest => reading (c = '/') skip rest
  | start, 0, c :: rest =>
    if c = '*' ∧ rest.head? = some '*' then
      if start ∧ rest.tail.head? = some '/' then .dirs :: reading false 2 rest
      else .deep :: reading false 1 rest
    else if c = '*' then .star :: reading false 0 rest
    else if c = '?' then .any :: reading false 0 rest
    else if c = '[' then
      match bracket rest with
      | some (negated, items, n) => .set negated items :: reading false n rest
      | none => .lit '[' :: reading false 0 rest
    else .lit c :: reading (c = '/') 0 rest

/-- What one piece takes of a path. -/
def PatternPiece.takes : PatternPiece → Text → Bool
  | .lit c, a => a = [c]
  | .any, a => a.length = 1 ∧ '/' ∉ a
  | .star, a => '/' ∉ a
  | .set negated items, a =>
    a.all (fun c => member items c != negated) && decide (a.length = 1 ∧ '/' ∉ a)
  | .dirs, a => wholeNames false a
  | .deep, _ => true

/-- A class body without its `!`. -/
def inner (body : Text) : Text := if body.head? = some '!' then body.tail else body

/-- A class body that `re` and `pathlib` read alike: it is all in one component, there is
something in it, it does not begin with a `^`, and no range is upside down. -/
def tameBody (body : Text) : Bool :=
  '/' ∉ body ∧ inner body ≠ [] ∧ body.head? ≠ some '^' ∧ ∀ r ∈ ranges (inner body), r.1 ≤ r.2

/-- The part of the expression that is written for a piece. -/
def PatternPiece.node : PatternPiece → Node
  | .lit c => .lit c
  | .any => .set true [('/', '/')] .once
  | .star => .set true [('/', '/')] .star
  | .set negated items => .set negated items .once
  | .dirs => .dirs
  | .deep => .dotStar

/-- A character of a class body, as it is read back. -/
def bodyToken (c : Char) : Token := if c = '\\' then .escaped c else .plain c

theorem bodyToken_char (c : Char) : (bodyToken c).char = c := by
  unfold bodyToken
  split <;> rfl

theorem bodyToken_eq_plain {c d : Char} (hd : d ≠ '\\') :
    bodyToken c = .plain d ↔ c = d := by
  unfold bodyToken
  split
  · next hc =>
    subst hc
    exact ⟨nofun, fun h => absurd h.symm hd⟩
  · exact Token.plain.injEq c d ▸ Iff.rfl

theorem tokenize_cons {c : Char} (hc : c ≠ '\\') (rest : Text) :
    tokenize (c :: rest) = (tokenize rest).map (.plain c :: ·) := by
  cases rest with
  | nil =>
    simp only [tokenize, if_neg hc]
    rfl
  | cons d rest => rw [tokenize, if_neg hc]

theorem tokenize_escape (c : Char) (rest : Text) :
    tokenize ('\\' :: c :: rest) = (tokenize rest).map (.escaped c :: ·) := by
  rw [tokenize, if_pos rfl]

theorem tokenize_plain {text : Text} (h : '\\' ∉ text) (rest : Text) :
    tokenize (text ++ rest) = (tokenize rest).map (text.map .plain ++ ·) := by
  induction text with
  | nil => simp
  | cons c text ih =>
    rw [List.mem_cons, not_or] at h
    rw [List.cons_append, tokenize_cons (fun hc => h.1 hc.symm), ih h.2, Option.map_map]
    rfl

theorem tokenize_classBody (text rest : Text) :
    tokenize (text.flatMap (fun c => if c = '\\' then ['\\', '\\'] else [c]) ++ rest) =
      (tokenize rest).map (text.map bodyToken ++ ·) := by
  induction text with
  | nil => simp
  | cons c text ih =>
    rw [List.flatMap_cons, List.append_assoc, List.map_cons]
    by_cases hc : c = '\\'
    · rw [if_pos hc, List.cons_append, List.cons_append, List.nil_append, tokenize_escape, ih,
        Option.map_map, bodyToken, if_pos hc, hc]
      rfl
    · rw [if_neg hc, List.cons_append, List.nil_append, tokenize_cons hc, ih, Option.map_map,
        bodyToken, if_neg hc]
      rfl

/-- What is written for a character is read back as that character. -/
theorem tokenize_reEscape (c : Char) (rest : Text) : ∃ t : Token, t.char = c ∧
    (t = .escaped c ∨ t = .plain c ∧ c ∉ special) ∧
    tokenize (reEscape c ++ rest) = (tokenize rest).map (t :: ·) := by
  unfold reEscape
  by_cases hc : c ∈ special
  · refine ⟨.escaped c, rfl, Or.inl rfl, ?_⟩
    rw [if_pos hc]
    exact tokenize_escape c rest
  · refine ⟨.plain c, rfl, Or.inr ⟨rfl, hc⟩, ?_⟩
    have hback : c ≠ '\\' := by
      rintro rfl
      exact hc (by decide)
    rw [if_neg hc]
    exact tokenize_cons hback rest

/-- A body with its ranges in order is read back as its ranges. -/
theorem parseItems_body {inner : Text} (hclose : ']' ∉ inner)
    (hranges : ∀ r ∈ ranges inner, r.1 ≤ r.2) (first : Bool) (hfirst : inner = [] → first = false)
    (ts : List Token) :
    parseItems first (inner.map bodyToken ++ .plain ']' :: ts) = some (ranges inner, ts) := by
  have hback : ']' ≠ '\\' := by decide
  have hdash : '-' ≠ '\\' := by decide
  induction inner using ranges.induct generalizing first with
  | case1 =>
    rw [hfirst rfl]
    cases ts with
    | nil => rfl
    | cons t ts =>
      cases ts <;> rfl
  | case2 a b rest ih =>
    simp only [List.mem_cons, not_or] at hclose
    obtain ⟨ha, -, hb, hrest⟩ := hclose
    rw [ranges, if_pos rfl] at hranges ⊢
    rw [List.forall_mem_cons] at hranges
    have hle : (bodyToken a).char ≤ (bodyToken b).char := by
      rw [bodyToken_char, bodyToken_char]
      exact hranges.1
    have hrec := ih hrest hranges.2 false (fun _ => rfl)
    simp only [List.map_cons, List.cons_append]
    rw [parseItems, if_neg, if_pos ((bodyToken_eq_plain hdash).mpr rfl), if_neg, if_pos hle, hrec]
    · simp only [Option.map_some, bodyToken_char]
    · rw [bodyToken_eq_plain hback]
      exact fun h => hb h.symm
    · rw [bodyToken_eq_plain hback]
      exact fun h => ha h.1.symm
  | case3 a d b rest hd ih =>
    simp only [List.mem_cons, not_or] at hclose
    obtain ⟨ha, hrest⟩ := hclose
    rw [ranges, if_neg hd] at hranges ⊢
    rw [List.forall_mem_cons] at hranges
    have hrec := ih (by simp only [List.mem_cons, not_or]; exact hrest) hranges.2 false
      (fun _ => rfl)
    simp only [List.map_cons, List.cons_append] at hrec ⊢
    rw [parseItems, if_neg, if_neg, hrec]
    · simp only [Option.map_some, bodyToken_char]
    · rw [bodyToken_eq_plain hdash]
      exact hd
    · rw [bodyToken_eq_plain hback]
      exact fun h => ha h.1.symm
  | case4 a rest hshort ih =>
    simp only [List.mem_cons, not_or] at hclose
    obtain ⟨ha, hrest⟩ := hclose
    have hopen : ¬ (bodyToken a = .plain ']' ∧ first = false) := by
      rw [bodyToken_eq_plain hback]
      exact fun h => ha h.1.symm
    have hcons : ranges (a :: rest) = (a, a) :: ranges rest := by
      rw [ranges]
      exact hshort
    rw [hcons] at hranges ⊢
    rw [List.forall_mem_cons] at hranges
    have hrec := ih hrest hranges.2 false (fun _ => rfl)
    match rest, hshort with
    | [], _ =>
      cases ts with
      | nil =>
        simp only [List.map_cons, List.map_nil, List.cons_append, List.nil_append] at hrec ⊢
        rw [parseItems, if_neg hopen, hrec]
        · simp only [Option.map_some, bodyToken_char]
        · exact fun _ _ _ h => by cases h
      | cons t ts =>
        simp only [List.map_cons, List.map_nil, List.cons_append, List.nil_append] at hrec ⊢
        rw [parseItems, if_neg hopen, if_neg (by decide), hrec]
        simp only [Option.map_some, bodyToken_char]
    | [d], _ =>
      simp only [List.map_cons, List.map_nil, List.cons_append, List.nil_append] at hrec ⊢
      rw [parseItems, if_neg hopen]
      by_cases hd : d = '-'
      · subst hd
        rw [if_pos ((bodyToken_eq_plain hdash).mpr rfl), if_pos rfl, bodyToken_char]
        rfl
      · rw [if_neg (fun h => hd ((bodyToken_eq_plain hdash).mp h)), hrec]
        simp only [Option.map_some, bodyToken_char]
    | d :: b :: rest, hshort => exact absurd rfl fun h => hshort d b rest h

/-- A text that compiles to these parts, whatever it is put after. -/
def Compiles (text : Text) (nodes : List Node) : Prop :=
  ∃ ts, tokenize text = some ts ∧ quantifier ts = (.once, ts) ∧
    ∀ fuel, ts.length ≤ fuel → compileFrom fuel ts = some nodes

section

variable {rest : Text} {nodes : List Node}

theorem quantifier_once {t : Token} (hstar : t ≠ .plain '*') (hplus : t ≠ .plain '+')
    (ts : List Token) : quantifier (t :: ts) = (.once, t :: ts) := by
  rw [quantifier, if_neg hstar, if_neg hplus]

theorem compileFrom_plain {c : Char} (hc : c ∉ special) (fuel : Nat) (ts : List Token) :
    compileFrom (fuel + 1) (.plain c :: ts) = (compileFrom fuel ts).map (.lit c :: ·) := by
  have hne : ∀ d ∈ special, c ≠ d := fun d hd h => hc (h ▸ hd)
  rw [compileFrom, if_neg (hne '[' (by decide)), if_neg (fun h => hne '.' (by decide) h.1),
    if_neg (fun h => hne '(' (by decide) h.1), if_neg hc]

theorem compileFrom_class (negated : Bool) {items : Text} (hclose : ']' ∉ items)
    (hne : items ≠ []) (hranges : ∀ r ∈ ranges items, r.1 ≤ r.2)
    (hcaret : negated = false → items.head? ≠ some '^') {ts ts' : List Token} {times : Repeat}
    (htimes : quantifier ts = (times, ts')) (fuel : Nat) :
    compileFrom (fuel + 1) (.plain '[' ::
        ((if negated then [.plain '^'] else []) ++ items.map bodyToken ++ .plain ']' :: ts)) =
      (compileFrom fuel ts').map (.set negated (ranges items) times :: ·) := by
  have hitems := parseItems_body hclose hranges true (fun h => absurd h hne) ts
  rw [compileFrom, if_pos rfl]
  cases negated with
  | true =>
    simp only [if_true, List.cons_append, List.nil_append, List.head?_cons, List.tail_cons, hitems,
      htimes]
  | false =>
    have hhead : (items.map bodyToken ++ .plain ']' :: ts).head? ≠ some (.plain '^') := by
      obtain ⟨c, rest, rfl⟩ := List.exists_cons_of_ne_nil hne
      intro h
      simp only [List.map_cons, List.cons_append, List.head?_cons, Option.some.injEq] at h
      rw [bodyToken_eq_plain (by decide)] at h
      exact hcaret rfl (congrArg some h)
    simp only [Bool.false_eq_true, if_false, List.nil_append, if_neg hhead, hitems, htimes]

theorem Compiles.lit (h : Compiles rest nodes) (c : Char) :
    Compiles (reEscape c ++ rest) (.lit c :: nodes) := by
  obtain ⟨ts, htokens, -, hcompile⟩ := h
  obtain ⟨t, -, ht, htokens'⟩ := tokenize_reEscape c rest
  refine ⟨t :: ts, by rw [htokens', htokens, Option.map_some], ?_, fun fuel hfuel => ?_⟩
  · rcases ht with rfl | ⟨rfl, hc⟩
    · exact quantifier_once (t := .escaped c) nofun nofun ts
    · refine quantifier_once (fun h => hc ?_) (fun h => hc ?_) ts
      · rw [Token.plain.inj h]
        decide
      · rw [Token.plain.inj h]
        decide
  · rw [List.length_cons] at hfuel
    obtain ⟨fuel, rfl⟩ : ∃ n, fuel = n + 1 := ⟨fuel - 1, by omega⟩
    have hrest := hcompile fuel (by omega)
    rcases ht with rfl | ⟨rfl, hc⟩
    · rw [compileFrom, hrest, Option.map_some]
    · rw [compileFrom_plain hc, hrest, Option.map_some]

/-- A class whose items are read up to its `]`. -/
theorem Compiles.set (h : Compiles rest nodes) (negated : Bool) {items : Text}
    (hclose : ']' ∉ items) (hne : items ≠ []) (hranges : ∀ r ∈ ranges items, r.1 ≤ r.2)
    (hcaret : negated = false → items.head? ≠ some '^') {written : Text}
    (hwritten : ∀ tail, tokenize (written ++ tail) = (tokenize tail).map
      ((if negated then [.plain '^'] else []) ++ items.map bodyToken ++ ·)) :
    Compiles ('[' :: written ++ ']' :: rest) (.set negated (ranges items) .once :: nodes) := by
  obtain ⟨ts, htokens, honce, hcompile⟩ := h
  refine ⟨.plain '[' ::
    ((if negated then [.plain '^'] else []) ++ items.map bodyToken ++ .plain ']' :: ts), ?_,
    quantifier_once (t := .plain '[') (by decide) (by decide) _, fun fuel hfuel => ?_⟩
  · rw [List.cons_append, tokenize_cons (by decide), hwritten, tokenize_cons (by decide), htokens]
    rfl
  · simp only [List.length_cons, List.length_append] at hfuel
    obtain ⟨fuel, rfl⟩ : ∃ n, fuel = n + 1 := ⟨fuel - 1, by omega⟩
    rw [compileFrom_class negated hclose hne hranges hcaret honce, hcompile fuel (by omega),
      Option.map_some]

theorem Compiles.any (h : Compiles rest nodes) :
    Compiles ("[^/]".toList ++ rest) (PatternPiece.any.node :: nodes) :=
  have hwritten : ∀ tail, tokenize (['^', '/'] ++ tail) =
      (tokenize tail).map ((if true then [.plain '^'] else []) ++ ['/'].map bodyToken ++ ·) :=
    tokenize_plain (by decide)
  h.set true (by decide) (by decide) (by decide) nofun hwritten

theorem Compiles.star (h : Compiles rest nodes) :
    Compiles ("[^/]*".toList ++ rest) (PatternPiece.star.node :: nodes) := by
  obtain ⟨ts, htokens, -, hcompile⟩ := h
  refine ⟨"[^/]*".toList.map .plain ++ ts, ?_, rfl, fun fuel hfuel => ?_⟩
  · rw [tokenize_plain (by decide), htokens]
    rfl
  · have hlength : ("[^/]*".toList.map Token.plain ++ ts).length = ts.length + 5 := by
      rw [List.length_append, Nat.add_comm]
      rfl
    obtain ⟨fuel, rfl⟩ : ∃ n, fuel = n + 1 := ⟨fuel - 1, by omega⟩
    have hclass := compileFrom_class true (show ']' ∉ ['/'] by decide) (by decide) (by decide)
      nofun (show quantifier (.plain '*' :: ts) = (.star, ts) from rfl) fuel
    rw [hcompile fuel (by omega)] at hclass
    exact hclass

theorem Compiles.deep (h : Compiles rest nodes) :
    Compiles (".*".toList ++ rest) (PatternPiece.deep.node :: nodes) := by
  obtain ⟨ts, htokens, -, hcompile⟩ := h
  refine ⟨".*".toList.map .plain ++ ts, ?_, rfl, fun fuel hfuel => ?_⟩
  · rw [tokenize_plain (by decide), htokens]
    rfl
  · have hlength : (".*".toList.map Token.plain ++ ts).length = ts.length + 2 := by
      rw [List.length_append, Nat.add_comm]
      rfl
    obtain ⟨fuel, rfl⟩ : ∃ n, fuel = n + 1 := ⟨fuel - 1, by omega⟩
    show (compileFrom fuel ts).map _ = _
    rw [hcompile fuel (by omega)]
    rfl

theorem Compiles.dirs (h : Compiles rest nodes) :
    Compiles ("(?:[^/]+/)*".toList ++ rest) (PatternPiece.dirs.node :: nodes) := by
  obtain ⟨ts, htokens, -, hcompile⟩ := h
  refine ⟨"(?:[^/]+/)*".toList.map .plain ++ ts, ?_, rfl, fun fuel hfuel => ?_⟩
  · rw [tokenize_plain (by decide), htokens]
    rfl
  · have hlength : ("(?:[^/]+/)*".toList.map Token.plain ++ ts).length = ts.length + 11 := by
      rw [List.length_append, Nat.add_comm]
      rfl
    obtain ⟨fuel, rfl⟩ : ∃ n, fuel = n + 1 := ⟨fuel - 1, by omega⟩
    show (compileFrom fuel ts).map _ = _
    rw [hcompile fuel (by omega)]
    rfl

end

theorem Compiles.body {rest : Text} {nodes : List Node} (h : Compiles rest nodes) {body : Text}
    (hclose : ']' ∉ body) (htame : tameBody body = true) :
    Compiles ('[' :: classBody body ++ ']' :: rest)
      (.set (decide (body.head? = some '!')) (ranges (inner body)) .once :: nodes) := by
  have htame' := of_decide_eq_true htame
  obtain ⟨-, hne, hcaret, hranges⟩ := htame'
  unfold inner at hne hranges ⊢
  by_cases hbang : body.head? = some '!'
  · rw [if_pos hbang] at hne hranges ⊢
    obtain ⟨items, rfl⟩ := List.head?_eq_some_iff.mp hbang
    rw [List.tail_cons] at hne hranges ⊢
    rw [decide_eq_true hbang]
    refine h.set true (fun hmem => hclose (List.mem_cons_of_mem _ hmem)) hne hranges nofun
      fun tail => ?_
    have hwritten : classBody ('!' :: items) =
        '^' :: items.flatMap (fun c => if c = '\\' then ['\\', '\\'] else [c]) := rfl
    rw [hwritten, List.cons_append, tokenize_cons (by decide), tokenize_classBody, Option.map_map]
    rfl
  · rw [if_neg hbang] at hne hranges ⊢
    rw [decide_eq_false hbang]
    refine h.set false hclose hne hranges (fun _ => hcaret) fun tail => ?_
    have hwritten : classBody body =
        body.flatMap (fun c => if c = '\\' then ['\\', '\\'] else [c]) := by
      obtain ⟨c, items, rfl⟩ := List.exists_cons_of_ne_nil hne
      unfold classBody
      refine if_neg ?_
      rw [List.flatMap_cons]
      split
      · exact nofun
      · exact hbang
    rw [hwritten, tokenize_classBody]
    rfl

/-- Every class that a slash is in begins a component, or ends one. -/
def guarded : Bool → List PatternPiece → Bool
  | _, [] => true
  | start, .set negated items :: ps =>
    (start || member items '/' == negated || ps.isEmpty || ps.head? = some (.lit '/')) &&
      guarded false ps
  | _, .lit c :: ps => guarded (c = '/') ps
  | start, .dirs :: ps => guarded start ps
  | _, _ :: ps => guarded false ps

theorem guarded_set (start negated : Bool) (items : List (Char × Char)) (ps : List PatternPiece) :
    guarded start (.set negated items :: ps) =
      ((start || member items '/' == negated || ps.isEmpty || ps.head? = some (.lit '/')) &&
        guarded false ps) := rfl

/-- No component is empty, in the rest of a path; `start` says that it follows a slash. -/
def Spaced (start : Bool) (text : Text) : Prop :=
  ¬ ['/', '/'] <:+: (if start then '/' :: text else text) ∧ text.getLast? ≠ some '/'

theorem wholeNames_end {inName : Bool} {text : Text} (h : wholeNames inName text = true) :
    text = [] ∨ ∃ front, text = front ++ ['/'] := by
  induction text generalizing inName with
  | nil => exact Or.inl rfl
  | cons c rest ih =>
    right
    rw [wholeNames] at h
    by_cases hc : c = '/'
    · rw [if_pos hc, Bool.and_eq_true] at h
      rcases ih h.2 with rfl | ⟨front, rfl⟩
      · exact ⟨[], by rw [hc]; rfl⟩
      · exact ⟨c :: front, rfl⟩
    · rw [if_neg hc] at h
      rcases ih h with rfl | ⟨front, rfl⟩
      · cases h
      · exact ⟨c :: front, rfl⟩

theorem Spaced.tail {start : Bool} {a b : Text} (h : Spaced start (a ++ b)) : Spaced false b := by
  refine ⟨fun hin => h.1 (hin.trans ?_), fun hlast => h.2 ?_⟩
  · rw [if_neg nofun]
    cases start with
    | false => exact ⟨a, [], by simp⟩
    | true => exact ⟨'/' :: a, [], by simp⟩
  · rw [List.getLast?_append, hlast]
    rfl

/-- After a slash. -/
theorem Spaced.slash {start : Bool} {front b : Text} (h : Spaced start (front ++ '/' :: b)) :
    Spaced true b := by
  refine ⟨fun hin => h.1 (hin.trans ?_), fun hlast => h.2 ?_⟩
  · rw [if_pos rfl]
    cases start with
    | false => exact ⟨front, [], by simp⟩
    | true => exact ⟨'/' :: front, [], by simp⟩
  · rw [List.getLast?_append, List.getLast?_cons, hlast]
    rfl

/-- Where the rest of a pattern and of a path stand, after a piece has taken some of it. -/
theorem Spaced.after {p : PatternPiece} {ps : List PatternPiece} {start : Bool} {a b : Text}
    (hguarded : guarded start (p :: ps) = true) (hspaced : Spaced start (a ++ b))
    (ha : p.takes a = true) : ∃ start', guarded start' ps = true ∧ Spaced start' b := by
  cases p with
  | lit c =>
    have ha : a = [c] := of_decide_eq_true ha
    rw [ha] at hspaced
    refine ⟨c = '/', hguarded, ?_⟩
    by_cases hc : c = '/'
    · rw [hc] at hspaced ⊢
      exact (show Spaced start ([] ++ '/' :: b) from hspaced).slash
    · rw [decide_eq_false hc]
      exact hspaced.tail
  | dirs =>
    refine ⟨start, hguarded, ?_⟩
    rcases wholeNames_end ha with rfl | ⟨front, rfl⟩
    · exact hspaced
    · cases start with
      | false => exact hspaced.tail
      | true =>
        rw [List.append_assoc] at hspaced
        exact (show Spaced true (front ++ '/' :: b) from hspaced).slash
  | set negated items =>
    rw [guarded_set, Bool.and_eq_true] at hguarded
    exact ⟨false, hguarded.2, hspaced.tail⟩
  | any => exact ⟨false, hguarded, hspaced.tail⟩
  | star => exact ⟨false, hguarded, hspaced.tail⟩
  | deep => exact ⟨false, hguarded, hspaced.tail⟩

end XrdClient.Client.Pattern
