/-
  Client/Batches.lean --- a listing handed on instalment by instalment, and read whole.

  THE CODE.  `parse_dirlist` reads a whole body; `_Batches` reads each instalment as it
  comes.  Whether the lines are pairs is decided by the dot entry, which only the first
  instalment has: `_Batches` remembers the decision and lends the later ones a dot entry.

  THE FORMAT.  A listing is entries of one line or of two, each line ended by a newline;
  `pieces` is a way to cut it between entries, the last piece with the ending the server
  gives it.  Lines decode one by one (`readLines_encode_append`), so both readings are
  functions of the lines alone, and what is left to compare is how they pair them.
-/
import XrdClient.Lib.Utf8

set_option autoImplicit false

namespace XrdClient.Client.Batches

open XrdClient.Lib

/-! ## Reading a body -/

/-- Why a listing is refused: the `ProtocolError`s of its parser. -/
inductive ListingError where
  /-- The entry is not a name: the name, and the directory listed. -/
  | notAName (name path : Text)
  /-- `kXR_stat` returned too few fields: how many, and the text. -/
  | fields (count : Nat) (text : Text)
  /-- The stat line has a non-numeric field. -/
  | nonNumeric (text : Text)
  deriving DecidableEq

/-- `StatInfo` -/
structure StatInfo where
  id : Text
  size : Int
  flags : Int
  mtime : Int
  ctime : Int
  atime : Int
  path : Text
  mode : Text
  owner : Text
  group : Text
  deriving DecidableEq

/-- `DirEntry`; a checksum is its algorithm and its value. -/
structure DirEntry where
  name : Text
  parent : Text
  stat : Option StatInfo
  checksum : Option (Text × Text)
  deriving DecidableEq

/-- The entries of a listing, or why it is refused. -/
abbrev Entries : Type := Except ListingError (List DirEntry)

/-- `_checked` -/
def checked (name path : Text) : Except ListingError Text :=
  if '/' ∈ name ∨ name = ['.', '.'] then .error (.notAName name path) else .ok name

/-- `str.split()` -/
def words (text : Text) : List Text := (text.splitOnP isSpace).filter (· ≠ [])

/-- `str.rstrip()` -/
def rstrip (text : Text) : Text := (text.reverse.dropWhile isSpace).reverse

section

/- `int` is the interpreter's: the number a text spells, if it spells one; so is `lower`. -/
variable (int : Text → Option Int) (lower : Text → Text)

/-- `_stat_fields` -/
def statFields (text path : Text) : Except ListingError StatInfo :=
  match words text with
  | id :: size :: flags :: mtime :: ctime :: atime :: mode :: owner :: group :: _ =>
    match int mtime, int size, int flags, int ctime, int atime with
    | some mtime, some size, some flags, some ctime, some atime =>
      .ok { id := id, size := size, flags := flags, mtime := mtime, ctime := ctime,
            atime := atime, path := path, mode := mode, owner := owner, group := group }
    | _, _, _, _, _ => .error (.nonNumeric text)
  | id :: size :: flags :: mtime :: _ =>
    match int mtime, int size, int flags with
    | some mtime, some size, some flags =>
      .ok { id := id, size := size, flags := flags, mtime := mtime, ctime := mtime,
            atime := mtime, path := path, mode := [], owner := [], group := [] }
    | _, _, _ => .error (.nonNumeric text)
  | short => .error (.fields short.length text)

/-- `_cksum_token` -/
def cksumToken (line : Text) : Text × Option (Text × Text) :=
  if '[' ∉ line then (line, none)
  else
    let rest := (line.reverse.takeWhile (· ≠ '[')).reverse
    let head := line.take (line.length - rest.length - 1)
    if (rstrip rest).getLast? ≠ some ']' then (line, none)
    else
      let token := strip (((rstrip rest).reverse.dropWhile (· = ']')).reverse)
      match partitionAt ':' token with
      | (algorithm, colon, value) =>
        if colon = false ∨ algorithm = [] then (line, none)
        else (head, if value = [] ∨ value = "none".toList then none
          else some (lower algorithm, value))

/-- The lines of a text, empty ones left out. -/
def linesOf (text : Text) : List Text := (text.splitOn '\n').filter (· ≠ [])

/-- The lines of a body, up to its first NUL. -/
def readLines (data : Bytes) : List Text := linesOf (decodeReplace (untilNul data))

/-- The listing of lines that are names. -/
def plainEntries (path : Text) : List Text → Entries
  | [] => .ok []
  | name :: names => do
    let name ← checked name path
    let rest ← plainEntries path names
    .ok ({ name := name, parent := path, stat := none, checksum := none } :: rest)

/-- The path that the names of a listing are joined to. -/
def joined (path name : Text) : Text :=
  (if path = [] then [] else (path.reverse.dropWhile (· = '/')).reverse ++ ['/']) ++ name

/-- The listing of lines that come in pairs; a last one without a pair is left out. -/
def statEntries (path : Text) : List Text → Entries
  | name :: statline :: lines =>
    if name = ['.'] then statEntries path lines
    else do
      let name ← checked name path
      let stat ← statFields int (cksumToken lower statline).1 (joined path name)
      let rest ← statEntries path lines
      .ok ({ name := name, parent := path, stat := some stat,
             checksum := (cksumToken lower statline).2 } :: rest)
  | _ => .ok []

/-- The listing of some lines. -/
def parseLines (path : Text) (withStat : Bool) (lines : List Text) : Entries :=
  if withStat = false ∨ lines.head? ≠ some ['.'] then plainEntries path lines
  else statEntries int lower path lines

/-- `parse_dirlist` -/
def parseDirlist (data : Bytes) (path : Text) (withStat : Bool) : Entries :=
  parseLines int lower path withStat (readLines data)

/-! ## Instalments -/

/-- `_Batches`, between two calls. -/
structure Batcher where
  withStat : Bool
  started : Bool
  deriving DecidableEq

/-- The dot entry that says that stat lines are there, as far as its name. -/
def dotLine : Bytes := [0x2E, 0x0A]

/-- `_Batches.__call__`: what it delivers, or raises, and what it remembers. -/
def Batcher.call (path : Text) (b : Batcher) (piece : Bytes) : Entries × Batcher :=
  if b.started = false then
    let withStat := b.withStat && dotLine.isPrefixOf piece
    (parseDirlist int lower piece path withStat, { withStat := withStat, started := true })
  else if b.withStat then
    (parseDirlist int lower (dotLine ++ dotLine ++ piece) path true, b)
  else (parseDirlist int lower piece path false, b)

/-- The batches delivered for some pieces, joined. -/
def deliver (path : Text) (b : Batcher) : List Bytes → Entries
  | [] => .ok []
  | piece :: pieces => do
    let batch ← (b.call int lower path piece).1
    let rest ← deliver path (b.call int lower path piece).2 pieces
    .ok (batch ++ rest)

/-- The pieces that reach `on_chunk`: every instalment, and of the last what is unseen. -/
def handed (pieces : List Bytes) : List Bytes :=
  if pieces.getLast? = some [] then pieces.dropLast else pieces

/-- What `_scandir_parts` hands to `on_batch`, joined. -/
def batches (path : Text) (withStat : Bool) (pieces : List Bytes) : Entries :=
  deliver int lower path { withStat := withStat, started := false } (handed pieces)

end

/-! ## The format -/

/-- What a line of a body may be. -/
def IsLine (line : Bytes) : Prop := line ≠ [] ∧ (0x0A : UInt8) ∉ line ∧ (0 : UInt8) ∉ line

instance (line : Bytes) : Decidable (IsLine line) := inferInstanceAs (Decidable (_ ∧ _ ∧ _))

/-- A listing as a server cuts it: entries of a name, or of a name and a stat line. -/
inductive Listing where
  | plain (instalments : List (List Bytes))
  | stated (instalments : List (List (Bytes × Bytes)))

/-- The lines of each instalment. -/
def Listing.lines : Listing → List (List Bytes)
  | .plain instalments => instalments
  | .stated instalments =>
    instalments.map fun entries => entries.flatMap fun entry => [entry.1, entry.2]

/-- The dot is the name of the dot entry alone, and begins a listing with stat lines. -/
def Listing.Dotted : Listing → Prop
  | .plain instalments => ∀ name ∈ instalments.flatten, name ≠ [0x2E]
  | .stated instalments => (instalments.flatten.map Prod.fst).head? = some [0x2E]

/-- A listing the format can carry. -/
structure Listing.WellFormed (listing : Listing) : Prop where
  lines : ∀ line ∈ listing.lines.flatten, IsLine line
  dotted : listing.Dotted

/-- Lines as they are sent. -/
def encode (lines : List Bytes) : Bytes := lines.flatMap (· ++ [0x0A])

/-- How the last instalment ends: with its newline or without, and with nothing more or
with a NUL and whatever is in the buffer after it. -/
structure Ending where
  newline : Bool
  rest : Option Bytes

/-- The last instalment as it is sent. -/
def Ending.close (ending : Ending) (lines : List Bytes) : Bytes :=
  (if ending.newline then encode lines else (encode lines).dropLast) ++
    (match ending.rest with | none => [] | some rest => 0 :: rest)

/-- The instalments as they are sent. -/
def pieces (ending : Ending) : List (List Bytes) → List Bytes
  | [] => []
  | [lines] => [ending.close lines]
  | lines :: more => encode lines :: pieces ending more

/-! ## Lines -/

theorem linesOf_append (a b : Text) : linesOf (a ++ '\n' :: b) = linesOf a ++ linesOf b := by
  rw [linesOf, List.splitOn_append_cons_self, List.filter_append]
  rfl

theorem linesOf_single {line : Text} (hne : line ≠ []) (h : '\n' ∉ line) :
    linesOf line = [line] := by
  rw [linesOf, List.splitOn_eq_singleton h]
  simp [hne]

theorem untilNul_append {bs : Bytes} (h : (0 : UInt8) ∉ bs) (rest : Bytes) :
    untilNul (bs ++ rest) = bs ++ untilNul rest := by
  refine List.takeWhile_append_of_pos fun b hb => ?_
  refine decide_eq_true ?_
  rintro rfl
  exact h hb

/-- A line decodes to a line. -/
theorem IsLine.linesOf {line : Bytes} (h : IsLine line) :
    linesOf (decodeReplace line) = [decodeReplace line] := by
  refine linesOf_single (decodeReplace_ne_nil h.1) fun hmem => h.2.1 ?_
  refine mem_of_mem_decodeReplace (b := 0x0A) ?_ hmem
  rintro (hwide | hzero)
  · exact absurd hwide (by decide)
  · exact absurd hzero (by decide)

theorem readLines_line {line : Bytes} (h : IsLine line) (rest : Bytes) :
    readLines (line ++ 0x0A :: rest) = decodeReplace line :: readLines rest := by
  have hnul : untilNul (0x0A :: rest) = 0x0A :: untilNul rest := rfl
  rw [readLines, untilNul_append h.2.2, hnul, decodeReplace_append (by decide)]
  show Batches.linesOf (decodeReplace line ++ '\n' :: _) = _
  rw [linesOf_append, h.linesOf]
  rfl

/-- Lines are read one by one, whatever comes after them. -/
theorem readLines_encode_append {lines : List Bytes} (h : ∀ line ∈ lines, IsLine line)
    (rest : Bytes) :
    readLines (encode lines ++ rest) = lines.map decodeReplace ++ readLines rest := by
  induction lines with
  | nil => rfl
  | cons line lines ih =>
    have hcons : encode (line :: lines) ++ rest = line ++ 0x0A :: (encode lines ++ rest) := by
      simp [encode]
    rw [hcons, readLines_line (h line List.mem_cons_self),
      ih fun line hl => h line (List.mem_cons_of_mem _ hl)]
    rfl

theorem readLines_nil : readLines [] = [] := rfl

/-- A last line without its newline is read as well. -/
theorem readLines_last {line : Bytes} (h : IsLine line) (rest : Option Bytes) :
    readLines (line ++ match rest with | none => [] | some rest => 0 :: rest) =
      [decodeReplace line] := by
  have hnul : untilNul (match rest with | none => [] | some rest => 0 :: rest) = [] := by
    cases rest <;> rfl
  rw [readLines, untilNul_append h.2.2, hnul, List.append_nil, h.linesOf]

theorem readLines_close {lines : List Bytes} (h : ∀ line ∈ lines, IsLine line)
    (ending : Ending) : readLines (ending.close lines) = lines.map decodeReplace := by
  have hrest : readLines (match ending.rest with | none => [] | some rest => 0 :: rest) = [] := by
    cases ending.rest <;> rfl
  rw [Ending.close]
  rcases ending.newline with _ | _
  · rw [if_neg Bool.false_ne_true]
    rcases List.eq_nil_or_concat lines with rfl | ⟨init, last, rfl⟩
    · exact hrest
    · have hdrop : (encode (init ++ [last])).dropLast = encode init ++ last := by
        simp [encode, ← List.append_assoc]
      rw [List.concat_eq_append] at h ⊢
      rw [hdrop, List.append_assoc, readLines_encode_append
        fun line hl => h line (List.mem_append_left _ hl)]
      rw [readLines_last (h last (List.mem_append_right _ List.mem_cons_self)), List.map_append]
      rfl
  · rw [if_pos rfl, readLines_encode_append h, hrest, List.append_nil]

/-- The whole body has the lines of its instalments. -/
theorem readLines_pieces (ending : Ending) {instalments : List (List Bytes)}
    (h : ∀ line ∈ instalments.flatten, IsLine line) :
    readLines (pieces ending instalments).flatten = instalments.flatten.map decodeReplace := by
  induction instalments with
  | nil => rfl
  | cons lines more ih =>
    have hfirst : ∀ line ∈ lines, IsLine line :=
      fun line hl => h line (List.mem_append_left _ hl)
    cases more with
    | nil => simpa [pieces] using readLines_close hfirst ending
    | cons next more =>
      rw [pieces, List.flatten_cons, readLines_encode_append hfirst,
        ih fun line hl => h line (List.mem_append_right _ hl)]
      · exact List.map_append.symm
      · exact nofun

/-! ## Readings of lines -/

variable (int : Text → Option Int) (lower : Text → Text)

/-- Entries, and then more entries. -/
def andThen (a b : Entries) : Entries := do
  let first ← a
  let rest ← b
  .ok (first ++ rest)

variable {int lower} {path : Text}

theorem nil_andThen (a : Entries) : andThen (.ok []) a = a := by
  rcases a with e | entries <;> rfl

/-- One entry before some entries, and then more. -/
theorem cons_andThen (entry : DirEntry) (a b : Entries) :
    (andThen a b).bind (fun rest => .ok (entry :: rest)) =
      andThen (a.bind fun rest => .ok (entry :: rest)) b := by
  rcases a with e | first
  · rfl
  · rcases b with e | rest <;> rfl

theorem plainEntries_append (xs ys : List Text) :
    plainEntries path (xs ++ ys) = andThen (plainEntries path xs) (plainEntries path ys) := by
  induction xs with
  | nil => exact (nil_andThen _).symm
  | cons name xs ih =>
    rw [List.cons_append, plainEntries, ih, plainEntries]
    rcases checked name path with e | name
    · rfl
    · exact cons_andThen _ _ _

/-- Lines in pairs, and then more lines, are read apart. -/
theorem statEntries_append (pairs : List (Text × Text)) (ys : List Text) :
    statEntries int lower path (pairs.flatMap (fun pair => [pair.1, pair.2]) ++ ys) =
      andThen (statEntries int lower path (pairs.flatMap fun pair => [pair.1, pair.2]))
        (statEntries int lower path ys) := by
  induction pairs with
  | nil => exact (nil_andThen _).symm
  | cons pair pairs ih =>
    obtain ⟨name, statline⟩ := pair
    show statEntries int lower path
        (name :: statline :: (pairs.flatMap (fun pair => [pair.1, pair.2]) ++ ys)) =
      andThen (statEntries int lower path
        (name :: statline :: pairs.flatMap fun pair => [pair.1, pair.2])) _
    rw [statEntries, statEntries, ih]
    by_cases hdot : name = ['.']
    · rw [if_pos hdot, if_pos hdot]
    · rw [if_neg hdot, if_neg hdot]
      rcases checked name path with e | name
      · rfl
      · simp only [bind, Except.bind]
        rcases statFields int (cksumToken lower statline).1 (joined path name) with e | stat
        · rfl
        · exact cons_andThen _ _ _

theorem plainEntries_names : ∀ (lines : List Text) {entries : List DirEntry},
    plainEntries path lines = .ok entries → entries.map DirEntry.name = lines := by
  intro lines
  induction lines with
  | nil =>
    intro entries h
    cases h
    rfl
  | cons name lines ih =>
    intro entries h
    rw [plainEntries] at h
    by_cases hbad : '/' ∈ name ∨ name = ['.', '.']
    · rw [checked, if_pos hbad] at h
      exact nomatch h
    · rw [checked, if_neg hbad] at h
      rcases hrest : plainEntries path lines with e | rest
      · rw [hrest] at h
        exact nomatch h
      · rw [hrest] at h
        cases h
        exact congrArg _ (ih hrest)

/-- No entry of a listing with stat lines is the dot entry. -/
theorem statEntries_names : ∀ (lines : List Text) {entries : List DirEntry},
    statEntries int lower path lines = .ok entries → ['.'] ∉ entries.map DirEntry.name := by
  intro lines
  induction lines using statEntries.induct with
  | case1 statline lines ih =>
    intro entries h
    rw [statEntries, if_pos rfl] at h
    exact ih h
  | case2 name statline lines hdot ih =>
    intro entries h
    rw [statEntries, if_neg hdot] at h
    by_cases hbad : '/' ∈ name ∨ name = ['.', '.']
    · rw [checked, if_pos hbad] at h
      exact nomatch h
    · rw [checked, if_neg hbad] at h
      simp only [bind, Except.bind] at h
      rcases hstat : statFields int (cksumToken lower statline).1 (joined path name) with e | stat
      · rw [hstat] at h
        exact nomatch h
      · rcases hrest : statEntries int lower path lines with e | rest
        · rw [hstat, hrest] at h
          exact nomatch h
        · rw [hstat, hrest] at h
          cases h
          intro hmem
          rcases List.mem_cons.mp hmem with hname | hmem
          · exact hdot hname.symm
          · exact ih hrest hmem
  | case3 lines hshort =>
    intro entries h
    have hnone : statEntries int lower path lines = .ok [] := by
      rcases lines with _ | ⟨name, _ | ⟨statline, rest⟩⟩
      · rfl
      · rfl
      · exact absurd rfl (hshort name statline rest)
    rw [hnone] at h
    cases h
    exact List.not_mem_nil

/-! ## Pieces -/

/-- Each piece has the lines of its instalment. -/
theorem map_readLines_pieces (ending : Ending) {instalments : List (List Bytes)}
    (h : ∀ line ∈ instalments.flatten, IsLine line) :
    (pieces ending instalments).map readLines = instalments.map (·.map decodeReplace) := by
  induction instalments with
  | nil => rfl
  | cons lines more ih =>
    have hfirst : ∀ line ∈ lines, IsLine line :=
      fun line hl => h line (List.mem_append_left _ hl)
    cases more with
    | nil => exact congrArg (fun lines => [lines]) (readLines_close hfirst ending)
    | cons next more =>
      have hencode : readLines (encode lines) = lines.map decodeReplace := by
        have happend := readLines_encode_append hfirst []
        rwa [List.append_nil, readLines_nil, List.append_nil] at happend
      rw [pieces, List.map_cons, hencode, ih fun line hl => h line (List.mem_append_right _ hl)]
      · rfl
      · exact nofun

theorem readLines_dot (rest : Bytes) : readLines (dotLine ++ rest) = ['.'] :: readLines rest :=
  @readLines_line [0x2E] ⟨by decide, by decide, by decide⟩ rest

/-- A piece that begins with the dot entry has the dot as its first line. -/
theorem readLines_of_dotted {piece : Bytes} (h : dotLine.isPrefixOf piece = true) :
    ∃ lines, readLines piece = ['.'] :: lines := by
  obtain ⟨rest, rfl⟩ := List.isPrefixOf_iff_prefix.mp h
  exact ⟨_, readLines_dot rest⟩

theorem deliver_cons (b : Batcher) (piece : Bytes) (pieces : List Bytes) :
    deliver int lower path b (piece :: pieces) =
      andThen (b.call int lower path piece).1
        (deliver int lower path (b.call int lower path piece).2 pieces) := rfl

/-- Once it reads names, it reads every piece as names. -/
theorem deliver_plain (pieces : List Bytes) :
    deliver int lower path { withStat := false, started := true } pieces =
      plainEntries path (pieces.flatMap readLines) := by
  induction pieces with
  | nil => rfl
  | cons piece pieces ih =>
    rw [List.flatMap_cons, plainEntries_append, ← ih]
    rfl

/-- Once it reads stat lines, it reads every piece as pairs. -/
theorem deliver_stated {pieces : List Bytes}
    (h : ∀ piece ∈ pieces, ∃ pairs : List (Text × Text),
      readLines piece = pairs.flatMap fun pair => [pair.1, pair.2]) :
    deliver int lower path { withStat := true, started := true } pieces =
      statEntries int lower path (pieces.flatMap readLines) := by
  induction pieces with
  | nil => rfl
  | cons piece pieces ih =>
    obtain ⟨pairs, hpairs⟩ := h piece List.mem_cons_self
    have hcall : (Batcher.call int lower path { withStat := true, started := true } piece).1 =
        statEntries int lower path (readLines piece) := by
      show parseLines int lower path true (readLines (dotLine ++ dotLine ++ piece)) = _
      rw [List.append_assoc, readLines_dot, readLines_dot, parseLines, if_neg (by simp),
        statEntries, if_pos rfl]
    rw [List.flatMap_cons, deliver_cons, hcall]
    show andThen _ (deliver int lower path { withStat := true, started := true } pieces) = _
    rw [ih fun piece hp => h piece (List.mem_cons_of_mem _ hp), hpairs, statEntries_append]

/-- The first piece decides: names, unless stat lines were asked for and it has the dot. -/
theorem deliver_first_plain (withStat : Bool) (pieces : List Bytes)
    (h : ∀ piece, pieces.head? = some piece →
      withStat = true → dotLine.isPrefixOf piece = false) :
    deliver int lower path { withStat := withStat, started := false } pieces =
      plainEntries path (pieces.flatMap readLines) := by
  cases pieces with
  | nil => rfl
  | cons piece pieces =>
    have hplain : (withStat && dotLine.isPrefixOf piece) = false := by
      rcases withStat with _ | _
      · rfl
      · exact h piece rfl rfl
    have hcall : Batcher.call int lower path { withStat := withStat, started := false } piece =
        (plainEntries path (readLines piece), { withStat := false, started := true }) := by
      rw [Batcher.call, if_pos rfl]
      simp only [hplain]
      rfl
    rw [deliver_cons, hcall, deliver_plain, List.flatMap_cons, plainEntries_append]

theorem deliver_first_stated {piece : Bytes} {pieces : List Bytes}
    (hdot : dotLine.isPrefixOf piece = true)
    (h : ∀ p ∈ piece :: pieces, ∃ pairs : List (Text × Text),
      readLines p = pairs.flatMap fun pair => [pair.1, pair.2]) :
    deliver int lower path { withStat := true, started := false } (piece :: pieces) =
      statEntries int lower path ((piece :: pieces).flatMap readLines) := by
  obtain ⟨pairs, hpairs⟩ := h piece List.mem_cons_self
  obtain ⟨lines, hlines⟩ := readLines_of_dotted hdot
  have hcall : Batcher.call int lower path { withStat := true, started := false } piece =
      (statEntries int lower path (readLines piece), { withStat := true, started := true }) := by
    rw [Batcher.call, if_pos rfl]
    simp only [hdot, Bool.and_self]
    rw [parseDirlist, hlines, parseLines, if_neg (by simp)]
  rw [deliver_cons, hcall, List.flatMap_cons, hpairs, statEntries_append,
    deliver_stated fun p hp => h p (List.mem_cons_of_mem _ hp)]

/-- A last piece that is empty delivers nothing. -/
theorem deliver_concat_nil (pieces : List Bytes) : ∀ b : Batcher,
    deliver int lower path b (pieces ++ [[]]) = deliver int lower path b pieces := by
  induction pieces with
  | nil =>
    rintro ⟨_ | _, _ | _⟩ <;> rfl
  | cons piece pieces ih =>
    intro b
    rw [List.cons_append, deliver_cons, deliver_cons, ih]

theorem deliver_handed (b : Batcher) (pieces : List Bytes) :
    deliver int lower path b (handed pieces) = deliver int lower path b pieces := by
  rw [handed]
  split_ifs with hlast
  · obtain ⟨init, rfl⟩ := List.getLast?_eq_some_iff.mp hlast
    rw [List.dropLast_concat, deliver_concat_nil]
  · rfl

/-! ## The two readings -/

/-- The first instalment of a listing with stat lines is empty. -/
def Listing.StartsEmpty : Listing → Prop
  | .plain _ => False
  | .stated instalments => instalments.head? = some []

/-- The dot, as a line, is the byte alone. -/
theorem eq_dot_of_decode {line : Bytes} (h : decodeReplace line = ['.']) : line = [0x2E] := by
  refine eq_singleton_of_decodeReplace_eq (b := 0x2E) (by decide) ?_ h
  rintro (hwide | hzero)
  · exact absurd hwide (by decide)
  · exact absurd hzero (by decide)

theorem flatMap_readLines_pieces (ending : Ending) {instalments : List (List Bytes)}
    (h : ∀ line ∈ instalments.flatten, IsLine line) :
    (pieces ending instalments).flatMap readLines = instalments.flatten.map decodeReplace := by
  rw [List.flatMap_def, map_readLines_pieces ending h, List.map_flatten]

/-- Read as names, the pieces are the listing of all the lines. -/
theorem batches_plain (withStat : Bool) (ending : Ending) {instalments : List (List Bytes)}
    (h : ∀ line ∈ instalments.flatten, IsLine line)
    (hdot : ∀ piece, (pieces ending instalments).head? = some piece →
      withStat = true → dotLine.isPrefixOf piece = false) :
    batches int lower path withStat (pieces ending instalments) =
      plainEntries path (instalments.flatten.map decodeReplace) := by
  rw [batches, deliver_handed, deliver_first_plain withStat _ hdot,
    flatMap_readLines_pieces ending h]

/-- A listing of names is the same, read whole and piece by piece. -/
theorem batches_eq_plain (withStat : Bool) (ending : Ending) {instalments : List (List Bytes)}
    (hwf : (Listing.plain instalments).WellFormed) :
    batches int lower path withStat (pieces ending instalments) =
      parseDirlist int lower (pieces ending instalments).flatten path withStat := by
  have hline : ∀ line ∈ instalments.flatten, IsLine line := hwf.lines
  have hname : ∀ line ∈ instalments.flatten, decodeReplace line ≠ ['.'] :=
    fun line hl hdot => hwf.dotted line hl (eq_dot_of_decode hdot)
  have hwhole : parseDirlist int lower (pieces ending instalments).flatten path withStat =
      plainEntries path (instalments.flatten.map decodeReplace) := by
    rw [parseDirlist, readLines_pieces ending hline]
    refine if_pos (.inr fun hhead => ?_)
    rw [List.head?_map] at hhead
    obtain ⟨line, hl, hdot⟩ := Option.map_eq_some_iff.mp hhead
    exact hname line (List.mem_of_mem_head? hl) hdot
  rw [hwhole]
  refine batches_plain withStat ending hline fun piece hpiece _ => ?_
  by_contra hdot
  rw [Bool.not_eq_false] at hdot
  obtain ⟨lines, hlines⟩ := readLines_of_dotted hdot
  have hfirst := congrArg List.head? (map_readLines_pieces ending hline)
  rw [List.head?_map, hpiece, List.head?_map] at hfirst
  obtain ⟨first, hinst, hdecode⟩ := Option.map_eq_some_iff.mp hfirst.symm
  have hmem : ['.'] ∈ first.map decodeReplace := by
    rw [hdecode, hlines]
    exact List.mem_cons_self
  obtain ⟨line, hl, hline'⟩ := List.mem_map.mp hmem
  exact hname line (List.mem_flatten_of_mem (List.mem_of_mem_head? hinst) hl) hline'

/-- The lines of an entry, decoded. -/
theorem map_decode_pairs (entries : List (Bytes × Bytes)) :
    (entries.flatMap fun entry => [entry.1, entry.2]).map decodeReplace =
      (entries.map fun entry => (decodeReplace entry.1, decodeReplace entry.2)).flatMap
        fun pair => [pair.1, pair.2] := by
  induction entries with
  | nil => rfl
  | cons entry entries ih =>
    rw [List.flatMap_cons, List.map_append, ih]
    rfl

/-- A first instalment that has the dot entry begins with it as sent. -/
theorem dotted_first (ending : Ending) {stat : Bytes} {lines : List Bytes}
    {more : List (List Bytes)} {piece : Bytes}
    (h : (pieces ending (([0x2E] :: stat :: lines) :: more)).head? = some piece) :
    dotLine.isPrefixOf piece = true := by
  have hencode : encode ([0x2E] :: stat :: lines) = dotLine ++ encode (stat :: lines) := rfl
  have hne : encode (stat :: lines) ≠ [] := by
    simp [encode]
  refine List.isPrefixOf_iff_prefix.mpr ?_
  cases more with
  | nil =>
    rw [pieces, List.head?_cons, Option.some.injEq, Ending.close, hencode] at h
    rw [← h]
    rcases ending.newline with _ | _
    · rw [if_neg Bool.false_ne_true, List.dropLast_append_of_ne_nil hne, List.append_assoc]
      exact List.prefix_append _ _
    · rw [if_pos rfl, List.append_assoc]
      exact List.prefix_append _ _
  | cons next more =>
    rw [pieces, List.head?_cons, Option.some.injEq, hencode] at h
    · rw [← h]
      exact List.prefix_append _ _
    · exact nofun

/-- The instalments of a listing with stat lines, read whole. -/
theorem parseDirlist_stated (ending : Ending) {instalments : List (List (Bytes × Bytes))}
    (hwf : (Listing.stated instalments).WellFormed) :
    parseDirlist int lower (pieces ending (Listing.stated instalments).lines).flatten path true =
      statEntries int lower path
        ((Listing.stated instalments).lines.flatten.map decodeReplace) := by
  rw [parseDirlist, readLines_pieces ending hwf.lines, parseLines, if_neg]
  have hlines : (Listing.stated instalments).lines.flatten =
      instalments.flatten.flatMap fun entry => [entry.1, entry.2] := by
    rw [Listing.lines, List.flatMap_def, List.map_flatten, List.flatten_flatten, List.map_map]
    rfl
  have hdotted : (instalments.flatten.map Prod.fst).head? = some [0x2E] := hwf.dotted
  rw [hlines]
  rcases hfirst : instalments.flatten with _ | ⟨entry, entries⟩
  · rw [hfirst] at hdotted
    exact nomatch hdotted
  · rw [hfirst, List.map_cons, List.head?_cons, Option.some.injEq] at hdotted
    rw [List.flatMap_cons, hdotted]
    rintro (hfalse | hhead)
    · exact nomatch hfalse
    · exact hhead rfl

/-- With its dot entry in the first instalment, a listing with stat lines is the same, read
whole and piece by piece. -/
theorem batches_eq_stated (ending : Ending) {instalments : List (List (Bytes × Bytes))}
    (hwf : (Listing.stated instalments).WellFormed)
    (hfull : ¬(Listing.stated instalments).StartsEmpty) :
    batches int lower path true (pieces ending (Listing.stated instalments).lines) =
      parseDirlist int lower (pieces ending (Listing.stated instalments).lines).flatten path
        true := by
  have hdotted : (instalments.flatten.map Prod.fst).head? = some [0x2E] := hwf.dotted
  obtain ⟨stat, entries, more, rfl⟩ : ∃ stat entries more,
      instalments = (([0x2E], stat) :: entries) :: more := by
    rcases instalments with _ | ⟨_ | ⟨⟨name, stat⟩, entries⟩, more⟩
    · exact nomatch hdotted
    · exact absurd rfl hfull
    · have hname : name = [0x2E] := Option.some.inj hdotted
      exact ⟨stat, entries, more, by rw [hname]⟩
  rw [parseDirlist_stated ending hwf, batches, deliver_handed,
    ← flatMap_readLines_pieces ending hwf.lines]
  have hpairs : ∀ piece ∈ pieces ending (Listing.stated ((([0x2E], stat) :: entries) :: more)).lines,
      ∃ pairs : List (Text × Text),
        readLines piece = pairs.flatMap fun pair => [pair.1, pair.2] := by
    intro piece hpiece
    have hmem := List.mem_map_of_mem (f := readLines) hpiece
    rw [map_readLines_pieces ending hwf.lines] at hmem
    obtain ⟨lines, hlines, hread⟩ := List.mem_map.mp hmem
    obtain ⟨instalment, _, rfl⟩ := List.mem_map.mp hlines
    exact ⟨_, hread.symm.trans (map_decode_pairs instalment)⟩
  rcases hsent : pieces ending (Listing.stated ((([0x2E], stat) :: entries) :: more)).lines with
    _ | ⟨piece, rest⟩
  · rfl
  · rw [hsent] at hpairs
    have hfirst : dotLine.isPrefixOf piece = true :=
      @dotted_first ending stat (entries.flatMap fun entry : Bytes × Bytes => [entry.1, entry.2])
        (Listing.stated more).lines piece (congrArg List.head? hsent)
    exact deliver_first_stated hfirst hpairs

/-- With an empty first instalment, every line of it is read as a name. -/
theorem batches_startsEmpty (ending : Ending) {instalments : List (List (Bytes × Bytes))}
    (hwf : (Listing.stated instalments).WellFormed)
    (hempty : (Listing.stated instalments).StartsEmpty) :
    batches int lower path true (pieces ending (Listing.stated instalments).lines) =
      plainEntries path ((Listing.stated instalments).lines.flatten.map decodeReplace) := by
  refine batches_plain true ending hwf.lines fun piece hpiece _ => ?_
  have hdotted : (instalments.flatten.map Prod.fst).head? = some [0x2E] := hwf.dotted
  rcases instalments with _ | ⟨first, _ | ⟨next, more⟩⟩
  · exact nomatch hdotted
  · cases hempty
    exact nomatch hdotted
  · cases hempty
    cases hpiece
    rfl

/-- The batches of a listing, joined, are the listing that is returned, exactly if no stat
lines were asked for, or there are none, or the first instalment has an entry. -/
theorem batches_eq_iff (int : Text → Option Int) (lower : Text → Text) (path : Text)
    (withStat : Bool) (listing : Listing) (ending : Ending) (hwf : listing.WellFormed)
    {entries : List DirEntry}
    (hwhole : parseDirlist int lower (pieces ending listing.lines).flatten path withStat =
      .ok entries) :
    batches int lower path withStat (pieces ending listing.lines) = .ok entries ↔
      ¬(withStat = true ∧ listing.StartsEmpty) := by
  rcases listing with instalments | instalments
  · refine iff_of_true ?_ fun h => h.2
    rw [← hwhole]
    exact batches_eq_plain withStat ending hwf
  · rcases withStat with _ | _
    · refine iff_of_true ?_ fun h => nomatch h.1
      rw [batches_plain false ending hwf.lines (fun _ _ h => nomatch h), ← hwhole, parseDirlist,
        readLines_pieces ending hwf.lines, parseLines, if_pos (.inl rfl)]
    · by_cases hempty : (Listing.stated instalments).StartsEmpty
      · refine iff_of_false (fun hsame => ?_) fun h => h ⟨rfl, hempty⟩
        -- among the names is the dot, which no listing with stat lines has
        rw [batches_startsEmpty ending hwf hempty] at hsame
        rw [parseDirlist_stated ending hwf] at hwhole
        have hnames := plainEntries_names _ hsame
        have hnone := statEntries_names _ hwhole
        rw [hnames] at hnone
        have hdotted : (instalments.flatten.map Prod.fst).head? = some [0x2E] := hwf.dotted
        obtain ⟨entry, hentry, hname⟩ := Option.map_eq_some_iff.mp (List.head?_map ▸ hdotted)
        obtain ⟨instalment, hinst, hmem⟩ := List.mem_flatten.mp (List.mem_of_mem_head? hentry)
        refine hnone (List.mem_map.mpr ⟨[0x2E], ?_, rfl⟩)
        refine List.mem_flatten.mpr ⟨_, List.mem_map_of_mem hinst, ?_⟩
        exact List.mem_flatMap.mpr ⟨entry, hmem, by simp [hname]⟩
      · refine iff_of_true ?_ fun h => hempty h.2
        rw [← hwhole]
        exact batches_eq_stated ending hwf hempty

/-- A directory with one file, listed with stat lines, in two instalments. -/
def oneFile : Listing :=
  .stated [[([0x2E], [0x30])], [([0x61], [0x31, 0x20, 0x31, 0x20, 0x31, 0x20, 0x31])]]

/-- The same listing after an empty instalment. -/
def oneFileLate : Listing :=
  .stated [[], [([0x2E], [0x30]), ([0x61], [0x31, 0x20, 0x31, 0x20, 0x31, 0x20, 0x31])]]

/-- The one number that is in it. -/
def one (text : Text) : Option Int := if text = ['1'] then some 1 else none

/-- The entry of the file. -/
def oneEntry : DirEntry :=
  { name := ['a']
    parent := ['/']
    stat := some
      { id := ['1'], size := 1, flags := 1, mtime := 1, ctime := 1, atime := 1,
        path := ['/', 'a'], mode := [], owner := [], group := [] }
    checksum := none }

theorem batches_eq_iff_oneFile : oneFile.WellFormed ∧
    parseDirlist one id (pieces { newline := false, rest := some [] } oneFile.lines).flatten
      ['/'] true = .ok [oneEntry] ∧
    (batches one id ['/'] true (pieces { newline := false, rest := some [] } oneFile.lines) =
        .ok [oneEntry] ↔ ¬(true = true ∧ oneFile.StartsEmpty)) := by
  have hwf : oneFile.WellFormed := ⟨by decide, rfl⟩
  have hwhole : parseDirlist one id
      (pieces { newline := false, rest := some [] } oneFile.lines).flatten ['/'] true =
        .ok [oneEntry] := rfl
  exact ⟨hwf, hwhole, batches_eq_iff one id ['/'] true oneFile _ hwf hwhole⟩

/-- After an empty instalment the dot and the stat lines are delivered as names. -/
theorem emptyFirst_misread : oneFileLate.WellFormed ∧
    parseDirlist one id (pieces { newline := false, rest := some [] } oneFileLate.lines).flatten
      ['/'] true = .ok [oneEntry] ∧
    (batches one id ['/'] true
      (pieces { newline := false, rest := some [] } oneFileLate.lines)).map
        (·.map DirEntry.name) = .ok [['.'], ['0'], ['a'], "1 1 1 1".toList] ∧
    batches one id ['/'] true (pieces { newline := false, rest := some [] } oneFileLate.lines) ≠
      .ok [oneEntry] := by
  have hbatches : (batches one id ['/'] true
      (pieces { newline := false, rest := some [] } oneFileLate.lines)).map
        (·.map DirEntry.name) = .ok [['.'], ['0'], ['a'], "1 1 1 1".toList] := rfl
  refine ⟨⟨by decide, rfl⟩, rfl, hbatches, fun hsame => ?_⟩
  rw [hsame] at hbatches
  exact absurd (Except.ok.inj hbatches) (by decide)

end XrdClient.Client.Batches
