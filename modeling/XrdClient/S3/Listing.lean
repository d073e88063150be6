/-
  S3/Listing.lean --- `ListObjectsV2`, one page after another.

  A page says whether the listing goes on, and with which token.  Its decoding and the
  naming of its items are another package's, so a page is what they make of it.  The token
  is the loop's only state besides what it has collected; an absent one reads as the empty
  token, which is the one that asks for the first page.

  `Chain` is the way through the pages that the server lays down.  The listing follows it
  to its end and stops there, unless the end is a page that claims to go on without saying
  where: then it starts again from the first page, and never stops.
-/
import Mathlib
import XrdClient.S3.Multipart

set_option autoImplicit false

namespace XrdClient.S3.Listing

open XrdClient.Lib XrdClient.S3

/-! ## Entries -/

/-- An object's listing record; absent fields read as they do in `_entry`. -/
structure Item where
  key : Text
  etag : Text
  size : Nat
  modified : Nat
  deriving DecidableEq

/-- `StatInfo`, the fields that a listing fills. -/
structure StatInfo where
  id : Text
  size : Nat
  flags : Nat
  mtime : Nat
  path : Text
  deriving DecidableEq

/-- `DirEntry` -/
structure DirEntry where
  name : Text
  parent : Text
  stat : StatInfo
  checksum : Option (Text × Text)
  deriving DecidableEq

/-- `StatInfoFlags.IS_DIR`, `IS_READABLE` and `IS_WRITABLE`. -/
def isDir : Nat := 2

def isReadable : Nat := 16

def isWritable : Nat := 32

/-- `_is_md5` -/
def isMd5 (value : Text) : Bool :=
  value.length = 32 && value.all fun c => "0123456789abcdef".toList.contains c.toLower

/-- `str.rstrip('/')` -/
def rstripSlash (text : Text) : Text := (text.reverse.dropWhile (· = '/')).reverse

/-- `_entry` -/
def entry (name : Text) (item : Option Item) (parent algorithm : Text) : DirEntry :=
  let tag := etag ((item.map Item.etag).getD [])
  { name := name
    parent := parent
    stat :=
      { id := tag
        size := (item.map Item.size).getD 0
        flags := isReadable ||| (if item.isNone then isDir else isWritable)
        mtime := (item.map Item.modified).getD 0
        path :=
          match item with
          | some info => '/' :: info.key
          | none => rstripSlash parent ++ '/' :: name }
    checksum := if algorithm ≠ [] && isMd5 tag then some ("md5".toList, tag) else none }

/-! ## Pages -/

/-- One answer, decoded: `listing_items` of it for the prefix asked, `IsTruncated`, and
`NextContinuationToken` if it is there. -/
structure Page where
  items : List (Text × Option Item)
  isTruncated : Bool
  nextContinuationToken : Option Text

/-- The query of one page. -/
structure Params where
  delimiter : Text
  pfx : Text
  continuationToken : Option Text
  deriving DecidableEq

/-- `_list_params` -/
def listParams (pfx token : Text) : Params :=
  { delimiter := ['/'], pfx := pfx, continuationToken := if token = [] then none else some token }

/-- The listing as it stands: whether it has returned, the entries collected, and the
pages asked for. -/
structure Listed where
  returned : Bool
  entries : List DirEntry
  asked : List Params

/-- `listing.get("NextContinuationToken", "")` -/
def Page.token (page : Page) : Text := page.nextContinuationToken.getD []

/-- The entries of one page. -/
def Page.entries (page : Page) (here algorithm : Text) : List DirEntry :=
  page.items.map fun (name, item) => entry name item here algorithm

variable (server : Params → Page) (pfx here algorithm : Text)

/-- The `while True` of `scandir`, for at most `fuel` pages. -/
def loop : Nat → Text → List DirEntry → List Params → Listed
  | 0, _, entries, asked => { returned := false, entries := entries, asked := asked }
  | fuel + 1, token, entries, asked =>
    let page := server (listParams pfx token)
    let entries := entries ++ page.entries here algorithm
    let asked := asked ++ [listParams pfx token]
    if page.isTruncated then loop fuel page.token entries asked
    else { returned := true, entries := entries, asked := asked }

/-- The prefix that the names in the directory `key` share. -/
def prefixOf (key : Text) : Text := if key = [] then [] else key ++ ['/']

/-- `scandir` of the key `key`; `none` is the refusal of an algorithm other than `md5`. -/
def scandir (fuel : Nat) (key : Text) : Option Listed :=
  if algorithm ≠ [] ∧ algorithm.map Char.toLower ≠ "md5".toList then none
  else
    some (loop server (prefixOf key) ('/' :: rstripSlash (prefixOf key)) algorithm fuel [] [] [])

/-- The page a token asks for. -/
def pageAt (token : Text) : Page := server (listParams pfx token)

/-- The tokens of the pages from one on, as the server chains them.  The chain ends with a
page that is not truncated, or with one that is and has no token to go on with. -/
inductive Chain : Text → List Text → Prop where
  | last {token : Text} (h : (pageAt server pfx token).isTruncated = false) : Chain token [token]
  | torn {token : Text} (h : (pageAt server pfx token).isTruncated = true)
      (hnone : (pageAt server pfx token).token = []) : Chain token [token]
  | next {token : Text} {tokens : List Text}
      (h : (pageAt server pfx token).isTruncated = true)
      (hsome : (pageAt server pfx token).token ≠ [])
      (hrest : Chain (pageAt server pfx token).token tokens) : Chain token (token :: tokens)

/-- A listing that has returned has asked for every page of the chain once, in order, and
has its entries, each once and in order. -/
def Exact (tokens : List Text) (listed : Listed) : Prop :=
  listed.returned = true ∧
    listed.asked = tokens.map (listParams pfx) ∧ listed.asked.Nodup ∧
    listed.entries = tokens.flatMap fun token => (pageAt server pfx token).entries here algorithm

/-- Every page of the chain that is marked truncated has a token. -/
def Continued (tokens : List Text) : Prop :=
  ∀ token ∈ tokens, (pageAt server pfx token).isTruncated = true →
    (pageAt server pfx token).token ≠ []

variable {server pfx here algorithm} {token : Text} {tokens : List Text}

theorem listParams_injective {a b : Text} (h : listParams pfx a = listParams pfx b) : a = b := by
  have htoken : (if a = [] then none else some a) = if b = [] then none else some b :=
    congrArg Params.continuationToken h
  split_ifs at htoken with ha hb hb
  · rw [ha, hb]
  · exact Option.some.inj htoken

/-! ## The chain -/

/-- There is one way through the pages. -/
theorem Chain.unique (h : Chain server pfx token tokens) :
    ∀ {tokens' : List Text}, Chain server pfx token tokens' → tokens = tokens' := by
  induction h with
  | last h =>
    intro tokens' h'
    cases h' with
    | last => rfl
    | torn => rfl
    | next h' => exact absurd (h.symm.trans h') Bool.false_ne_true
  | torn h hnone =>
    intro tokens' h'
    cases h' with
    | last => rfl
    | torn => rfl
    | next _ hsome => exact absurd hnone hsome
  | next h hsome hrest ih =>
    intro tokens' h'
    cases h' with
    | last h' => exact absurd (h'.symm.trans h) Bool.false_ne_true
    | torn _ hnone => exact absurd hnone hsome
    | next _ _ hrest' => rw [ih hrest']

/-- From every page of a chain the rest of it is a chain. -/
theorem Chain.suffix (h : Chain server pfx token tokens) :
    ∀ {other : Text}, other ∈ tokens →
      ∃ rest, Chain server pfx other rest ∧ rest.length ≤ tokens.length := by
  induction h with
  | last h =>
    intro other hmem
    rw [List.mem_singleton.mp hmem]
    exact ⟨_, .last h, Nat.le_refl _⟩
  | torn h hnone =>
    intro other hmem
    rw [List.mem_singleton.mp hmem]
    exact ⟨_, .torn h hnone, Nat.le_refl _⟩
  | next h hsome hrest ih =>
    intro other hmem
    rcases List.mem_cons.mp hmem with rfl | hmem
    · exact ⟨_, .next h hsome hrest, Nat.le_refl _⟩
    · obtain ⟨rest, hchain, hlen⟩ := ih hmem
      exact ⟨rest, hchain, Nat.le_succ_of_le hlen⟩

/-- A finite chain comes to no page twice: it would have to be longer than itself. -/
theorem Chain.nodup (h : Chain server pfx token tokens) : tokens.Nodup := by
  induction h with
  | last h => exact by simp
  | torn h hnone => exact by simp
  | @next token tokens h hsome hrest ih =>
    refine List.nodup_cons.mpr ⟨fun hmem => ?_, ih⟩
    obtain ⟨rest, hchain, hlen⟩ := hrest.suffix hmem
    have hsame := hchain.unique (.next h hsome hrest)
    rw [hsame, List.length_cons] at hlen
    omega

theorem Continued.tail {first : Text} (hcontinued : Continued server pfx (first :: tokens)) :
    Continued server pfx tokens :=
  fun other hmem => hcontinued other (List.mem_cons_of_mem _ hmem)

/-! ## The listing -/

/-- Along a chain that is continued to its end the listing follows it, page by page, and
returns with the last. -/
theorem loop_continued (h : Chain server pfx token tokens) :
    Continued server pfx tokens →
    ∀ (fuel : Nat) (entries : List DirEntry) (asked : List Params),
      loop server pfx here algorithm fuel token entries asked =
        { returned := decide (tokens.length ≤ fuel)
          entries := entries ++
            (tokens.take fuel).flatMap fun token => (pageAt server pfx token).entries here algorithm
          asked := asked ++ (tokens.take fuel).map (listParams pfx) } := by
  induction h with
  | @last token h =>
    intro _ fuel entries asked
    have hpage : (server (listParams pfx token)).isTruncated = false := h
    cases fuel <;> simp [loop, hpage, pageAt]
  | torn h hnone =>
    intro hcontinued
    exact absurd hnone (hcontinued _ List.mem_cons_self h)
  | @next token tokens h hsome hrest ih =>
    intro hcontinued fuel entries asked
    have hpage : (server (listParams pfx token)).isTruncated = true := h
    cases fuel with
    | zero => simp [loop]
    | succ fuel =>
      have hnext := ih hcontinued.tail fuel
        (entries ++ (pageAt server pfx token).entries here algorithm)
        (asked ++ [listParams pfx token])
      rw [loop]
      simp only [hpage, if_true]
      rw [show (server (listParams pfx token)) = pageAt server pfx token from rfl, hnext]
      simp

/-- A chain from `token` on that is torn at its end. -/
def Torn (server : Params → Page) (pfx token : Text) : Prop :=
  ∃ tokens, Chain server pfx token tokens ∧ ¬Continued server pfx tokens

/-- If the chain is torn, a page of it leads to the next, and its last to the first. -/
theorem Torn.step (hstart : Torn server pfx []) (h : Torn server pfx token) :
    (pageAt server pfx token).isTruncated = true ∧
      Torn server pfx (pageAt server pfx token).token := by
  obtain ⟨tokens, hchain, htorn⟩ := h
  cases hchain with
  | last h =>
    refine absurd (fun other hmem htrunc => ?_) htorn
    rw [List.mem_singleton.mp hmem, h] at htrunc
    exact absurd htrunc Bool.false_ne_true
  | torn h hnone =>
    rw [hnone]
    exact ⟨h, hstart⟩
  | @next _ rest h hsome hrest =>
    refine ⟨h, rest, hrest, fun hcontinued => htorn fun other hmem htrunc => ?_⟩
    rcases List.mem_cons.mp hmem with rfl | hmem
    · exact hsome
    · exact hcontinued other hmem htrunc

/-- Along a torn chain the listing never returns. -/
theorem loop_torn (hstart : Torn server pfx []) : ∀ (fuel : Nat) (token : Text)
    (entries : List DirEntry) (asked : List Params), Torn server pfx token →
    (loop server pfx here algorithm fuel token entries asked).returned = false := by
  intro fuel
  induction fuel with
  | zero => exact fun _ _ _ _ => rfl
  | succ fuel ih =>
    intro token entries asked h
    obtain ⟨htrunc, hnext⟩ := Torn.step hstart h
    have hpage : (server (listParams pfx token)).isTruncated = true := htrunc
    rw [loop]
    simp only [hpage, if_true]
    exact ih _ _ _ hnext

/-- A listing that ends: it comes to return, exactly, and at no point has it asked for a
page twice, the first one included. -/
structure Ends (server : Params → Page) (algorithm key : Text) (tokens : List Text) : Prop where
  returns : ∃ fuel listed, scandir server algorithm fuel key = some listed ∧
    Exact server (prefixOf key) ('/' :: rstripSlash (prefixOf key)) algorithm tokens listed
  once : ∀ fuel listed, scandir server algorithm fuel key = some listed → listed.asked.Nodup

/-- With a finite chain of tokens the listing ends exactly if every page of the chain that
is marked truncated carries a token. -/
theorem scandir_ends_iff (server : Params → Page) (algorithm key : Text) (tokens : List Text)
    (hmd5 : algorithm = [] ∨ algorithm.map Char.toLower = "md5".toList)
    (hchain : Chain server (prefixOf key) [] tokens) :
    Ends server algorithm key tokens ↔ Continued server (prefixOf key) tokens := by
  have hasks : ∀ fuel, scandir server algorithm fuel key =
      some (loop server (prefixOf key) ('/' :: rstripSlash (prefixOf key)) algorithm fuel
        [] [] []) := by
    intro fuel
    refine if_neg fun hrefused => ?_
    rcases hmd5 with hempty | hmd5
    · exact hrefused.1 hempty
    · exact hrefused.2 hmd5
  constructor
  · intro hends
    by_contra htorn
    obtain ⟨fuel, listed, hlisted, hexact⟩ := hends.returns
    rw [hasks, Option.some.injEq] at hlisted
    have hnever := @loop_torn server (prefixOf key) ('/' :: rstripSlash (prefixOf key)) algorithm
      ⟨tokens, hchain, htorn⟩ fuel [] [] [] ⟨tokens, hchain, htorn⟩
    rw [hlisted, hexact.1] at hnever
    exact absurd hnever (by decide)
  · intro hcontinued
    have hloop := fun fuel => @loop_continued server (prefixOf key)
      ('/' :: rstripSlash (prefixOf key)) algorithm _ _ hchain hcontinued fuel [] []
    have hnodup : (tokens.map (listParams (prefixOf key))).Nodup :=
      List.Nodup.map (fun _ _ h => listParams_injective h) hchain.nodup
    refine ⟨⟨tokens.length, _, hasks _, ?_⟩, fun fuel listed hlisted => ?_⟩
    · rw [hloop]
      simp only [List.take_length, List.nil_append]
      exact ⟨decide_eq_true (Nat.le_refl _), rfl, hnodup, rfl⟩
    · rw [hasks, Option.some.injEq] at hlisted
      rw [← hlisted, hloop]
      exact hnodup.sublist ((List.take_sublist _ _).map _)

/-- A listing of two pages, the second not truncated. -/
def twoPages (params : Params) : Page :=
  if params.continuationToken = some ['t'] then
    { items := [(['b'], none)], isTruncated := false, nextContinuationToken := none }
  else { items := [(['a'], none)], isTruncated := true, nextContinuationToken := some ['t'] }

theorem twoPages_chain : Chain twoPages [] [] [[], ['t']] :=
  .next rfl (by decide) (.last rfl)

theorem scandir_ends_iff_twoPages : Chain twoPages (prefixOf []) [] [[], ['t']] ∧
    (Ends twoPages [] [] [[], ['t']] ↔ Continued twoPages (prefixOf []) [[], ['t']]) :=
  ⟨twoPages_chain, scandir_ends_iff twoPages [] [] _ (.inl rfl) twoPages_chain⟩

/-- A page that is marked truncated and says no more. -/
def tornPage (_ : Params) : Page :=
  { items := [(['a'], none)], isTruncated := true, nextContinuationToken := none }

/-- Its chain is finite, and its listing asks for it for ever. -/
theorem tornPage_never_ends : Chain tornPage (prefixOf []) [] [[]] ∧
    (∀ fuel listed, scandir tornPage [] fuel [] = some listed → listed.returned = false) ∧
    (scandir tornPage [] 2 []).map Listed.asked = some [listParams [] [], listParams [] []] ∧
    ¬Ends tornPage [] [] [[]] := by
  have hchain : Chain tornPage (prefixOf []) [] [[]] := .torn rfl rfl
  have htorn : Torn tornPage (prefixOf []) [] :=
    ⟨_, hchain, fun hcontinued => hcontinued [] List.mem_cons_self rfl rfl⟩
  have hnever : ∀ fuel listed, scandir tornPage [] fuel [] = some listed →
      listed.returned = false := by
    intro fuel listed hlisted
    have hloop := @loop_torn tornPage (prefixOf []) ('/' :: rstripSlash (prefixOf [])) []
      htorn fuel [] [] [] htorn
    rw [← Option.some.inj hlisted]
    exact hloop
  refine ⟨hchain, hnever, rfl, fun hends => ?_⟩
  obtain ⟨fuel, listed, hlisted, hexact⟩ := hends.returns
  exact absurd hexact.1 (by rw [hnever fuel listed hlisted]; exact Bool.false_ne_true)

end XrdClient.S3.Listing
