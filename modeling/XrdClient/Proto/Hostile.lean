/-
  Proto/Hostile.lean --- every decoder, on any bytes at all.

  THE QUESTION.  The receive loop catches a `ProtocolError`.  A body is whatever a server
  sent, and a decoder that meets it with an `IndexError`, or with a loop, takes the
  connection down.

  HOW IT GOES.  Each decoder has a lemma: what it returns is of pieces of the body, and what
  it raises is among what it may.  The texts are cut out of the body's text, and a cut is a
  piece; the fields are read behind a bounds check; an index is guarded by a length, and the
  lemma for it asks for the guard (`item_spec`).
-/
import XrdClient.Proto.Inside

set_option autoImplicit false

namespace XrdClient.Proto.Decoders

open XrdClient.Lib
open XrdClient.Proto.Cursor
open XrdClient.Crypto (PGW_CSE_HDRLEN)
open XrdClient.Client.Batches (StatInfo DirEntry words linesOf cksumToken joined rstrip)

variable {data : Bytes} {p : Nat}

/-! ## Control-status bodies -/

/-- A number and a text. -/
def ErrorInfo.Inside (data : Bytes) (x : ErrorInfo) : Prop :=
  SignedField data 4 x.code ∧ Spelled data x.message

theorem parseError_spec : Ends DecodeFault.IsProtocol (parseError data) (ErrorInfo.Inside data) :=
  Ends.decode (q := 0) (reads_next (reads_signed 4) fun _ hcode =>
    reads_next (reads_cstring none) fun _ hmessage => Reads.pure ⟨hcode, hmessage⟩)

structure RedirectInfo.Inside (data : Bytes) (x : RedirectInfo) : Prop where
  host : Spelled data x.host
  port : SignedField data 4 x.port
  token : Spelled data x.token

theorem parseRedirect_spec :
    Ends DecodeFault.IsProtocol (parseRedirect data) (RedirectInfo.Inside data) := by
  refine Ends.decode (q := 0) (reads_next (reads_signed 4) fun port hport => ?_)
  refine reads_next rest_spec fun raw hraw => ?_
  have htarget : Spelled data ((decodeReplace raw).takeWhile fun c => !endsTarget c) :=
    (spelled_decode hraw).piece (isInfix_takeWhile _ _)
  have hparts := isInfix_partitionAt '?' ((decodeReplace raw).takeWhile fun c => !endsTarget c)
  dsimp only
  generalize partitionAt '?' ((decodeReplace raw).takeWhile fun c => !endsTarget c) = parts at hparts
  obtain ⟨host, sep, token⟩ := parts
  refine Reads.ite (fun _ => Reads.refuse _) fun _ => Reads.pure ⟨htarget.piece hparts.1, hport, ?_⟩
  cases sep with
  | false => exact spelled_nil
  | true => exact htarget.piece ((isInfix_dropWhile _ _).trans hparts.2)

def WaitInfo.Inside (data : Bytes) (x : WaitInfo) : Prop :=
  SignedField data 4 x.seconds ∧ Spelled data x.message

theorem parseWait_spec : Ends DecodeFault.IsProtocol (parseWait data) (WaitInfo.Inside data) :=
  Ends.decode (q := 0) (reads_next (reads_signed 4) fun _ hseconds =>
    reads_next (reads_cstring none) fun _ hmessage => Reads.pure ⟨hseconds, hmessage⟩)

theorem parseWaitresp_spec : Ends DecodeFault.IsProtocol (parseWaitresp data) (WaitInfo.Inside data) :=
  Ends.decode (q := 0) (reads_next (reads_signed 4) fun _ hseconds => Reads.pure ⟨hseconds, spelled_nil⟩)

def AttnInfo.Inside (data : Bytes) (x : AttnInfo) : Prop :=
  SignedField data 4 x.action ∧ x.params <:+: data

theorem parseAttn_spec : Ends DecodeFault.IsProtocol (parseAttn data) (AttnInfo.Inside data) :=
  Ends.decode (q := 0) (reads_next (reads_signed 4) fun _ haction =>
    reads_next rest_spec fun _ hparams => Reads.pure ⟨haction, hparams⟩)

structure StatusInfo.Inside (data : Bytes) (x : StatusInfo) : Prop where
  crc32c : Field data 4 x.crc32c
  streamid : Field data 2 x.streamid
  requestid : ∃ n, Field data 1 n ∧ x.requestid = n + kXR_1stRequest
  resptype : Field data 1 x.resptype
  dlen : SignedField data 4 x.dlen
  info : x.info <:+: data

theorem parseStatus_spec : Ends DecodeFault.IsProtocol (parseStatus data) (StatusInfo.Inside data) := by
  refine Ends.decode (q := 0) (reads_next (reads_field 4) fun crc hcrc => ?_)
  refine reads_next (reads_field 2) fun streamid hstreamid => ?_
  refine reads_next (reads_field 1) fun requestid hrequestid => ?_
  refine reads_next (reads_field 1) fun resptype hresptype => ?_
  refine reads_next (reads_skip 4) fun _ _ => ?_
  refine reads_next (reads_signed 4) fun dlen hdlen => ?_
  refine reads_next rest_spec fun info hinfo => Reads.pure ?_
  exact ⟨hcrc, hstreamid, ⟨requestid, hrequestid, rfl⟩, hresptype, hdlen, hinfo⟩

theorem offsets_spec (count : Nat) :
    Reads data p p (offsets count) fun xs => ∀ x ∈ xs, SignedField data 8 x := by
  induction count with
  | zero => exact Reads.pure nofun
  | succ count ih =>
    refine reads_next (reads_signed 8) fun offset hoffset => ?_
    refine reads_next ih fun more hmore => Reads.pure ?_
    exact List.forall_mem_cons.mpr ⟨hoffset, hmore⟩

theorem parsePgwriteCse_spec : Ends DecodeFault.IsProtocol (parsePgwriteCse data) fun xs =>
    ∀ x ∈ xs, SignedField data 8 x := by
  refine Ends.ite (fun _ => Ends.raise _) fun _ => Ends.decode (q := 0) ?_
  exact reads_next (reads_skip _) fun _ _ => offsets_spec _

/-! ## Session bring-up -/

/-- A byte of a piece of the body is a number in one byte. -/
theorem field_of_mem {bs : Bytes} (hbs : bs <:+: data) {b : UInt8} (hb : b ∈ bs) :
    Field data 1 b.toNat := by
  obtain ⟨before, after, rfl⟩ := List.append_of_mem hb
  refine ⟨[b], List.IsInfix.trans ⟨before, after, by simp⟩ hbs, rfl, ?_⟩
  simp [beNat]

/-- The record of the security requirements has its six fixed bytes. -/
theorem findSecReqs_spec {trailer : Bytes} (htrailer : trailer <:+: data) :
    Ends DecodeFault.IsProtocol (findSecReqs trailer) fun reqs =>
      ∀ bs ∈ reqs, bs <:+: data ∧ 6 ≤ bs.length := by
  refine Ends.ite (fun h => Ends.ok fun bs hbs => ?_) fun _ => ?_
  · rw [← Option.some.inj hbs]
    exact ⟨htrailer, h.1⟩
  refine Ends.ite (fun _ => Ends.ok nofun) fun hlong => ?_
  refine Ends.bind (item_spec (show 2 < trailer.length by omega)) fun count _ => Ends.pure ?_
  intro bs hbs
  split at hbs
  · next h =>
    rw [← Option.some.inj hbs, List.length_drop]
    exact ⟨(isInfix_drop _ _).trans htrailer, by omega⟩
  · cases hbs

/-- A signing level of a request. -/
def IsOverride (data : Bytes) (entry : Nat × Nat) : Prop :=
  (∃ n, Field data 1 n ∧ entry.1 = n + kXR_1stRequest) ∧ Field data 1 entry.2

theorem overridesFrom_spec {reqs : Bytes} (hreqs : reqs <:+: data) (count : Nat) :
    ∀ (pos : Nat) (overrides : Assoc Nat Nat), (∀ entry ∈ overrides, IsOverride data entry) →
      Ends DecodeFault.IsProtocol (overridesFrom reqs count pos overrides) fun overrides =>
        ∀ entry ∈ overrides, IsOverride data entry := by
  induction count with
  | zero => exact fun pos overrides hoverrides => Ends.ok hoverrides
  | succ count ih =>
    intro pos overrides hoverrides
    refine Ends.ite (fun _ => Ends.ok hoverrides) fun hmore => ?_
    refine Ends.bind (item_spec (show pos + 1 < reqs.length by omega)) fun level hlevel => ?_
    refine Ends.bind (item_spec (show pos < reqs.length by omega)) fun index hindex => ?_
    refine ih (pos + 2) _ fun entry hentry => ?_
    rcases Assoc.mem_of_mem_set hentry with rfl | hentry
    · exact ⟨⟨_, field_of_mem hreqs hindex, rfl⟩, field_of_mem hreqs hlevel⟩
    · exact hoverrides entry hentry

structure ProtocolInfo.Inside (data : Bytes) (x : ProtocolInfo) : Prop where
  version : SignedField data 4 x.version
  flags : Field data 4 x.flags
  securityLevel : x.securityLevel = kXR_secNone ∨ Field data 1 x.securityLevel
  securityVersion : x.securityVersion = 0 ∨ Field data 1 x.securityVersion
  securityOptions : x.securityOptions = 0 ∨ Field data 1 x.securityOptions
  securityOverrides : ∀ entry ∈ x.securityOverrides, IsOverride data entry

theorem protocolOf_spec {version : Int} {flags : Nat} (hversion : SignedField data 4 version)
    (hflags : Field data 4 flags) {reqs : Option Bytes}
    (hreqs : ∀ bs ∈ reqs, bs <:+: data ∧ 6 ≤ bs.length) :
    Ends DecodeFault.IsProtocol (protocolOf version flags reqs) (ProtocolInfo.Inside data) := by
  cases reqs with
  | none => exact Ends.ok ⟨hversion, hflags, .inl rfl, .inl rfl, .inl rfl, nofun⟩
  | some reqs =>
    obtain ⟨hinside, hlong⟩ := hreqs reqs rfl
    refine Ends.bind (item_spec (show 2 < reqs.length by omega)) fun secver hsecver => ?_
    refine Ends.bind (item_spec (show 3 < reqs.length by omega)) fun secopt hsecopt => ?_
    refine Ends.bind (item_spec (show 4 < reqs.length by omega)) fun seclvl hseclvl => ?_
    refine Ends.bind (item_spec (show 5 < reqs.length by omega)) fun secvsz hsecvsz => ?_
    refine Ends.bind (overridesFrom_spec hinside secvsz.toNat 6 [] nofun) fun overrides hoverrides => ?_
    exact Ends.pure ⟨hversion, hflags, .inr (field_of_mem hinside hseclvl),
      .inr (field_of_mem hinside hsecver), .inr (field_of_mem hinside hsecopt), hoverrides⟩

theorem parseProtocol_spec :
    Ends DecodeFault.IsProtocol (parseProtocol data) (ProtocolInfo.Inside data) := by
  refine Ends.decode (q := 0) (reads_next (reads_signed 4) fun version hversion => ?_)
  refine reads_next (reads_field 4) fun flags hflags => ?_
  refine reads_next rest_spec fun trailer htrailer => ?_
  refine reads_next (reads_ofExcept (findSecReqs_spec htrailer)) fun reqs hreqs => ?_
  exact reads_ofExcept (protocolOf_spec hversion hflags hreqs)

def LoginInfo.Inside (data : Bytes) (x : LoginInfo) : Prop := x.sessid <:+: data ∧ Spelled data x.sec

theorem parseLogin_spec : Ends DecodeFault.IsProtocol (parseLogin data) (LoginInfo.Inside data) := by
  refine Ends.decode (q := 0) (reads_next reads_remaining fun left _ => ?_)
  refine reads_next (reads_view _) fun sessid hsessid => ?_
  exact reads_next rest_spec fun sec hsec => Reads.pure ⟨hsessid, spelled_textOf hsec⟩

theorem parseBind_spec : Ends DecodeFault.IsProtocol (parseBind data) fun pathid =>
    Field data 1 pathid ∧ pathid ≠ 0 := by
  refine Ends.decode (q := 0) (reads_next (reads_field 1) fun pathid hpathid => ?_)
  exact Reads.ite (fun _ => Reads.refuse _) fun hzero => Reads.pure ⟨hpathid, hzero⟩

/-! ## Metadata -/

section

variable (int : Text → Option Int) (lower : Text → Text) (isDigit : Text → Bool)

/-- The record of a stat line; only the path is the caller's. -/
structure StatInside (data : Bytes) (path : Text) (x : StatInfo) : Prop where
  id : Spelled data x.id
  size : Counted int data x.size
  flags : ∃ n, Counted int data n ∧ x.flags = flagWord n
  mtime : Counted int data x.mtime
  ctime : Counted int data x.ctime
  atime : Counted int data x.atime
  path : x.path = path
  mode : Spelled data x.mode
  owner : Spelled data x.owner
  group : Spelled data x.group

variable {int lower isDigit} {text path : Text}

/-- `int` raises nothing but a `ValueError`. -/
theorem toInt_spec (htext : Spelled data text) :
    Ends (fun e => e = .value ∨ e.IsProtocol) (toInt int text) (Counted int data) := by
  unfold toInt
  split
  · next n hn => exact Ends.ok ⟨text, htext, hn⟩
  · exact .inl rfl

theorem mem_words_spelled {word : Text} (htext : Spelled data text) (h : word ∈ words text) :
    Spelled data word := htext.piece (isInfix_of_mem_words h)

/-- A field of a stat line. -/
theorem fieldInt_spec (htext : Spelled data text) {i : Nat} (hi : i < (words text).length) :
    Ends (fun e => e = .value ∨ e.IsProtocol) (item (words text) i >>= toInt int) (Counted int data) :=
  Ends.bind (item_spec hi) fun _ hword => toInt_spec (mem_words_spelled htext hword)

theorem parseStatFields_spec (htext : Spelled data text) :
    Ends (fun e => e = .value ∨ e.IsProtocol) (parseStatFields int text path) (StatInside int data path) := by
  refine Ends.ite (fun hlong => ?_) fun _ => Ends.ite (fun _ => .inr trivial) fun hshort => ?_
  · -- There are five more where nine are: the slice has all of them.
    have hmem : ∀ word ∈ ((words text).drop 4).take 5, Spelled data word := fun word hword =>
      mem_words_spelled htext (List.mem_of_mem_drop (List.mem_of_mem_take hword))
    have hfive : (((words text).drop 4).take 5).length = 5 := by
      rw [List.length_take, List.length_drop]
      omega
    generalize ((words text).drop 4).take 5 = tail at hmem hfive
    match tail, hfive, hmem with
    | [ctime, atime, mode, owner, group], _, hmem =>
      refine Ends.bind (fieldInt_spec htext (by omega)) fun mtime hmtime => ?_
      refine Ends.bind (item_spec (show 0 < (words text).length by omega)) fun id hid => ?_
      refine Ends.bind (fieldInt_spec htext (by omega)) fun size hsize => ?_
      refine Ends.bind (fieldInt_spec htext (by omega)) fun flags hflags => ?_
      refine Ends.bind (toInt_spec (hmem ctime (by simp))) fun ctime hctime => ?_
      refine Ends.bind (toInt_spec (hmem atime (by simp))) fun atime hatime => Ends.pure ?_
      exact ⟨mem_words_spelled htext hid, hsize, ⟨flags, hflags, rfl⟩, hmtime, hctime, hatime, rfl,
        hmem mode (by simp), hmem owner (by simp), hmem group (by simp)⟩
  · refine Ends.bind (fieldInt_spec htext (by omega)) fun mtime hmtime => ?_
    refine Ends.bind (item_spec (show 0 < (words text).length by omega)) fun id hid => ?_
    refine Ends.bind (fieldInt_spec htext (by omega)) fun size hsize => ?_
    refine Ends.bind (fieldInt_spec htext (by omega)) fun flags hflags => Ends.pure ?_
    exact ⟨mem_words_spelled htext hid, hsize, ⟨flags, hflags, rfl⟩, hmtime, hmtime, hmtime, rfl,
      spelled_nil, spelled_nil, spelled_nil⟩

theorem statFields_spec (htext : Spelled data text) :
    Ends DecodeFault.IsProtocol (statFields int text path) (StatInside int data path) :=
  Ends.exceptValue _ (parseStatFields_spec htext)

theorem parseStat_spec :
    Ends DecodeFault.IsProtocol (parseStat int path data) (StatInside int data path) :=
  statFields_spec (spelled_textOf (List.infix_refl data))

structure VFSInfo.Inside (int : Text → Option Int) (data : Bytes) (x : VFSInfo) : Prop where
  nodesRw : Counted int data x.nodesRw
  freeRw : Counted int data x.freeRw
  utilizationRw : Counted int data x.utilizationRw
  nodesStaging : Counted int data x.nodesStaging
  freeStaging : Counted int data x.freeStaging
  utilizationStaging : Counted int data x.utilizationStaging

theorem vfsInfo_spec {numbers : List Int} (hsix : numbers.length = 6)
    (hnumbers : ∀ n ∈ numbers, Counted int data n) :
    Ends DecodeFault.IsProtocol (vfsInfo numbers) (VFSInfo.Inside int data) := by
  match numbers, hsix, hnumbers with
  | [a, b, c, d, e, f], _, h =>
    exact Ends.ok ⟨h a (by simp), h b (by simp), h c (by simp), h d (by simp), h e (by simp),
      h f (by simp)⟩

/-- A plain stat line is no fault of the protocol: it is refused as unsupported. -/
theorem parseStatvfs_spec : Ends (fun e => e.IsProtocol ∨ e = .unsupported)
    (parseStatvfs int isDigit data) (VFSInfo.Inside int data) := by
  refine Ends.ite (fun _ => .inr rfl) fun _ => Ends.ite (fun _ => .inl trivial) fun hlong => ?_
  have htext : Spelled data (textOf data) := spelled_textOf (List.infix_refl data)
  have hwords : ∀ word ∈ (words (textOf data)).take 6, Spelled data word := fun word hword =>
    mem_words_spelled htext (List.mem_of_mem_take hword)
  have hsix : ((words (textOf data)).take 6).length = 6 := by
    rw [List.length_take]
    omega
  have hnumbers : Ends _ (((words (textOf data)).take 6).mapM (toInt int)) _ :=
    Ends.mapM fun word hword => toInt_spec (hwords word hword)
  refine (Ends.bind (Ends.exceptValue _ hnumbers) fun numbers h => ?_).imp (fun e he => .inl he)
    fun _ hx => hx
  exact vfsInfo_spec (h.1.trans hsix) h.2

/-- An entry of a listing; its path is below the caller's. -/
structure EntryInside (int : Text → Option Int) (lower : Text → Text) (data : Bytes) (path : Text)
    (x : DirEntry) : Prop where
  name : Spelled data x.name
  parent : x.parent = path
  stat : ∀ stat ∈ x.stat, StatInside int data (joined path x.name) stat
  checksum : ∀ digest ∈ x.checksum, Lowered lower data digest.1 ∧ Spelled data digest.2

theorem checked_spec {name : Text} : Ends DecodeFault.IsProtocol (checked name path) (· = name) :=
  Ends.ite (fun _ => Ends.raise _) fun _ => Ends.ok rfl

theorem plainEntries_spec {names : List Text} (hnames : ∀ n ∈ names, Spelled data n) :
    Ends DecodeFault.IsProtocol (plainEntries path names) fun entries =>
      ∀ entry ∈ entries, EntryInside int lower data path entry := by
  refine (Ends.mapM fun n hn => ?_).post fun _ hentries => hentries.2
  refine Ends.bind checked_spec fun name hname => Ends.pure ?_
  subst hname
  exact ⟨hnames name hn, rfl, nofun, nofun⟩

theorem isInfix_rstrip (text : Text) : rstrip text <:+: text :=
  isInfix_reverse_of (isInfix_dropWhile _ _)

/-- The stat and the digest of a stat line are pieces of it. -/
theorem cksumToken_pieces (lower : Text → Text) (line : Text) : (cksumToken lower line).1 <:+: line ∧
    ∀ digest ∈ (cksumToken lower line).2,
      (∃ own, own <:+: line ∧ digest.1 = lower own) ∧ digest.2 <:+: line := by
  have hwhole : line <:+: line ∧ ∀ digest ∈ (none : Option (Text × Text)),
      (∃ own, own <:+: line ∧ digest.1 = lower own) ∧ digest.2 <:+: line :=
    ⟨List.infix_refl line, nofun⟩
  unfold cksumToken
  split
  · exact hwhole
  dsimp only
  split
  · exact hwhole
  -- The token stands between the last bracket and the one that closes it.
  have hrest : (line.reverse.takeWhile (· ≠ '[')).reverse <:+: line :=
    isInfix_reverse_of (isInfix_takeWhile _ _)
  generalize (line.reverse.takeWhile (· ≠ '[')).reverse = rest at hrest
  have htoken : strip ((rstrip rest).reverse.dropWhile (· = ']')).reverse <:+: line :=
    (isInfix_strip _).trans ((isInfix_reverse_of (isInfix_dropWhile _ _)).trans
      ((isInfix_rstrip rest).trans hrest))
  have hparts := isInfix_partitionAt ':' (strip ((rstrip rest).reverse.dropWhile (· = ']')).reverse)
  generalize partitionAt ':' (strip ((rstrip rest).reverse.dropWhile (· = ']')).reverse) = parts at hparts
  obtain ⟨algorithm, colon, value⟩ := parts
  dsimp only
  split
  · exact hwhole
  refine ⟨isInfix_take _ _, fun digest hdigest => ?_⟩
  split at hdigest
  · cases hdigest
  · rw [← Option.some.inj hdigest]
    exact ⟨⟨algorithm, hparts.1.trans htoken, rfl⟩, hparts.2.trans htoken⟩

theorem statEntry_spec {name statline : Text} (hname : Spelled data name)
    (hline : Spelled data statline) : Ends DecodeFault.IsProtocol
      (statEntry int lower path name statline) (EntryInside int lower data path) := by
  obtain ⟨hstat, hdigest⟩ := cksumToken_pieces lower statline
  refine Ends.bind checked_spec fun _ _ => ?_
  refine Ends.bind (statFields_spec (hline.piece hstat)) fun stat hinside => Ends.pure ?_
  refine ⟨hname, rfl, fun own hown => ?_, fun digest hmem => ?_⟩
  · rwa [← Option.some.inj hown]
  · obtain ⟨⟨own, hown, heq⟩, hvalue⟩ := hdigest digest hmem
    exact ⟨⟨own, hline.piece hown, heq⟩, hline.piece hvalue⟩

theorem mem_pairs {lines : List Text} {pair : Text × Text} (h : pair ∈ pairs lines) :
    pair.1 ∈ lines ∧ pair.2 ∈ lines := by
  induction lines using pairs.induct with
  | case1 name statline lines ih =>
    rcases List.mem_cons.mp h with rfl | h
    · simp
    · exact ⟨List.mem_cons_of_mem _ (List.mem_cons_of_mem _ (ih h).1),
        List.mem_cons_of_mem _ (List.mem_cons_of_mem _ (ih h).2)⟩
  | case2 lines hshort =>
    rw [pairs] at h
    · cases h
    · exact hshort

theorem statEntries_spec {lines : List (Text × Text)}
    (hlines : ∀ pair ∈ lines, Spelled data pair.1 ∧ Spelled data pair.2) :
    Ends DecodeFault.IsProtocol (statEntries int lower path lines) fun entries =>
      ∀ entry ∈ entries, EntryInside int lower data path entry := by
  induction lines with
  | nil => exact Ends.ok nofun
  | cons pair more ih =>
    obtain ⟨⟨hname, hline⟩, hmore⟩ := List.forall_mem_cons.mp hlines
    refine Ends.ite (fun _ => ih hmore) fun _ => ?_
    refine Ends.bind (statEntry_spec hname hline) fun entry hentry => ?_
    refine Ends.bind (ih hmore) fun entries hentries => Ends.pure ?_
    exact List.forall_mem_cons.mpr ⟨hentry, hentries⟩

theorem parseDirlist_spec {withStat : Bool} : Ends DecodeFault.IsProtocol
    (parseDirlist int lower path withStat data) fun entries =>
      ∀ entry ∈ entries, EntryInside int lower data path entry := by
  have hlines : ∀ line ∈ linesOf (textOf data), Spelled data line := fun line hline =>
    (spelled_textOf (List.infix_refl data)).piece (isInfix_of_mem_linesOf hline)
  refine Ends.ite (fun _ => plainEntries_spec hlines) fun _ => statEntries_spec fun pair hpair => ?_
  exact ⟨hlines pair.1 (mem_pairs hpair).1, hlines pair.2 (mem_pairs hpair).2⟩

theorem openStat_spec (htext : Spelled data text) : Ends DecodeFault.IsProtocol
    (openStat int path text) fun stat => ∀ x ∈ stat, StatInside int data path x := by
  refine Ends.ite (fun _ => Ends.ok nofun) fun _ => ?_
  refine Ends.bind (statFields_spec htext) fun stat hstat => Ends.pure fun x hx => ?_
  rwa [← Option.some.inj hx]

/-- The handle, the stat, and the compression, which there may be none of. -/
def OpenInside (int : Text → Option Int) (data : Bytes) (path : Text)
    (x : Bytes × Option StatInfo × Int × Text) : Prop :=
  x.1 <:+: data ∧ (∀ stat ∈ x.2.1, StatInside int data path stat) ∧
    (x.2.2.1 = 0 ∨ SignedField data 4 x.2.2.1) ∧ Spelled data x.2.2.2

theorem parseOpen_spec :
    Ends DecodeFault.IsProtocol (parseOpen int path data) (OpenInside int data path) := by
  refine Ends.decode (q := 0) (reads_next (reads_view _) fun fhandle hfhandle => ?_)
  refine reads_next reads_remaining fun left _ => ?_
  refine Reads.ite (fun _ => Reads.pure ⟨hfhandle, nofun, .inl rfl, spelled_nil⟩) fun _ => ?_
  refine reads_next (reads_signed 4) fun page hpage => ?_
  refine reads_next (reads_view 4) fun algorithm halgorithm => ?_
  refine reads_next rest_spec fun tail htail => ?_
  have hline : Spelled data (strip (textOf tail)) := (spelled_textOf htail).piece (isInfix_strip _)
  refine reads_next (reads_ofExcept (openStat_spec hline)) fun stat hstat => Reads.pure ?_
  exact ⟨hfhandle, hstat, .inr hpage, spelled_textOf halgorithm⟩

theorem parseChecksum_spec : Ends DecodeFault.IsProtocol (parseChecksum lower data) fun x =>
    Lowered lower data x.1 ∧ Lowered lower data x.2 := by
  have htext : Spelled data (strip (textOf data)) :=
    (spelled_textOf (List.infix_refl data)).piece (isInfix_strip _)
  have hparts := isInfix_partitionAt ' ' (strip (textOf data))
  unfold parseChecksum
  dsimp only
  generalize partitionAt ' ' (strip (textOf data)) = parts at hparts
  obtain ⟨name, sep, value⟩ := parts
  refine Ends.ite (fun _ => Ends.raise _) fun _ => Ends.ok ⟨⟨name, htext.piece hparts.1, rfl⟩, ?_⟩
  exact ⟨strip value, htext.piece ((isInfix_strip _).trans hparts.2), rfl⟩

/-- Fields that are added to some, each cut at its equals sign. -/
theorem foldl_fields (parts : List Text) (fields : Assoc Text Text) (hparts : ∀ part ∈ parts, Spelled data part)
    (hfields : ∀ entry ∈ fields, Spelled data entry.1 ∧ Spelled data entry.2) :
    ∀ entry ∈ parts.foldl (fun fields pair =>
      let (key, sep, value) := partitionAt '=' pair
      if sep then fields.set (strip key) (strip value) else fields) fields,
      Spelled data entry.1 ∧ Spelled data entry.2 := by
  induction parts generalizing fields with
  | nil => exact hfields
  | cons pair parts ih =>
    refine ih _ (fun part hpart => hparts part (List.mem_cons_of_mem _ hpart)) fun entry hentry => ?_
    have hpair := hparts pair List.mem_cons_self
    have hpieces := isInfix_partitionAt '=' pair
    dsimp only at hentry
    generalize partitionAt '=' pair = pieces at hpieces hentry
    obtain ⟨key, sep, value⟩ := pieces
    dsimp only at hentry
    split at hentry
    · rcases Assoc.mem_of_mem_set hentry with rfl | hentry
      · exact ⟨hpair.piece ((isInfix_strip _).trans hpieces.1),
          hpair.piece ((isInfix_strip _).trans hpieces.2)⟩
      · exact hfields entry hentry
    · exact hfields entry hentry

/-- A field of a `kXR_Qspace` reply is in it: a newline is read as a separator, and no part
has one. -/
theorem spaceFields_spelled (htext : Spelled data text) :
    ∀ entry ∈ spaceFields text, Spelled data entry.1 ∧ Spelled data entry.2 := by
  have hparts : ∀ part ∈ (text.map fun c => if c = '\n' then '&' else c).splitOn '&', Spelled data part := by
    intro part hpart
    refine htext.piece (isInfix_of_map (isInfix_of_mem_splitOn hpart) (Posix.not_mem_of_mem_splitOn hpart) ?_)
    intro c
    split
    · exact .inl rfl
    · exact .inr rfl
  exact foldl_fields _ [] hparts fun _ hentry => by cases hentry

theorem number_spec {fields : Assoc Text Text} (hfields : ∀ entry ∈ fields, Spelled data entry.2)
    (key : Text) (default : Int) : Ends DecodeFault.IsProtocol (number int fields key default) fun n =>
      n = default ∨ Counted int data n := by
  unfold number
  split
  · exact Ends.ok (.inl rfl)
  · next raw hraw =>
    refine Ends.ite (fun _ => Ends.ok (.inl rfl)) fun _ => Ends.exceptValue _ ?_
    exact (toInt_spec (hfields _ (Assoc.mem_of_get hraw))).post fun _ => .inr

/-- A key that is not there keeps the default. -/
structure SpaceInfo.Inside (int : Text → Option Int) (data : Bytes) (x : SpaceInfo) : Prop where
  name : Spelled data x.name
  total : x.total = 0 ∨ Counted int data x.total
  free : x.free = 0 ∨ Counted int data x.free
  largestFree : x.largestFree = 0 ∨ Counted int data x.largestFree
  used : x.used = 0 ∨ Counted int data x.used
  quota : x.quota = -1 ∨ Counted int data x.quota

theorem parseSpace_spec :
    Ends DecodeFault.IsProtocol (parseSpace int data) (SpaceInfo.Inside int data) := by
  have htext : Spelled data (strip (textOf data)) :=
    (spelled_textOf (List.infix_refl data)).piece (isInfix_strip _)
  have hfields := spaceFields_spelled htext
  have hvalues : ∀ entry ∈ spaceFields (strip (textOf data)), Spelled data entry.2 :=
    fun entry hentry => (hfields entry hentry).2
  refine Ends.bind (number_spec hvalues _ _) fun total htotal => ?_
  refine Ends.bind (number_spec hvalues _ _) fun free hfree => ?_
  refine Ends.bind (number_spec hvalues _ _) fun largestFree hlargestFree => ?_
  refine Ends.bind (number_spec hvalues _ _) fun used hused => ?_
  refine Ends.bind (number_spec hvalues _ _) fun quota hquota => Ends.pure ?_
  refine ⟨?_, htotal, hfree, hlargestFree, hused, hquota⟩
  rcases hname : (spaceFields (strip (textOf data))).get "oss.cgroup".toList with _ | name
  · exact spelled_nil
  · exact hvalues _ (Assoc.mem_of_get hname)

end

/-- The type and the access are one character each. -/
structure LocationInfo.Inside (data : Bytes) (x : LocationInfo) : Prop where
  address : Spelled data x.address
  type : Spelled data [x.type]
  access : Spelled data [x.access]

theorem Spelled.mem {text : Text} (htext : Spelled data text) {c : Char} (hc : c ∈ text) :
    Spelled data [c] := by
  obtain ⟨before, after, rfl⟩ := List.append_of_mem hc
  exact htext.piece ⟨before, after, by simp⟩

theorem locations_spec {tokens : List Text} (htokens : ∀ token ∈ tokens, Spelled data token) :
    Ends DecodeFault.IsProtocol (locations tokens) fun xs => ∀ x ∈ xs, LocationInfo.Inside data x := by
  induction tokens with
  | nil => exact Ends.ok nofun
  | cons token tokens ih =>
    obtain ⟨htoken, hmore⟩ := List.forall_mem_cons.mp htokens
    refine Ends.ite (fun _ => ih hmore) fun hlong => ?_
    refine Ends.bind (item_spec (show 0 < token.length by omega)) fun type htype => ?_
    refine Ends.bind (item_spec (show 1 < token.length by omega)) fun access haccess => ?_
    refine Ends.bind (ih hmore) fun more hmore => Ends.pure (List.forall_mem_cons.mpr ⟨?_, hmore⟩)
    exact ⟨htoken.piece (isInfix_drop 2 token), htoken.mem htype, htoken.mem haccess⟩

theorem parseLocate_spec : Ends DecodeFault.IsProtocol (parseLocate data) fun xs =>
    ∀ x ∈ xs, LocationInfo.Inside data x :=
  locations_spec fun _ htoken => mem_words_spelled (spelled_textOf (List.infix_refl data)) htoken

def CheckpointInfo.Inside (data : Bytes) (x : CheckpointInfo) : Prop :=
  Field data 4 x.capacity ∧ Field data 4 x.used

theorem parseCheckpoint_spec :
    Ends DecodeFault.IsProtocol (parseCheckpoint data) (CheckpointInfo.Inside data) :=
  Ends.decode (q := 0) (reads_next (reads_field 4) fun _ hcapacity =>
    reads_next (reads_field 4) fun _ hused => Reads.pure ⟨hcapacity, hused⟩)

theorem parseReadlink_spec : Ends DecodeFault.IsProtocol (parseReadlink data) fun target =>
    Spelled data target ∧ target ≠ [] :=
  Ends.ite (fun _ => Ends.raise _) fun hne =>
    Ends.ok ⟨(spelled_textOf (List.infix_refl data)).piece (isInfix_strip _), hne⟩

/-! ## Vector I/O -/

structure ReadVSegment.Inside (body : Bytes) (x : ReadVSegment) : Prop where
  fhandle : x.fhandle <:+: body
  offset : SignedField body 8 x.offset
  data : x.data <:+: body

/-- A segment is sixteen bytes at least, so the loop over them ends. -/
theorem segment_spec (p : Nat) : Reads data p (p + 1) segment (ReadVSegment.Inside data) := by
  refine Reads.bind (q := p + 4) (view_spec 4) (by omega) fun fhandle hfhandle => ?_
  refine (reads_next (p := p + 4) (reads_signed 4) fun length _ => ?_).weaken (by omega)
  refine reads_next (reads_signed 8) fun offset hoffset => ?_
  refine Reads.ite (fun _ => Reads.refuse _) fun _ => ?_
  exact reads_next (reads_view _) fun bs hbs => Reads.pure ⟨hfhandle.1, hoffset, hbs⟩

theorem parseReadv_spec : Ends DecodeFault.IsProtocol (parseReadv data) fun xs =>
    ∀ x ∈ xs, ReadVSegment.Inside data x :=
  Ends.decode (whileRemaining_spec segment_spec _ 0 [] (by omega) nofun)

/-! ## Extended attributes -/

/-- One byte: the one the cursor is at, or an error that leaves it there. -/
theorem u8_cases (r : Reader) : (∃ e, u8 r = (.error (.protocol e), r)) ∨
    ∃ b, r.buf[r.pos]? = some b ∧ u8 r = (.ok b.toNat, { r with pos := r.pos + 1 }) := by
  obtain ⟨e, heq⟩ | ⟨-, hle, heq⟩ := view_cases ((1 : Nat) : Int) r
  · exact .inl ⟨e, Act.bind_of_error heq _⟩
  · have hlt : r.pos < r.buf.length := by omega
    have hone : (r.buf.drop r.pos).take ((1 : Nat) : Int).toNat = [r.buf[r.pos]] := by
      rw [List.drop_eq_getElem_cons hlt]
      rfl
    rw [hone] at heq
    refine .inr ⟨r.buf[r.pos], List.getElem?_eq_getElem hlt, ?_⟩
    rw [u8, unpack, Act.bind_of_ok heq, if_pos (show [r.buf[r.pos]].length = 1 from rfl)]
    have hvalue : beNat [r.buf[r.pos]] = r.buf[r.pos].toNat := by simp [beNat]
    rw [hvalue]
    rfl

/-- What was read of a name ends where the cursor is, and every turn reads one byte. -/
theorem nameFrom_spec (fuel : Nat) : ∀ raw : Bytes, Act.Spec
    (fun r => At data p r ∧ raw <:+ data.take r.pos ∧ data.length < r.pos + fuel) (nameFrom fuel raw)
    (fun name r => At data (p + 1) r ∧ Spelled data name) fun e r => At data p r ∧ e.IsProtocol := by
  induction fuel with
  | zero =>
    rintro raw r ⟨⟨-, -, hend⟩, -, hfuel⟩
    omega
  | succ fuel ih =>
    rintro raw r ⟨⟨rfl, hp, hend⟩, hraw, hfuel⟩
    obtain ⟨e, heq⟩ | ⟨b, hb, heq⟩ := u8_cases r
    · rw [nameFrom, Act.bind_of_error heq]
      exact ⟨⟨rfl, hp, hend⟩, trivial⟩
    · have hlt : r.pos < r.buf.length := (List.getElem?_eq_some_iff.mp hb).1
      have hnext : At r.buf (p + 1) { r with pos := r.pos + 1 } :=
        ⟨rfl, Nat.add_le_add_right hp 1, hlt⟩
      rw [nameFrom, Act.bind_of_ok heq]
      by_cases hzero : b.toNat = 0
      · rw [if_pos hzero]
        exact ⟨hnext, spelled_decode (hraw.isInfix.trans (isInfix_take _ _))⟩
      · rw [if_neg hzero, UInt8.ofNat_toNat]
        refine ih (raw ++ [b]) _ ⟨hnext.weaken (Nat.le_succ p), ?_, ?_⟩
        · have hgrow : r.buf.take (r.pos + 1) = r.buf.take r.pos ++ [b] := by
            rw [List.take_add_one, hb]
            rfl
          obtain ⟨before, hbefore⟩ := hraw
          refine ⟨before, ?_⟩
          show _ = r.buf.take (r.pos + 1)
          rw [hgrow, ← hbefore, List.append_assoc]
        · show r.buf.length < r.pos + 1 + fuel
          omega

theorem readName_spec (p : Nat) : Reads data p (p + 1) readName (Spelled data) := by
  rintro r ⟨rfl, hr⟩
  refine nameFrom_spec (r.buf.length + 1) [] r ⟨⟨rfl, hr⟩, List.nil_suffix, ?_⟩
  omega

theorem value_spec : Reads data p p value fun value => ∀ bs ∈ value, bs <:+: data := by
  refine reads_next (reads_signed 4) fun length _ => ?_
  refine reads_next (reads_view length) fun value hvalue => Reads.pure fun bs hbs => ?_
  rwa [← Option.some.inj hbs]

theorem itemValue_spec {values : Bool} :
    Reads data p p (itemValue values) fun value => ∀ bs ∈ value, bs <:+: data :=
  reads_next reads_remaining fun _ _ => Reads.ite (fun _ => value_spec) fun _ => Reads.pure nofun

structure FattrItem.Inside (data : Bytes) (x : FattrItem) : Prop where
  name : Spelled data x.name
  code : x.code = 0 ∨ Field data 2 x.code
  value : ∀ bs ∈ x.value, bs <:+: data

structure FattrResult.Inside (data : Bytes) (x : FattrResult) : Prop where
  errors : x.errors = 0 ∨ Field data 1 x.errors
  items : ∀ item ∈ x.items, FattrItem.Inside data item

theorem fattrItems_spec {values : Bool} (count : Nat) : ∀ items : List FattrItem,
    (∀ item ∈ items, FattrItem.Inside data item) →
      Reads data p p (fattrItems values count items) fun items =>
        ∀ item ∈ items, FattrItem.Inside data item := by
  induction count with
  | zero => exact fun items hitems => Reads.pure hitems
  | succ count ih =>
    intro items hitems
    refine reads_next reads_remaining fun left _ => Reads.ite (fun _ => Reads.pure hitems) fun _ => ?_
    refine reads_next (reads_field 2) fun code hcode => ?_
    refine reads_next ((readName_spec p).weaken (Nat.le_succ p)) fun name hname => ?_
    refine reads_next itemValue_spec fun value hvalue => ih _ fun item hitem => ?_
    rcases List.mem_append.mp hitem with hitem | hitem
    · exact hitems item hitem
    · rw [List.mem_singleton.mp hitem]
      exact ⟨hname, .inr hcode, hvalue⟩

theorem parseFattr_spec {values : Bool} :
    Ends DecodeFault.IsProtocol (parseFattr values data) (FattrResult.Inside data) := by
  refine Ends.ite (fun _ => Ends.ok ⟨.inl rfl, nofun⟩) fun _ => ?_
  refine Ends.decode (q := 0) (reads_next (reads_field 1) fun errors herrors => ?_)
  refine reads_next (reads_field 1) fun count _ => ?_
  exact reads_next (fattrItems_spec count [] nofun) fun items hitems => Reads.pure ⟨.inr herrors, hitems⟩

theorem listValue_spec {values : Bool} :
    Reads data p p (listValue values) fun value => ∀ bs ∈ value, bs <:+: data :=
  Reads.ite (fun _ => value_spec) fun _ => Reads.pure nofun

/-- A name is one byte at least, its NUL. -/
theorem listItem_spec {values : Bool} (p : Nat) :
    Reads data p (p + 1) (listItem values) (FattrItem.Inside data) := by
  refine Reads.bind (q := p + 1) (readName_spec p) (Nat.le_succ p) fun name hname => ?_
  exact reads_next listValue_spec fun value hvalue => Reads.pure ⟨hname, .inl rfl, hvalue⟩

theorem parseFattrList_spec {values : Bool} :
    Ends DecodeFault.IsProtocol (parseFattrList values data) (FattrResult.Inside data) :=
  Ends.decode (q := 0) (reads_next (whileRemaining_spec listItem_spec _ 0 [] (by omega) nofun)
    fun _ hitems => Reads.pure ⟨.inl rfl, hitems⟩)

/-- A path and the attributes on it. -/
def TreeInside (data : Bytes) (x : Text × List Text) : Prop :=
  Spelled data x.1 ∧ ∀ name ∈ x.2, Spelled data name

theorem rpartitionColon_pieces {text path name : Text} (h : rpartitionColon text = some (path, name)) :
    path <:+: text ∧ name <:+: text := by
  unfold rpartitionColon at h
  split at h
  · cases h
    exact ⟨isInfix_take _ _, isInfix_reverse_of (isInfix_takeWhile _ _)⟩
  · cases h

theorem treeEntry_spec {tree : Assoc Text (List Text)} (htree : ∀ x ∈ tree, TreeInside data x)
    {entry : Bytes} (hentry : entry <:+: data) : ∀ x ∈ treeEntry tree entry, TreeInside data x := by
  unfold treeEntry
  split
  · exact htree
  split
  · exact htree
  · next path name hparts =>
    obtain ⟨hpath, hname⟩ := rpartitionColon_pieces hparts
    intro x hx
    rcases Assoc.mem_of_mem_set hx with rfl | hx
    · refine ⟨(spelled_decode hentry).piece hpath, fun own hown => ?_⟩
      rcases List.mem_append.mp hown with hown | hown
      · rcases hnames : tree.get path with _ | names
        · rw [hnames] at hown
          cases hown
        · rw [hnames] at hown
          exact (htree _ (Assoc.mem_of_get hnames)).2 own hown
      · rw [List.mem_singleton.mp hown]
        exact (spelled_decode hentry).piece hname
    · exact htree x hx

theorem parseFattrTree_spec : Ends DecodeFault.IsProtocol (parseFattrTree data) fun tree =>
    ∀ x ∈ tree, TreeInside data x := by
  have hfold : ∀ (entries : List Bytes) (tree : Assoc Text (List Text)),
      (∀ entry ∈ entries, entry <:+: data) → (∀ x ∈ tree, TreeInside data x) →
      ∀ x ∈ entries.foldl treeEntry tree, TreeInside data x := by
    intro entries
    induction entries with
    | nil => exact fun tree _ htree => htree
    | cons entry entries ih =>
      intro tree hentries htree
      obtain ⟨hentry, hmore⟩ := List.forall_mem_cons.mp hentries
      exact ih _ hmore (treeEntry_spec htree hentry)
  exact Ends.ok (hfold _ [] (fun _ hentry => isInfix_of_mem_splitOn hentry) nofun)

end XrdClient.Proto.Decoders
