/-
  Session/Tried.lean --- whom a request has been to, told to a manager again and again.

  Source: `session/_rewrite.py`, `tried`, `with_tried` and `_without_tried`.

  A path comes with parameters, and `tried=` may be among them already: the caller's own, or
  what `with_tried` put there the last time.  What it puts there it can read again, so the
  list of hosts grows and the rest of the path stays.

  `triedrc=` is not escaped.  Its reasons are a handful of words, and what is shown here is
  about reasons without an ampersand; one with an ampersand would be two parameters.
-/
import XrdClient.Lib.Pieces
import XrdClient.Session.Trail

set_option autoImplicit false

namespace XrdClient.Session

open XrdClient.Lib

/-! ## A list without repetitions -/

/-- Each host once, in the order they came. -/
theorem foldl_tried (hosts : List Text) : hosts.foldl tried [] = hosts.eraseDups := by
  induction hosts using List.reverseRecOn with
  | nil => rfl
  | append_singleton hosts host ih =>
    rw [List.foldl_append, ih, List.foldl_cons, List.foldl_nil, List.eraseDups_append, tried]
    by_cases hmem : host ∈ hosts
    · rw [if_pos (List.mem_eraseDups.mpr hmem)]
      simp [List.removeAll, hmem]
    · rw [if_neg fun h => hmem (List.mem_eraseDups.mp h)]
      simp [List.removeAll, hmem, List.eraseDups_cons]

theorem nodup_foldl_tried {hosts : List Text} (h : hosts.Nodup) (more : List Text) : (more.foldl tried hosts).Nodup := by
  induction more generalizing hosts with
  | nil => exact h
  | cons host more ih =>
    apply ih
    unfold tried
    split
    · exact h
    · next hnew =>
      refine List.nodup_append.mpr ⟨h, List.pairwise_singleton _ _, fun a ha b hb => ?_⟩
      rintro rfl
      exact hnew (List.mem_singleton.mp hb ▸ ha)

theorem foldl_tried_of_nodup {hosts : List Text} (h : hosts.Nodup) : hosts.foldl tried [] = hosts := by
  induction hosts using List.reverseRecOn with
  | nil => rfl
  | append_singleton hosts host ih =>
    obtain ⟨hhosts, -, hapart⟩ := List.nodup_append.mp h
    have hnew : host ∉ hosts := fun hmem => hapart host hmem host (List.mem_singleton_self _) rfl
    rw [List.foldl_append, ih hhosts, List.foldl_cons, List.foldl_nil, tried, if_neg hnew]

/-- A list that was told before can be told again, and others after it. -/
theorem eraseDups_eraseDups_append (hosts more : List Text) :
    (hosts.eraseDups ++ more).eraseDups = (hosts ++ more).eraseDups := by
  have hnodup : (hosts.foldl tried []).Nodup := nodup_foldl_tried List.nodup_nil hosts
  rw [← foldl_tried (hosts ++ more), ← foldl_tried (hosts.eraseDups ++ more), ← foldl_tried hosts, List.foldl_append,
    List.foldl_append, foldl_tried_of_nodup hnodup]

theorem eraseDups_append_self (before hosts : List Text) :
    (before ++ (hosts ++ hosts)).eraseDups = (before ++ hosts).eraseDups := by
  have hnone : hosts.removeAll (before ++ hosts) = [] := by
    rw [List.removeAll, List.filter_eq_nil_iff]
    intro host hhost
    simp [hhost]
  rw [← List.append_assoc, List.eraseDups_append, hnone, List.eraseDups_nil, List.append_nil]

theorem eraseDups_ne_nil {hosts : List Text} (h : hosts ≠ []) : hosts.eraseDups ≠ [] := by
  obtain ⟨host, hhost⟩ := List.exists_mem_of_ne_nil hosts h
  exact List.ne_nil_of_mem (List.mem_eraseDups.mpr hhost)

/-! ## Parameters -/

/-- The parameter that lists `hosts`. -/
def triedItem (hosts : List Text) : Text := "tried=".toList ++ [','].intercalate hosts

/-- The parameter that says why, if anything says it. -/
def reasonItems (reason : Text) : List Text := if reason = [] then [] else ["triedrc=".toList ++ reason]

/-- A host that can be listed. -/
def Listable (host : Text) : Prop := host ≠ [] ∧ ',' ∉ host ∧ '&' ∉ host

instance (host : Text) : Decidable (Listable host) := inferInstanceAs (Decidable (_ ∧ _ ∧ _))

theorem isNamed_append {name : String} (h : '=' ∉ name.toList) (other : String) (value : Text) :
    isNamed other (name.toList ++ '=' :: value) = decide (name.toList = other.toList) := by
  rw [isNamed, partitionAt_append h]

/-- What was listed can be read. -/
theorem listed_triedItem {hosts : List Text} (hhosts : hosts ≠ []) (h : ∀ host ∈ hosts, Listable host) :
    listed (triedItem hosts) = hosts := by
  have hpart : partitionAt '=' (triedItem hosts) = ("tried".toList, true, [','].intercalate hosts) :=
    partitionAt_append (show '=' ∉ "tried".toList by decide) _
  rw [listed, hpart, List.splitOn_intercalate _ (fun host hmem => (h host hmem).2.1) hhosts]
  exact List.filter_eq_self.mpr fun host hmem => decide_eq_true (h host hmem).1

/-- A host that a parameter lists is one that can be listed again. -/
theorem listable_of_mem_triedHosts {path host : Text} (h : host ∈ triedHosts path) : Listable host := by
  obtain ⟨item, hitem, hhost⟩ := List.mem_flatMap.mp h
  have hpart := List.mem_of_mem_filter hhost
  refine ⟨by simpa using List.of_mem_filter hhost, Posix.not_mem_of_mem_splitOn hpart, fun hmem => ?_⟩
  have hamp : '&' ∉ item := Posix.not_mem_of_mem_splitOn (List.mem_of_mem_filter (List.mem_of_mem_filter hitem))
  apply hamp
  have hvalue := Posix.subset_of_mem_splitOn hpart hmem
  rcases partitionAt_cases '=' item with ⟨-, heq⟩ | ⟨head, tail, -, hsplit, heq⟩
  · rw [heq] at hvalue
    cases hvalue
  · rw [heq] at hvalue
    rw [hsplit]
    exact List.mem_append_right _ (List.mem_cons_of_mem _ hvalue)

/-- The hosts that were listed and those that are added can be listed. -/
theorem listable_names {path : Text} {hosts : List Text} (h : ∀ host ∈ hosts, Listable host) :
    ∀ host ∈ (triedHosts path ++ hosts).eraseDups, Listable host := by
  intro host hhost
  rcases List.mem_append.mp (List.mem_eraseDups.mp hhost) with hhost | hhost
  · exact listable_of_mem_triedHosts hhost
  · exact h host hhost

theorem triedItem_amp {hosts : List Text} (h : ∀ host ∈ hosts, Listable host) :
    '&' ∉ triedItem hosts ∧ triedItem hosts ≠ [] := by
  refine ⟨fun hmem => ?_, List.append_ne_nil_of_left_ne_nil (by decide) _⟩
  rcases List.mem_append.mp hmem with hmem | hmem
  · exact absurd hmem (by decide)
  · exact not_mem_intercalate (by decide) (fun host hhost => (h host hhost).2.2) hmem

theorem reasonItems_amp {reason : Text} (h : '&' ∉ reason) : ∀ item ∈ reasonItems reason, '&' ∉ item ∧ item ≠ [] := by
  intro item hitem
  unfold reasonItems at hitem
  split at hitem
  · cases hitem
  · obtain rfl := List.mem_singleton.mp hitem
    refine ⟨fun hmem => ?_, List.append_ne_nil_of_left_ne_nil (by decide) _⟩
    rcases List.mem_append.mp hmem with hmem | hmem
    · exact absurd hmem (by decide)
    · exact h hmem

/-! ## Parameters by name -/

theorem isNamed_triedItem (other : String) (hosts : List Text) :
    isNamed other (triedItem hosts) = decide ("tried".toList = other.toList) :=
  isNamed_append (show '=' ∉ "tried".toList by decide) other _

theorem isNamed_of_mem_reasonItems (other : String) {reason item : Text} (h : item ∈ reasonItems reason) :
    isNamed other item = decide ("triedrc".toList = other.toList) := by
  unfold reasonItems at h
  split at h
  · cases h
  · obtain rfl := List.mem_singleton.mp h
    exact isNamed_append (show '=' ∉ "triedrc".toList by decide) other reason

theorem not_named_of_mem_own {path item : Text} (h : item ∈ own path) :
    isNamed "tried" item = false ∧ isNamed "triedrc" item = false := by
  have hown : isOwn item = true := List.of_mem_filter h
  simpa [isOwn_eq] using hown

/-- Of parameters in the order `with_tried` leaves them, each kind. -/
theorem filter_items (path : Text) (hosts : List Text) (reason : Text) :
    (own path ++ triedItem hosts :: reasonItems reason).filter (isNamed "tried") = [triedItem hosts] ∧
    (own path ++ triedItem hosts :: reasonItems reason).filter (isNamed "triedrc") = reasonItems reason ∧
    (own path ++ triedItem hosts :: reasonItems reason).filter isOwn = own path := by
  have hitem : isNamed "tried" (triedItem hosts) = true ∧ isNamed "triedrc" (triedItem hosts) = false :=
    ⟨isNamed_triedItem _ _, isNamed_triedItem _ _⟩
  have hreasons : ∀ item ∈ reasonItems reason, isNamed "tried" item = false ∧ isNamed "triedrc" item = true :=
    fun item hmem => ⟨isNamed_of_mem_reasonItems _ hmem, isNamed_of_mem_reasonItems _ hmem⟩
  refine ⟨?_, ?_, ?_⟩
  · rw [List.filter_append, List.filter_cons_of_pos hitem.1,
      List.filter_eq_nil_iff.mpr fun item hmem => by simp [(not_named_of_mem_own hmem).1],
      List.filter_eq_nil_iff.mpr fun item hmem => by simp [(hreasons item hmem).1], List.nil_append]
  · rw [List.filter_append, List.filter_cons_of_neg (by simp [hitem.2]),
      List.filter_eq_nil_iff.mpr fun item hmem => by simp [(not_named_of_mem_own hmem).2],
      List.filter_eq_self.mpr fun item hmem => (hreasons item hmem).2, List.nil_append]
  · rw [List.filter_append, List.filter_cons_of_neg (by simp [isOwn_eq, hitem.1]),
      List.filter_eq_self.mpr fun item hmem => List.of_mem_filter hmem,
      List.filter_eq_nil_iff.mpr fun item hmem => by simp [isOwn_eq, (hreasons item hmem).2], List.append_nil]

/-! ## What is sent -/

section

variable {path : Text} (hpath : path ≠ []) {hosts : List Text} (hhosts : hosts ≠ [])

include hpath hhosts

/-- `with_tried`, part by part. -/
theorem withTried_eq (reason : Text) : withTried path hosts reason = base path ++ '?' :: ['&'].intercalate
    (own path ++ triedItem (triedHosts path ++ hosts).eraseDups :: reasonItems reason) := by
  rw [withTried, if_neg (by simp [hhosts, hpath])]
  dsimp only
  rw [withoutTried_eq, foldl_tried, List.append_assoc]
  rfl

variable (h : ∀ host ∈ hosts, Listable host) {reason : Text} (hreason : '&' ∉ reason)

include h hreason

/-- The parameters that `with_tried` leaves: the others, who was tried, and why. -/
theorem cgi_withTried : base (withTried path hosts reason) = base path ∧ cgi (withTried path hosts reason)
    = own path ++ triedItem (triedHosts path ++ hosts).eraseDups :: reasonItems reason := by
  have hnot : '?' ∉ base path := by
    rcases partitionAt_base path with ⟨hnot, hbase, -⟩ | ⟨_, hnot, -⟩
    · rwa [hbase]
    · exact hnot
  rw [withTried_eq hpath hhosts, base_append hnot, cgi_append hnot]
  refine ⟨rfl, splitOn_parts fun item hitem => ?_⟩
  rcases List.mem_append.mp hitem with hown | hitem
  · exact mem_own hown
  rcases List.mem_cons.mp hitem with rfl | hitem
  · exact triedItem_amp (listable_names h)
  · exact reasonItems_amp hreason item hitem

/-- What is sent holds one list of hosts, the reason given and no other, and the parameters
that are the caller's own. -/
theorem withTried_items :
    (cgi (withTried path hosts reason)).filter (isNamed "tried") = [triedItem (triedHosts path ++ hosts).eraseDups] ∧
    triedHosts (withTried path hosts reason) = (triedHosts path ++ hosts).eraseDups ∧
    (cgi (withTried path hosts reason)).filter (isNamed "triedrc") = reasonItems reason ∧
    own (withTried path hosts reason) = own path := by
  have hcgi := (cgi_withTried hpath hhosts h hreason).2
  obtain ⟨htried, hreasons, hown⟩ := filter_items path (triedHosts path ++ hosts).eraseDups reason
  rw [← hcgi] at htried hreasons hown
  refine ⟨htried, ?_, hreasons, hown⟩
  have hnames : (triedHosts path ++ hosts).eraseDups ≠ [] :=
    eraseDups_ne_nil (List.append_ne_nil_of_right_ne_nil _ hhosts)
  rw [triedHosts, htried, List.flatMap_singleton, listed_triedItem hnames (listable_names h)]

end

/-- Reporting hosts after others were reported is reporting them all. -/
theorem withTried_withTried {path : Text} (hpath : path ≠ []) {first second : List Text} (hfirst : first ≠ [])
    (hsecond : second ≠ []) (h : ∀ host ∈ first, Listable host) {reason : Text} (hreason : '&' ∉ reason) (last : Text) :
    withTried (withTried path first reason) second last = withTried path (first ++ second) last := by
  have hsent : withTried path first reason ≠ [] := by
    rw [withTried_eq hpath hfirst]
    exact List.append_ne_nil_of_right_ne_nil _ (List.cons_ne_nil _ _)
  obtain ⟨-, hhosts, -, hown⟩ := withTried_items hpath hfirst h hreason
  rw [withTried_eq hsent hsecond, withTried_eq hpath (List.append_ne_nil_of_left_ne_nil hfirst _), hown, hhosts,
    (cgi_withTried hpath hfirst h hreason).1, eraseDups_eraseDups_append, List.append_assoc]

/-- The list of the hosts tried accumulates.  There is one, and it has those listed before and
those added, each once and in the order they came; the other parameters are as they were, and
the reason is the last one given.  To report hosts in two steps is to report them in one, and
to report them again changes nothing. -/
theorem tried_accumulates {path : Text} (hpath : path ≠ []) {first second : List Text} (hfirst : first ≠ [])
    (hsecond : second ≠ []) (hnames : ∀ host ∈ first ++ second, Listable host) {reason last : Text}
    (hreason : '&' ∉ reason) :
    let sent := withTried path first reason
    (cgi sent).filter (isNamed "tried") = [triedItem (triedHosts path ++ first).eraseDups] ∧
    triedHosts sent = (triedHosts path ++ first).eraseDups ∧
    base sent = base path ∧ own sent = own path ∧
    (cgi sent).filter (isNamed "triedrc") = reasonItems reason ∧
    withTried sent second last = withTried path (first ++ second) last ∧
    withTried sent first reason = sent := by
  intro sent
  have h : ∀ host ∈ first, Listable host := fun host hhost => hnames host (List.mem_append_left _ hhost)
  obtain ⟨htried, hhosts, hreasons, hown⟩ := withTried_items hpath hfirst h hreason
  refine ⟨htried, hhosts, (cgi_withTried hpath hfirst h hreason).1, hown, hreasons,
    withTried_withTried hpath hfirst hsecond h hreason last, ?_⟩
  rw [withTried_withTried hpath hfirst hfirst h hreason,
    withTried_eq hpath (List.append_ne_nil_of_left_ne_nil hfirst _), eraseDups_append_self]
  exact (withTried_eq hpath hfirst reason).symm

/-- A list that was there already, empty places and all, and a reason that is replaced. -/
theorem tried_accumulates_twice :
    let path := "/f?tried=,a,,b&x=1&triedrc=ioerr&tried=a".toList
    let sent := withTried path ["c".toList, "a".toList] (triedReason kXR_NotFound)
    sent = "/f?x=1&tried=a,b,c&triedrc=enoent".toList ∧
    withTried sent ["d".toList] LOST = withTried path ["c".toList, "a".toList, "d".toList] LOST := by
  refine ⟨by decide, ?_⟩
  exact (@tried_accumulates _ (by decide) ["c".toList, "a".toList] ["d".toList] (by decide) (by decide) (by decide)
    (triedReason kXR_NotFound) LOST (by decide)).2.2.2.2.2.1

/-- A reason that holds a parameter of its own makes a second list of hosts. -/
theorem reason_with_parameter : ¬ ∀ (path : Text) (hosts : List Text) (reason : Text), path ≠ [] → hosts ≠ [] →
    (∀ host ∈ hosts, Listable host) →
    (cgi (withTried path hosts reason)).filter (isNamed "tried") = [triedItem (triedHosts path ++ hosts).eraseDups] := by
  intro h
  exact absurd (h "/f".toList ["h".toList] "x&tried=y".toList (by decide) (by decide) (by decide)) (by decide)

/-- The reasons that are given have no ampersand. -/
theorem reasons_amp : '&' ∉ LOST ∧ ∀ code, '&' ∉ triedReason code := by
  refine ⟨by decide, fun code => ?_⟩
  unfold triedReason
  split
  · decide
  split
  · decide
  split
  · decide
  split <;> decide

end XrdClient.Session
