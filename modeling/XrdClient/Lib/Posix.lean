/-
  Lib/Posix.lean --- absolute POSIX paths as text, and what they resolve to.

  `components` is the list that `posixpath.normpath` makes of an absolute path: empty
  and `.` parts are left out, `..` takes the last one away.  Where every part is a
  `Name`, joining texts is appending lists (`components_render`,
  `render_concat`); that is all the rest of the development knows about the texts.
-/
import Mathlib
import XrdClient.Lib.Bytes

set_option autoImplicit false

namespace XrdClient.Lib

namespace Posix

/-- A part of a path that names something in a directory. -/
def Name (n : Text) : Prop := n ≠ [] ∧ '/' ∉ n ∧ n ≠ ['.'] ∧ n ≠ ['.', '.']

instance (n : Text) : Decidable (Name n) := inferInstanceAs (Decidable (_ ∧ _))

/-- One more part of a path. -/
def follow (at_ : List Text) (part : Text) : List Text :=
  if part = [] ∨ part = ['.'] then at_
  else if part = ['.', '.'] then at_.dropLast
  else at_ ++ [part]

/-- Where an absolute path leads. -/
def components (path : Text) : List Text := (path.splitOn '/').foldl follow []

/-- The parts of a path, each after its slash. -/
def body (names : List Text) : Text := names.flatMap ('/' :: ·)

/-- The text of an absolute path. -/
def render (names : List Text) : Text := if names = [] then ['/'] else body names

/-- `posixpath.join(a, b)`. -/
def join (a b : Text) : Text :=
  if b.head? = some '/' then b
  else if a = [] ∨ a.getLast? = some '/' then a ++ b
  else a ++ '/' :: b

/-- `text.rstrip("/")`. -/
def rstrip (text : Text) : Text := text.rdropWhile (· = '/')

/-- `text.strip("/")`. -/
def strip (text : Text) : Text := rstrip (text.dropWhile (· = '/'))

/-- `posixpath.basename`. -/
def basename (path : Text) : Text := path.rtakeWhile (· ≠ '/')

/-- `posixpath.dirname`: what is before the last slash, its own trailing slashes gone
unless it is slashes alone. -/
def dirname (path : Text) : Text :=
  let head := path.rdropWhile (· ≠ '/')
  if rstrip head = [] then head else rstrip head

/-- `b` is below `a`, and not `a` itself. -/
def Below (a b : Text) : Prop := ∃ rest, rest ≠ [] ∧ components b = components a ++ rest

theorem below_iff {a b : Text} :
    Below a b ↔ components a <+: components b ∧ components a ≠ components b := by
  constructor
  · rintro ⟨rest, hrest, hb⟩
    refine ⟨⟨rest, hb.symm⟩, fun heq => hrest ?_⟩
    rw [heq] at hb
    exact List.self_eq_append_right.mp hb
  · rintro ⟨⟨rest, hb⟩, hne⟩
    exact ⟨rest, fun hrest => hne (by rw [← hb, hrest, List.append_nil]), hb.symm⟩

instance (a b : Text) : Decidable (Below a b) := decidable_of_iff _ below_iff.symm

/-! ## Resolving -/

theorem follow_name {n : Text} (h : Name n) (at_ : List Text) : follow at_ n = at_ ++ [n] := by
  unfold follow
  rw [if_neg (by rintro (h' | h'); exacts [h.1 h', h.2.2.1 h']), if_neg h.2.2.2]

/-- What is after a slash is followed from what is before it. -/
theorem components_append (a b : Text) :
    components (a ++ '/' :: b) = (b.splitOn '/').foldl follow (components a) := by
  unfold components
  rw [List.splitOn_append_cons_self, List.foldl_append]

theorem components_append_name {a n : Text} (h : '/' ∉ n) :
    components (a ++ '/' :: n) = follow (components a) n := by
  rw [components_append, List.splitOn_eq_singleton h]
  rfl

/-- A slash at the end leads nowhere else. -/
theorem components_append_slash (a : Text) : components (a ++ ['/']) = components a := by
  rw [components_append]
  rfl

theorem components_append_body {names : List Text} (h : ∀ n ∈ names, Name n) (a : Text) :
    components (a ++ body names) = components a ++ names := by
  induction names generalizing a with
  | nil => simp [body]
  | cons n names ih =>
    have hn := h n List.mem_cons_self
    have hbody : a ++ body (n :: names) = (a ++ '/' :: n) ++ body names := by
      simp [body]
    rw [hbody, ih (fun m hm => h m (List.mem_cons_of_mem _ hm)), components_append_name hn.2.1,
      follow_name hn]
    simp

theorem components_nil : components [] = [] := rfl

theorem components_body {names : List Text} (h : ∀ n ∈ names, Name n) :
    components (body names) = names := by
  have := components_append_body h []
  rwa [components_nil, List.nil_append, List.nil_append] at this

theorem components_render {names : List Text} (h : ∀ n ∈ names, Name n) :
    components (render names) = names := by
  unfold render
  split
  · next hnil =>
    subst hnil
    rfl
  · exact components_body h

/-- The parts of a text that was split do not have what it was split at. -/
theorem not_mem_of_mem_splitOn {sep : Char} {part text : Text} (h : part ∈ text.splitOn sep) :
    sep ∉ part := by
  induction text generalizing part with
  | nil =>
    rw [List.splitOn_nil, List.mem_singleton] at h
    simp [h]
  | cons c text ih =>
    rw [List.splitOn_cons_eq_if_modifyHead] at h
    split at h
    · rcases List.mem_cons.mp h with rfl | h
      · exact List.not_mem_nil
      · exact ih h
    · next hc =>
      obtain ⟨first, rest, hsplit⟩ := List.exists_cons_of_ne_nil (List.splitOn_ne_nil sep text)
      rw [hsplit, List.modifyHead_cons] at h
      rcases List.mem_cons.mp h with rfl | h
      · have hmem : first ∈ text.splitOn sep := by rw [hsplit]; exact List.mem_cons_self
        have hfirst := ih hmem
        intro hmem
        rcases List.mem_cons.mp hmem with heq | hmem
        · exact hc (by simp [← heq])
        · exact hfirst hmem
      · exact ih (by rw [hsplit]; exact List.mem_cons_of_mem _ h)

/-- Nor anything that the text has not. -/
theorem subset_of_mem_splitOn {sep : Char} {part text : Text} (h : part ∈ text.splitOn sep) : part ⊆ text := by
  induction text generalizing part with
  | nil =>
    rw [List.splitOn_nil, List.mem_singleton] at h
    simp [h]
  | cons c text ih =>
    rw [List.splitOn_cons_eq_if_modifyHead] at h
    split at h
    · rcases List.mem_cons.mp h with rfl | h
      · exact List.nil_subset _
      · exact List.subset_cons_of_subset c (ih h)
    · obtain ⟨first, rest, hsplit⟩ := List.exists_cons_of_ne_nil (List.splitOn_ne_nil sep text)
      rw [hsplit, List.modifyHead_cons] at h
      rcases List.mem_cons.mp h with rfl | h
      · exact List.cons_subset_cons c (ih (by rw [hsplit]; exact List.mem_cons_self))
      · exact List.subset_cons_of_subset c (ih (by rw [hsplit]; exact List.mem_cons_of_mem _ h))

/-- A path leads along names. -/
theorem name_of_mem_components {path n : Text} (h : n ∈ components path) : Name n := by
  have hfold : ∀ (parts : List Text), (∀ p ∈ parts, '/' ∉ p) → ∀ at_ : List Text,
      (∀ m ∈ at_, Name m) → ∀ m ∈ parts.foldl follow at_, Name m := by
    intro parts
    induction parts with
    | nil => exact fun _ at_ hat => hat
    | cons p parts ih =>
      intro hparts at_ hat
      refine ih (fun q hq => hparts q (List.mem_cons_of_mem _ hq)) _ ?_
      intro m hm
      unfold follow at hm
      split at hm
      · exact hat m hm
      next hp =>
        split at hm
        · exact hat m (List.dropLast_subset _ hm)
        next hdots =>
          rcases List.mem_append.mp hm with hm | hm
          · exact hat m hm
          · rw [List.mem_singleton.mp hm]
            exact ⟨fun h => hp (Or.inl h), hparts p List.mem_cons_self, fun h => hp (Or.inr h),
              hdots⟩
  exact hfold _ (fun p hp => not_mem_of_mem_splitOn hp) [] (fun m hm => absurd hm List.not_mem_nil)
    n h

/-! ## Joining -/

theorem head_ne_slash {n : Text} (h : '/' ∉ n) : n.head? ≠ some '/' := by
  intro hhead
  cases n with
  | nil => cases hhead
  | cons c n =>
    simp only [List.head?_cons, Option.some.injEq] at hhead
    exact h (by simp [hhead])

theorem getLast_body {names : List Text} (hnames : ∀ n ∈ names, Name n) (hne : names ≠ []) :
    (body names).getLast? ≠ some '/' := by
  obtain ⟨front, n, rfl⟩ : ∃ front n, names = front ++ [n] :=
    ⟨names.dropLast, names.getLast hne, (List.dropLast_append_getLast hne).symm⟩
  have hn := hnames n (by simp)
  intro hlast
  have hbody : body (front ++ [n]) = body front ++ '/' :: n := by simp [body]
  rw [hbody, List.getLast?_append, List.getLast?_cons] at hlast
  cases hn' : n.getLast? with
  | none => exact hn.1 (List.getLast?_eq_none_iff.mp hn')
  | some c =>
    rw [hn'] at hlast
    simp only [Option.getD_some, Option.some_or, Option.some.injEq] at hlast
    exact hn.2.1 (hlast ▸ List.mem_of_mem_getLast? hn')

/-- The text before the parts of a path, when it may end in a slash. -/
theorem join_body (ds : List Text) (hds : ∀ n ∈ ds, Name n) {n : Text} {names : List Text}
    (hn : Name n) (slash : Bool) :
    join (if slash then render ds ++ (if ds = [] then [] else ['/']) else render ds)
      (n ++ body names) = body (ds ++ n :: names) := by
  have hhead : (n ++ body names).head? ≠ some '/' := by
    cases hn' : n with
    | nil => exact absurd hn' hn.1
    | cons c rest =>
      have := head_ne_slash hn.2.1
      rw [hn'] at this
      simpa using this
  unfold join
  rw [if_neg hhead]
  by_cases hnil : ds = []
  · subst hnil
    cases slash <;> simp [render, body]
  · have hlast := getLast_body hds hnil
    have hbody : body ds ≠ [] := by
      intro h
      obtain ⟨d, ds', rfl⟩ := List.exists_cons_of_ne_nil hnil
      simp [body] at h
    cases slash with
    | true => simp [render, hnil, body]
    | false =>
      simp only [render, hnil, if_false, hbody, hlast, false_or, Bool.false_eq_true]
      simp [body]

/-- One more name. -/
theorem join_name {names : List Text} (hnames : ∀ n ∈ names, Name n) {n : Text} (hn : Name n) :
    join (render names) n = render (names ++ [n]) := by
  have h := @join_body names hnames n [] hn false
  simp only [Bool.false_eq_true, if_false] at h
  rw [show n ++ body [] = n by simp [body]] at h
  rw [h]
  unfold render
  rw [if_neg (by simp)]

theorem body_append (a b : List Text) : body (a ++ b) = body a ++ body b :=
  List.flatMap_append

theorem render_concat (names : List Text) (n : Text) :
    render (names ++ [n]) = body names ++ '/' :: n := by
  unfold render
  rw [if_neg (by simp), body_append]
  simp [body]

theorem getLast_slash {names : List Text} (hnames : ∀ n ∈ names, Name n) {c : Char}
    (hlast : (body names).getLast? = some c) : c ≠ '/' := by
  rintro rfl
  cases names with
  | nil => cases hlast
  | cons n names => exact getLast_body hnames (List.cons_ne_nil _ _) hlast

/-! ## Stripping -/

theorem rstrip_body {names : List Text} (hnames : ∀ n ∈ names, Name n) :
    rstrip (body names) = body names := by
  unfold rstrip
  refine List.rdropWhile_eq_self_iff.mpr fun hne hslash => ?_
  exact getLast_slash hnames (List.getLast?_eq_some_getLast hne) (of_decide_eq_true hslash)

theorem rstrip_append_slash (text : Text) : rstrip (text ++ ['/']) = rstrip text := by
  unfold rstrip
  exact List.rdropWhile_concat_pos _ _ _ (by simp)

theorem rstrip_render {names : List Text} (hnames : ∀ n ∈ names, Name n) :
    rstrip (render names) = body names := by
  unfold render
  split
  · next hnil =>
    subst hnil
    rfl
  · exact rstrip_body hnames

/-- The slash before the first name is all that stripping takes from a path. -/
theorem strip_body {names : List Text} (hnames : ∀ n ∈ names, Name n) (hne : names ≠ []) :
    '/' :: strip (body names) = body names := by
  obtain ⟨n, rest, rfl⟩ := List.exists_cons_of_ne_nil hne
  obtain ⟨c, text, hc⟩ := List.exists_cons_of_ne_nil (hnames n List.mem_cons_self).1
  have hslash : c ≠ '/' := by
    rintro rfl
    exact (hnames n List.mem_cons_self).2.1 (by rw [hc]; exact List.mem_cons_self)
  have hbody : body (n :: rest) = '/' :: c :: (text ++ body rest) := by simp [body, hc]
  have hdrop : (body (n :: rest)).dropWhile (· = '/') = c :: (text ++ body rest) := by
    simp [hbody, hslash]
  unfold strip
  rw [hdrop, hbody]
  congr 1
  unfold rstrip
  refine List.rdropWhile_eq_self_iff.mpr fun hne' hlast => ?_
  refine getLast_slash hnames (c := (c :: (text ++ body rest)).getLast hne') ?_
    (of_decide_eq_true hlast)
  rw [hbody, List.getLast?_cons_cons]
  exact List.getLast?_eq_some_getLast hne'

/-- The last part of a path that was resolved is a name, or it has none. -/
theorem basename_render {names : List Text} (hnames : ∀ n ∈ names, Name n) :
    basename (render names) = [] ∨ Name (basename (render names)) := by
  rcases List.eq_nil_or_concat names with rfl | ⟨front, n, rfl⟩
  · exact Or.inl rfl
  · refine Or.inr ?_
    have hn := hnames n (by simp)
    have hbase : basename (render (front ++ [n])) = n := by
      rw [render_concat]
      unfold basename List.rtakeWhile
      have hall : ∀ c ∈ n.reverse, decide (c ≠ '/') = true := fun c hc =>
        decide_eq_true fun h => hn.2.1 (h ▸ List.mem_reverse.mp hc)
      rw [List.reverse_append, List.reverse_cons, List.append_assoc,
        List.takeWhile_append_of_pos hall]
      simp
    rw [List.concat_eq_append, hbase]
    exact hn

/-! ## Cutting -/

theorem render_of_ne_nil {names : List Text} (h : names ≠ []) : render names = body names :=
  if_neg h

/-- One more part leads below where it is followed from when it is a name. -/
theorem below_follow_iff {a b n : Text} (hb : components b = follow (components a) n)
    (hn : '/' ∉ n) : Below a b ↔ Name n := by
  constructor
  · rintro ⟨rest, hrest, hbelow⟩
    have hlength : (components a).length < (components b).length := by
      rw [hbelow, List.length_append]
      have := List.length_pos_iff.mpr hrest
      omega
    rw [hb] at hlength
    unfold follow at hlength
    split at hlength
    · omega
    next hdot =>
      split at hlength
      · rw [List.length_dropLast] at hlength
        omega
      next hdots =>
        exact ⟨fun h => hdot (Or.inl h), hn, fun h => hdot (Or.inr h), hdots⟩
  · intro hname
    exact ⟨[n], List.cons_ne_nil _ _, hb.trans (follow_name hname _)⟩

end Posix

end XrdClient.Lib
