/-
  Urls/Cgi.lean --- the CGI of a URL: its text, and the query it decodes to.

  Source: `url.py`, `_render_field`, `_fields`, `_field_name`, `_decode` and `_reconcile`;
  `parse_qsl` of the standard library.

  A text is fields between ampersands.  `reconcile` edits it through the query: the last
  field of every name that stays is kept where it is, as it was written when its value did
  not change, and what is new goes behind them.  `reconcile_eq` says which fields come out.

  A field that is rendered is a quoted name, an equals sign and a quoted value.  The equals
  sign is not escaped in either, so a name that has one is cut there when it is read.
-/
import XrdClient.Lib.Assoc
import XrdClient.Lib.Percent
import XrdClient.Lib.Pieces

set_option autoImplicit false

namespace XrdClient.Urls

open XrdClient.Lib

/-! ## Fields -/

/-- `_CGI_SAFE` -/
def CGI_SAFE : Text := ":/@,;=!$'()*~".toList

/-- `_render_field` -/
def renderField (name value : Text) : Text := quote CGI_SAFE name ++ '=' :: quote CGI_SAFE value

/-- `_fields` -/
def fields (raw : Text) : List Text := (raw.splitOn '&').filter (· ≠ [])

/-- `_field_name` -/
def fieldName (field : Text) : Text := unquotePlus (partitionAt '=' field).1

/-- The value that a field has for `parse_qsl`. -/
def fieldValue (field : Text) : Text := unquotePlus (partitionAt '=' field).2.2

/-- `dict(pairs)`: the last value of a repeated key, where the first one was. -/
def dict (pairs : List (Text × Text)) : Assoc Text Text := pairs.foldl (fun d p => d.set p.1 p.2) []

/-- `_decode`: `parse_qsl` with `keep_blank_values`. -/
def decode (raw : Text) : Assoc Text Text := dict ((fields raw).map fun field => (fieldName field, fieldValue field))

/-- `d == e`, of dictionaries. -/
def sameMapping (d e : Assoc Text Text) : Bool :=
  d.all (fun p => d.get p.1 = e.get p.1) && e.all (fun p => d.get p.1 = e.get p.1)

/-! ## Editing -/

/-- One turn of the first loop of `_reconcile`. -/
def keepField (query kept : Assoc Text Text) (rawField : Text) : Assoc Text Text :=
  match query.get (fieldName rawField) with
  | none => kept
  | some value =>
      let unchanged := (decode rawField).get (fieldName rawField) = some value
      (kept.del (fieldName rawField)).set (fieldName rawField)
        (if unchanged then rawField else renderField (fieldName rawField) value)

/-- One turn of the second. -/
def addField (kept : Assoc Text Text) (param : Text × Text) : Assoc Text Text :=
  if kept.has param.1 then kept else kept.set param.1 (renderField param.1 param.2)

/-- The fields that `_reconcile` has in the end, by name. -/
def entries (raw : Text) (query : Assoc Text Text) : Assoc Text Text :=
  query.foldl addField ((fields raw).foldl (keepField query) [])

/-- `_reconcile` -/
def reconcile (raw : Text) (query : Assoc Text Text) : Text := ['&'].intercalate ((entries raw query).map Prod.snd)

/-! ## Dictionaries -/

theorem sameMapping_iff {d e : Assoc Text Text} : sameMapping d e = true ↔ ∀ name, d.get name = e.get name := by
  rw [sameMapping, Bool.and_eq_true, List.all_eq_true, List.all_eq_true]
  constructor
  · rintro ⟨hd, he⟩ name
    cases hname : d.get name with
    | some value => rw [← hname]; exact of_decide_eq_true (hd _ (Assoc.mem_of_get hname))
    | none =>
      cases hother : e.get name with
      | none => rfl
      | some value =>
        have := of_decide_eq_true (he _ (Assoc.mem_of_get hother))
        rwa [hname, hother] at this
  · exact fun h => ⟨fun p _ => decide_eq_true (h p.1), fun p _ => decide_eq_true (h p.1)⟩

theorem get_dict_concat (pairs : List (Text × Text)) (p : Text × Text) (name : Text) :
    (dict (pairs ++ [p])).get name = if name = p.1 then some p.2 else (dict pairs).get name := by
  rw [dict, List.foldl_append, List.foldl_cons, List.foldl_nil, Assoc.get_set]
  rfl

/-- A key that no pair has. -/
theorem get_dict_of_not_mem {pairs : List (Text × Text)} {name : Text} (h : ∀ p ∈ pairs, p.1 ≠ name) :
    (dict pairs).get name = none := by
  induction pairs using List.reverseRecOn with
  | nil => rfl
  | append_singleton pairs p ih =>
    rw [get_dict_concat, if_neg fun heq => h p (List.mem_append_right _ (List.mem_singleton_self p)) heq.symm]
    exact ih fun q hq => h q (List.mem_append_left _ hq)

/-- A key that one pair has. -/
theorem get_dict_of_mem {pairs : List (Text × Text)} (hnodup : (pairs.map Prod.fst).Nodup) {name value : Text}
    (h : (name, value) ∈ pairs) : (dict pairs).get name = some value := by
  induction pairs using List.reverseRecOn with
  | nil => cases h
  | append_singleton pairs p ih =>
    rw [List.map_append, List.nodup_append] at hnodup
    obtain ⟨hpairs, -, hapart⟩ := hnodup
    rw [get_dict_concat]
    rcases List.mem_append.mp h with h | h
    · have hne : name ≠ p.1 := hapart _ (List.mem_map_of_mem h) _ (List.mem_singleton_self _)
      rw [if_neg hne]
      exact ih hpairs h
    · obtain rfl := List.mem_singleton.mp h
      exact if_pos rfl

/-! ## What a field decodes to -/

theorem mem_fields {raw field : Text} (h : field ∈ fields raw) : '&' ∉ field ∧ field ≠ [] :=
  ⟨Posix.not_mem_of_mem_splitOn (List.mem_of_mem_filter h), by simpa using List.of_mem_filter h⟩

theorem fields_singleton {field : Text} (h : '&' ∉ field ∧ field ≠ []) : fields field = [field] := by
  rw [fields, List.splitOn_eq_singleton h.1]
  exact List.filter_cons_of_pos (decide_eq_true h.2)

/-- Fields that are written next to one another are read as they were. -/
theorem fields_intercalate {items : List Text} (h : ∀ item ∈ items, '&' ∉ item ∧ item ≠ []) :
    fields (['&'].intercalate items) = items := splitOn_parts h

theorem get_decode_field {field : Text} (h : '&' ∉ field ∧ field ≠ []) :
    (decode field).get (fieldName field) = some (fieldValue field) := by
  rw [decode, fields_singleton h]
  exact if_pos rfl

theorem mem_quote_cgi {text : Text} {c : Char} (h : c ∈ quote CGI_SAFE text) : c ≠ '&' ∧ c ≠ '+' := by
  have hkind := (mem_quote h).2
  constructor <;> rintro rfl <;> exact absurd hkind (by decide)

/-- A rendered field is a field, and is not empty. -/
theorem renderField_amp (name value : Text) : '&' ∉ renderField name value ∧ renderField name value ≠ [] := by
  refine ⟨fun hmem => ?_, List.append_ne_nil_of_right_ne_nil _ (List.cons_ne_nil _ _)⟩
  rcases List.mem_append.mp hmem with hmem | hmem
  · exact (mem_quote_cgi hmem).1 rfl
  · rcases List.mem_cons.mp hmem with heq | hmem
    · exact absurd heq (by decide)
    · exact (mem_quote_cgi hmem).1 rfl

theorem unquotePlus_quote_cgi (text : Text) : unquotePlus (quote CGI_SAFE text) = text :=
  unquotePlus_quote (by decide) (by decide) text

theorem equals_not_mem_quote {text : Text} (h : '=' ∉ text) : '=' ∉ quote CGI_SAFE text :=
  fun hmem => h (mem_of_mem_quote (by decide) (by decide) hmem)

/-- A field that is rendered reads back, when its name has no equals sign. -/
theorem renderField_plain {name : Text} (h : '=' ∉ name) (value : Text) :
    fieldName (renderField name value) = name ∧ fieldValue (renderField name value) = value := by
  have hpart := partitionAt_append (equals_not_mem_quote h) (quote CGI_SAFE value)
  constructor
  · rw [fieldName, renderField, hpart, unquotePlus_quote_cgi]
  · rw [fieldValue, renderField, hpart, unquotePlus_quote_cgi]

/-- Otherwise its name is cut at the first one. -/
theorem fieldName_renderField (name value : Text) :
    fieldName (renderField name value) = (partitionAt '=' name).1 := by
  rcases partitionAt_cases '=' name with ⟨hnone, heq⟩ | ⟨head, tail, hhead, hname, heq⟩
  · rw [(renderField_plain hnone value).1, heq]
  · have hquote : quote CGI_SAFE ('=' :: tail) = '=' :: quote CGI_SAFE tail :=
      quote_append CGI_SAFE ['='] tail
    rw [heq, hname, fieldName, renderField, quote_append, hquote, List.append_assoc, List.cons_append,
      partitionAt_append (equals_not_mem_quote hhead), unquotePlus_quote_cgi]

/-! ## The last field of every name -/

/-- The fields whose name no later field has. -/
def lastOf : List Text → List Text
  | [] => []
  | field :: rest =>
      if rest.any (fun later => fieldName later = fieldName field) then lastOf rest else field :: lastOf rest

/-- One field more is the last of its name. -/
theorem lastOf_concat (items : List Text) (field : Text) :
    lastOf (items ++ [field]) = (lastOf items).filter (fun item => fieldName item ≠ fieldName field) ++ [field] := by
  induction items with
  | nil => rfl
  | cons item items ih =>
    rw [List.cons_append, lastOf, lastOf, ih, List.any_append]
    by_cases hname : fieldName item = fieldName field
    · rw [if_pos (by simp [hname])]
      split
      · rfl
      · rw [List.filter_cons_of_neg (by simp [hname])]
    · have hone : [field].any (fun later => fieldName later = fieldName item) = false := by
        simpa using fun h => hname h.symm
      rw [hone, Bool.or_false]
      split
      · rfl
      · rw [List.filter_cons_of_pos (by simpa using hname), List.cons_append]

theorem mem_of_mem_lastOf {items : List Text} {field : Text} (h : field ∈ lastOf items) : field ∈ items := by
  induction items with
  | nil => exact h
  | cons item items ih =>
    rw [lastOf] at h
    split at h
    · exact List.mem_cons_of_mem _ (ih h)
    · rcases List.mem_cons.mp h with rfl | h
      · exact List.mem_cons_self
      · exact List.mem_cons_of_mem _ (ih h)

theorem nodup_lastOf (items : List Text) : ((lastOf items).map fieldName).Nodup := by
  induction items using List.reverseRecOn with
  | nil => exact List.nodup_nil
  | append_singleton items field ih =>
    rw [lastOf_concat, List.map_append, List.nodup_append]
    refine ⟨(List.filter_sublist.map _).nodup ih, List.pairwise_singleton _ _, ?_⟩
    rintro a ha b hb rfl
    obtain ⟨item, hitem, rfl⟩ := List.mem_map.mp ha
    have hne : fieldName item ≠ fieldName field := by simpa using (List.mem_filter.mp hitem).2
    exact hne (List.mem_singleton.mp hb)

/-- What a text decodes to is what the last field of each name has. -/
theorem get_decode_iff (raw : Text) (name value : Text) : (decode raw).get name = some value ↔
    ∃ field ∈ lastOf (fields raw), fieldName field = name ∧ fieldValue field = value := by
  unfold decode
  induction fields raw using List.reverseRecOn with
  | nil => exact ⟨nofun, fun ⟨_, hmem, _⟩ => by cases hmem⟩
  | append_singleton items field ih =>
    rw [List.map_append, List.map_singleton, get_dict_concat, lastOf_concat]
    by_cases hname : name = fieldName field
    · rw [if_pos hname]
      constructor
      · intro h
        exact ⟨field, List.mem_append_right _ (List.mem_singleton_self _), hname.symm, Option.some.inj h⟩
      · rintro ⟨other, hother, hothername, rfl⟩
        rcases List.mem_append.mp hother with hother | hother
        · have hne : fieldName other ≠ fieldName field := by simpa using (List.mem_filter.mp hother).2
          exact absurd (hothername.trans hname) hne
        · rw [List.mem_singleton.mp hother]
    · rw [if_neg hname, ih]
      constructor
      · rintro ⟨other, hother, rfl, rfl⟩
        exact ⟨other, List.mem_append_left _ (List.mem_filter.mpr ⟨hother, decide_eq_true hname⟩), rfl, rfl⟩
      · rintro ⟨other, hother, hothername, rfl⟩
        rcases List.mem_append.mp hother with hother | hother
        · exact ⟨other, List.mem_of_mem_filter hother, hothername, rfl⟩
        · rw [List.mem_singleton.mp hother] at hothername
          exact absurd hothername.symm hname

/-! ## What is kept -/

/-- The field that the last one of a name becomes. -/
def chosen (query : Assoc Text Text) (field : Text) : Text :=
  match query.get (fieldName field) with
  | none => field
  | some value => if fieldValue field = value then field else renderField (fieldName field) value

/-- The first loop: of the last field of every name that stays, what it becomes. -/
theorem foldl_keepField (query : Assoc Text Text) {items : List Text} (h : ∀ item ∈ items, '&' ∉ item ∧ item ≠ []) :
    items.foldl (keepField query) [] = ((lastOf items).filter fun field => query.has (fieldName field)).map
      fun field => (fieldName field, chosen query field) := by
  induction items using List.reverseRecOn with
  | nil => rfl
  | append_singleton items field ih =>
    have hfield := h field (List.mem_append_right _ (List.mem_singleton_self _))
    have hitems := ih fun item hitem => h item (List.mem_append_left _ hitem)
    rw [List.foldl_append, hitems, List.foldl_cons, List.foldl_nil, lastOf_concat, List.filter_append, List.map_append,
      keepField]
    cases hget : query.get (fieldName field) with
    | none =>
      have hgone : query.has (fieldName field) = false := Assoc.has_eq_false.mpr hget
      have hothers : ((lastOf items).filter fun item => decide (fieldName item ≠ fieldName field)).filter
          (fun item => query.has (fieldName item)) = (lastOf items).filter fun item => query.has (fieldName item) := by
        rw [List.filter_filter]
        apply List.filter_congr
        intro item _
        by_cases hname : fieldName item = fieldName field
        · simp [hname, hgone]
        · simp [hname]
      rw [hothers, List.filter_cons_of_neg (p := fun field => query.has (fieldName field)) (by simp [hgone]), List.filter_nil, List.map_nil, List.append_nil]
    | some value =>
      have hstays : query.has (fieldName field) = true := Assoc.has_eq_true.mpr ⟨value, hget⟩
      have hchosen : chosen query field
          = if (decode field).get (fieldName field) = some value then field else renderField (fieldName field) value := by
        rw [chosen, hget, get_decode_field hfield]
        simp only [Option.some.injEq]
      rw [List.filter_cons_of_pos (p := fun field => query.has (fieldName field)) hstays, List.filter_nil,
        List.map_singleton, hchosen]
      simp only
      rw [Assoc.set_of_get_none (Assoc.get_del_self _ _), Assoc.del, List.filter_map, List.filter_filter,
        List.filter_filter]
      refine congrArg₂ (· ++ ·) (congrArg _ (List.filter_congr fun item _ => ?_)) rfl
      simp [Bool.and_comm]

/-- The second loop: what is new goes behind what is kept. -/
theorem foldl_addField (query kept : Assoc Text Text) : ∃ more, query.foldl addField kept = kept ++ more ∧
    (more.map Prod.fst).Nodup ∧ (∀ name, query.has name = true → kept.has name = true ∨ name ∈ more.map Prod.fst) ∧
    ∀ e ∈ more, kept.get e.1 = none ∧ ∃ value, query.get e.1 = some value ∧ e.2 = renderField e.1 value := by
  induction query generalizing kept with
  | nil => exact ⟨[], (List.append_nil _).symm, List.nodup_nil, fun _ h => by simp [Assoc.has] at h, nofun⟩
  | cons param query ih =>
    obtain ⟨name, value⟩ := param
    rw [List.foldl_cons, addField]
    split
    · next hhas =>
      obtain ⟨more, heq, hnodup, hall, hmore⟩ := ih kept
      refine ⟨more, heq, hnodup, fun other hother => ?_, fun e he => ?_⟩
      · rw [Assoc.has, Assoc.get_cons] at hother
        split at hother
        · next hname => exact .inl (hname ▸ hhas)
        · exact hall other hother
      · obtain ⟨hnone, hvalue⟩ := hmore e he
        have hne : e.1 ≠ name := by
          intro hname
          rw [Assoc.has, ← hname, hnone] at hhas
          cases hhas
        rw [Assoc.get_cons, if_neg hne]
        exact ⟨hnone, hvalue⟩
    · next hhas =>
      have hnone : kept.get name = none := Assoc.has_eq_false.mp (Bool.eq_false_iff.mpr hhas)
      obtain ⟨more, heq, hnodup, hall, hmore⟩ := ih (kept.set name (renderField name value))
      have hne : ∀ e ∈ more, e.1 ≠ name := by
        intro e he hname
        have hfree := (hmore e he).1
        rw [hname, Assoc.get_set_self] at hfree
        cases hfree
      refine ⟨(name, renderField name value) :: more, ?_, ?_, fun other hother => ?_, fun e he => ?_⟩
      · rw [heq, Assoc.set_of_get_none hnone, List.append_assoc, List.singleton_append]
      · refine List.nodup_cons.mpr ⟨fun hmem => ?_, hnodup⟩
        obtain ⟨e, he, hname⟩ := List.mem_map.mp hmem
        exact hne e he hname
      · rw [Assoc.has, Assoc.get_cons] at hother
        by_cases hname : other = name
        · exact .inr (hname ▸ List.mem_cons_self)
        · rw [if_neg hname] at hother
          rcases hall other hother with hkept | hnew
          · rw [Assoc.has, Assoc.get_set_of_ne _ _ hname] at hkept
            exact .inl hkept
          · exact .inr (List.mem_cons_of_mem _ hnew)
      · rcases List.mem_cons.mp he with rfl | he
        · exact ⟨hnone, value, by rw [Assoc.get_cons, if_pos rfl], rfl⟩
        · obtain ⟨hfree, hvalue⟩ := hmore e he
          rw [Assoc.get_set_of_ne _ _ (hne e he)] at hfree
          rw [Assoc.get_cons, if_neg (hne e he)]
          exact ⟨hfree, hvalue⟩

/-! ## What comes out -/

/-- A field of the edited text, under its name: one that is as it was written, and has the value
it should have; or one that is rendered, since the text has no such value. -/
inductive Entry (raw : Text) (query : Assoc Text Text) : Text × Text → Prop where
  | asWritten {field : Text} (last : field ∈ lastOf (fields raw))
      (value : query.get (fieldName field) = some (fieldValue field)) : Entry raw query (fieldName field, field)
  | rendered {name value : Text} (value_ : query.get name = some value) (new : (decode raw).get name ≠ some value) :
      Entry raw query (name, renderField name value)

/-- Every parameter with an equals sign in its name is in the text already. -/
def Renderable (raw : Text) (query : Assoc Text Text) : Prop :=
  ∀ name value, query.get name = some value → '=' ∈ name → (decode raw).get name = some value

section

variable {raw : Text} {query : Assoc Text Text}

/-- The field that the last one of its name becomes. -/
theorem entry_chosen {field : Text} (h : field ∈ lastOf (fields raw)) (hstays : query.has (fieldName field) = true) :
    Entry raw query (fieldName field, chosen query field) := by
  obtain ⟨value, hvalue⟩ := Assoc.has_eq_true.mp hstays
  rw [chosen, hvalue]
  simp only
  split
  · next heq => exact .asWritten h (heq ▸ hvalue)
  · next hne =>
    refine .rendered hvalue fun hold => ?_
    rw [(get_decode_iff raw _ _).mpr ⟨field, h, rfl, rfl⟩] at hold
    exact hne (Option.some.inj hold)

/-- The fields of the edited text: those that the last ones of the names that stay become, and
behind them those of new names. -/
theorem entries_eq (raw : Text) (query : Assoc Text Text) : ∃ more,
    entries raw query = ((lastOf (fields raw)).filter fun field => query.has (fieldName field)).map
      (fun field => (fieldName field, chosen query field)) ++ more ∧
    ((entries raw query).map Prod.fst).Nodup ∧
    (∀ name, query.has name = true → name ∈ (entries raw query).map Prod.fst) ∧
    ∀ e ∈ more, (decode raw).get e.1 = none ∧ ∃ value, query.get e.1 = some value ∧ e.2 = renderField e.1 value := by
  have hkept := @foldl_keepField query (fields raw) fun item => mem_fields
  obtain ⟨more, heq, hnodup, hall, hmore⟩ := foldl_addField query ((fields raw).foldl (keepField query) [])
  have hnone : ∀ e ∈ more, (decode raw).get e.1 = none := by
    intro e he
    obtain ⟨hfree, value, hvalue, -⟩ := hmore e he
    by_contra hsome
    obtain ⟨old, hold⟩ := Option.ne_none_iff_exists'.mp hsome
    obtain ⟨field, hfield, hname, -⟩ := (get_decode_iff raw _ _).mp hold
    have hhas : query.has (fieldName field) = true := Assoc.has_eq_true.mpr ⟨value, hname ▸ hvalue⟩
    have hmem := List.mem_map_of_mem (f := fun field => (fieldName field, chosen query field))
      ((List.mem_filter (p := fun field => query.has (fieldName field))).mpr ⟨hfield, hhas⟩)
    rw [← hkept] at hmem
    have := Assoc.has_of_mem hmem
    rw [hname, Assoc.has, hfree] at this
    cases this
  refine ⟨more, by rw [← hkept]; exact heq, ?_, fun name hname => ?_, fun e he => ⟨hnone e he, (hmore e he).2⟩⟩
  · rw [entries, heq, List.map_append, List.nodup_append]
    refine ⟨?_, hnodup, ?_⟩
    · rw [hkept, List.map_map]
      exact (List.filter_sublist.map _).nodup (nodup_lastOf _)
    · rintro a ha b hb rfl
      obtain ⟨e, he, rfl⟩ := List.mem_map.mp hb
      have := Assoc.mem_keys_iff.mp ha
      rw [Assoc.has, (hmore e he).1] at this
      cases this
  · rw [entries, heq, List.map_append, List.mem_append]
    exact (hall name hname).imp Assoc.mem_keys_iff.mpr id

theorem entry_of_mem {e : Text × Text} (h : e ∈ entries raw query) : Entry raw query e := by
  obtain ⟨more, heq, -, -, hmore⟩ := entries_eq raw query
  rw [heq] at h
  rcases List.mem_append.mp h with h | h
  · obtain ⟨field, hfield, rfl⟩ := List.mem_map.mp h
    exact entry_chosen (List.mem_of_mem_filter hfield) (List.of_mem_filter (p := fun field => query.has _) hfield)
  · obtain ⟨hnone, value, hvalue, hrendered⟩ := hmore e h
    obtain ⟨name, field⟩ := e
    obtain rfl : field = renderField name value := hrendered
    exact .rendered hvalue (by rw [hnone]; nofun)

theorem Entry.amp {e : Text × Text} (h : Entry raw query e) : '&' ∉ e.2 ∧ e.2 ≠ [] := by
  cases h with
  | asWritten last => exact mem_fields (mem_of_mem_lastOf last)
  | rendered => exact renderField_amp _ _

/-- An entry reads back, if names with an equals sign need not be rendered. -/
theorem Entry.reads (hrenderable : Renderable raw query) {e : Text × Text} (h : Entry raw query e) :
    fieldName e.2 = e.1 ∧ query.get e.1 = some (fieldValue e.2) := by
  cases h with
  | asWritten last value => exact ⟨rfl, value⟩
  | @rendered name value hvalue hnew =>
    have hplain : '=' ∉ name := fun hmem => hnew (hrenderable name value hvalue hmem)
    obtain ⟨hname, hread⟩ := renderField_plain hplain value
    exact ⟨hname, hread.symm ▸ hvalue⟩

theorem fields_reconcile (raw : Text) (query : Assoc Text Text) :
    fields (reconcile raw query) = (entries raw query).map Prod.snd := by
  apply fields_intercalate
  intro item hitem
  obtain ⟨e, he, rfl⟩ := List.mem_map.mp hitem
  exact (entry_of_mem he).amp

/-- The edited text decodes to the query, exactly if names with an equals sign need not be
rendered. -/
theorem decode_reconcile_iff (raw : Text) (query : Assoc Text Text) :
    (∀ name, (decode (reconcile raw query)).get name = query.get name) ↔ Renderable raw query := by
  have hdecode : decode (reconcile raw query)
      = dict ((entries raw query).map fun e => (fieldName e.2, fieldValue e.2)) := by
    rw [decode, fields_reconcile, List.map_map]
    rfl
  obtain ⟨-, -, hnodup, hall, -⟩ := entries_eq raw query
  constructor
  · intro hstep name value hvalue hequals
    by_contra hnew
    have hnone : (decode (reconcile raw query)).get name = none := by
      rw [hdecode]
      apply get_dict_of_not_mem
      rintro p hp rfl
      obtain ⟨e, he, rfl⟩ := List.mem_map.mp hp
      cases entry_of_mem he with
      | @asWritten field last hfield =>
        have hsame := hvalue.symm.trans hfield
        exact hnew ((get_decode_iff raw _ _).mpr ⟨field, last, rfl, (Option.some.inj hsame).symm⟩)
      | @rendered other otherValue _ _ =>
        -- it is cut at its first equals sign
        simp only [fieldName_renderField] at hequals
        rcases partitionAt_cases '=' other with ⟨hfree, heq⟩ | ⟨head, tail, hfree, -, heq⟩
        · rw [heq] at hequals
          exact hfree hequals
        · rw [heq] at hequals
          exact hfree hequals
    rw [hstep, hvalue] at hnone
    cases hnone
  · intro hrenderable name
    have hreads : ∀ e ∈ entries raw query, fieldName e.2 = e.1 ∧ query.get e.1 = some (fieldValue e.2) :=
      fun e he => (entry_of_mem he).reads hrenderable
    have hkeys : ((entries raw query).map fun e => (fieldName e.2, fieldValue e.2)).map Prod.fst
        = (entries raw query).map Prod.fst := by
      rw [List.map_map]
      exact List.map_congr_left fun e he => (hreads e he).1
    rw [hdecode]
    cases hget : query.get name with
    | some value =>
      obtain ⟨e, he, rfl⟩ := List.mem_map.mp (hall name (Assoc.has_eq_true.mpr ⟨value, hget⟩))
      apply get_dict_of_mem (hkeys ▸ hnodup)
      refine List.mem_map.mpr ⟨e, he, ?_⟩
      rw [(hreads e he).1, Option.some.inj (hget.symm.trans (hreads e he).2)]
    | none =>
      apply get_dict_of_not_mem
      rintro p hp rfl
      obtain ⟨e, he, rfl⟩ := List.mem_map.mp hp
      rw [(hreads e he).1, (hreads e he).2] at hget
      cases hget

/-- A field whose parameter the query leaves as the text has it. -/
def untouched (raw : Text) (query : Assoc Text Text) (field : Text) : Bool :=
  query.get (fieldName field) = (decode raw).get (fieldName field)

theorem lastOf_of_nodup {items : List Text} (h : (items.map fieldName).Nodup) : lastOf items = items := by
  induction items with
  | nil => rfl
  | cons item items ih =>
    obtain ⟨hnew, hrest⟩ := List.nodup_cons.mp h
    have hnone : items.any (fun later => fieldName later = fieldName item) = false := by
      rw [List.any_eq_false]
      intro later hlater hname
      exact hnew (List.mem_map.mpr ⟨later, hlater, of_decide_eq_true hname⟩)
    rw [lastOf, hnone, ih hrest]
    rfl

/-- What is untouched keeps its bytes and its order. -/
theorem untouched_reconcile (hrenderable : Renderable raw query) :
    (lastOf (fields (reconcile raw query))).filter (untouched raw query)
      = (lastOf (fields raw)).filter (untouched raw query) := by
  obtain ⟨more, heq, hnodup, -, hmore⟩ := entries_eq raw query
  have hname : ∀ e ∈ entries raw query, fieldName e.2 = e.1 :=
    fun e he => ((entry_of_mem he).reads hrenderable).1
  have hdistinct : (((entries raw query).map Prod.snd).map fieldName).Nodup := by
    rw [List.map_map, List.map_congr_left (f := fieldName ∘ Prod.snd) (g := Prod.fst) hname]
    exact hnodup
  have hnew : (more.map Prod.snd).filter (untouched raw query) = [] := by
    refine List.filter_eq_nil_iff.mpr fun field hfield hsame => ?_
    obtain ⟨e, he, rfl⟩ := List.mem_map.mp hfield
    obtain ⟨hnone, value, hvalue, -⟩ := hmore e he
    have hmem : e ∈ entries raw query := heq ▸ List.mem_append_right _ he
    have hsame := of_decide_eq_true hsame
    rw [hname e hmem, hvalue, hnone] at hsame
    cases hsame
  -- of the last fields, those that are untouched stay, and become themselves
  have hold : ∀ field ∈ lastOf (fields raw), query.has (fieldName field) = true →
      fieldName (chosen query field) = fieldName field :=
    fun field hfield hstays => ((entry_chosen hfield hstays).reads hrenderable).1
  have hstay : ∀ field ∈ lastOf (fields raw), untouched raw query field = true →
      query.get (fieldName field) = some (fieldValue field) := fun field hfield hsame =>
    (of_decide_eq_true hsame).trans ((get_decode_iff raw _ _).mpr ⟨field, hfield, rfl, rfl⟩)
  rw [fields_reconcile, lastOf_of_nodup hdistinct, heq, List.map_append, List.filter_append, hnew, List.append_nil,
    List.map_map, List.filter_map, List.filter_filter]
  have hsame : (lastOf (fields raw)).filter (fun field => (untouched raw query ∘
      (Prod.snd ∘ fun field => (fieldName field, chosen query field))) field && query.has (fieldName field))
      = (lastOf (fields raw)).filter (untouched raw query) := by
    apply List.filter_congr
    intro field hfield
    by_cases hhas : query.has (fieldName field) = true
    · simp only [Function.comp_apply, untouched, hold field hfield hhas, hhas, Bool.and_true]
    · have hgone : untouched raw query field = false := Bool.eq_false_iff.mpr fun hsame =>
        hhas (Assoc.has_eq_true.mpr ⟨_, hstay field hfield hsame⟩)
      rw [hgone, Bool.eq_false_iff.mpr hhas, Bool.and_false]
  rw [hsame]
  refine (List.map_congr_left (g := id) fun field hfield => ?_).trans (List.map_id _)
  obtain ⟨hlast, huntouched⟩ := List.mem_filter.mp hfield
  simp only [Function.comp_apply, chosen, hstay field hlast huntouched, if_true, id_eq]

end

end XrdClient.Urls
