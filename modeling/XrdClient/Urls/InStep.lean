/-
  Urls/InStep.lean --- the CGI text of a URL and its query, through any edits.

  Source: `url.py`, `__post_init__`, `evolve` and `with_query`.

  A URL has its CGI twice, and is only ever made by `__post_init__`, which renders what the
  text does not say.  So whether the two are in step is decided at the last step alone
  (`inStep_init_iff`); what was rendered cannot be told from what was parsed.

  A parameter is an entry of the query, and its bytes are the last field of its name: of
  repeated names, an edit drops the earlier fields.
-/
import XrdClient.Urls.Text

set_option autoImplicit false

namespace XrdClient.Urls

open XrdClient.Lib

namespace XRootDURL

/-- The text decodes to the query. -/
def InStep (u : XRootDURL) : Prop := ∀ name, (decode u.rawQuery).get name = u.query.get name

/-- A step from one URL to another. -/
inductive Edit where
  | evolve (changes : Changes)
  | withQuery (params : Assoc Text (Option Text))
  deriving DecidableEq

/-- What is handed to `__post_init__`. -/
def drafted (u : XRootDURL) : Edit → XRootDURL
  | .evolve changes => u.replaced changes
  | .withQuery params => { u with query := u.merged params }

/-- The edit does not put another CGI text in place of the one that is there. -/
def Edit.KeepsText : Edit → Prop
  | .evolve changes => changes.rawQuery = none
  | .withQuery _ => True

/-- What an edit from `u` to `v` does not touch.  A parameter that both have, with one value,
keeps its bytes and its order among the others; and all the text is kept if all of them do. -/
structure Untouched (u v : XRootDURL) : Prop where
  each : (lastOf (fields v.rawQuery)).filter (fun field => v.query.get (fieldName field) = u.query.get (fieldName field))
    = (lastOf (fields u.rawQuery)).filter (fun field => v.query.get (fieldName field) = u.query.get (fieldName field))
  all : (∀ name, v.query.get name = u.query.get name) → v.rawQuery = u.rawQuery

section

variable (lower abspath : Text → Text) (int : Text → Option Int)

/-- `evolve` and `with_query`. -/
def edit (u : XRootDURL) (e : Edit) : XRootDURL := (u.drafted e).init lower

/-- The URLs that parsing, constructing and editing come to, as long as no name with an equals
sign has to be rendered. -/
inductive Reached : XRootDURL → Prop where
  | parsed {text : Text} {u : XRootDURL} (h : parse lower abspath int text = .ok u) : Reached u
  | constructed (u : XRootDURL) (h : Renderable u.rawQuery u.query) : Reached (u.init lower)
  | edited {u : XRootDURL} (hu : Reached u) (e : Edit) (h : Renderable (u.drafted e).rawQuery (u.drafted e).query) :
      Reached (u.edit lower e)

/-- A URL is in step, exactly if no name with an equals sign had to be rendered. -/
theorem inStep_init_iff (u : XRootDURL) : (u.init lower).InStep ↔ Renderable u.rawQuery u.query := by
  have hraw : (u.init lower).rawQuery
      = if sameMapping (decode u.rawQuery) u.query then u.rawQuery else reconcile u.rawQuery u.query := rfl
  unfold InStep
  rw [hraw]
  split
  · next hsame =>
    have hsame := sameMapping_iff.mp hsame
    exact ⟨fun _ name value hvalue _ => (hsame name).trans hvalue, fun _ => hsame⟩
  · exact decode_reconcile_iff u.rawQuery u.query

theorem inStep_fileUrl (path : Text) : (fileUrl lower path).InStep :=
  (inStep_init_iff lower _).mpr nofun

theorem inStep_parse {text : Text} {u : XRootDURL} (h : parse lower abspath int text = .ok u) : u.InStep := by
  rcases parse_ok lower abspath int h with ⟨path, -, rfl⟩ | ⟨_, _, _, _, _, _, _, _, _, -, -, -, -, -, rfl⟩
  · exact inStep_fileUrl lower path
  · exact (inStep_init_iff lower _).mpr fun name value hvalue _ => hvalue

variable {lower abspath int}

theorem Reached.inStep {u : XRootDURL} (h : Reached lower abspath int u) : u.InStep := by
  cases h with
  | parsed h => exact inStep_parse lower abspath int h
  | constructed u h => exact (inStep_init_iff lower u).mpr h
  | edited hu e h => exact (inStep_init_iff lower _).mpr h

/-- One edit of a URL that is in step. -/
theorem InStep.edit {u : XRootDURL} (hu : u.InStep) {e : Edit} (htext : e.KeepsText)
    (h : Renderable (u.drafted e).rawQuery (u.drafted e).query) : Untouched u (u.edit lower e) := by
  have hkept : (u.drafted e).rawQuery = u.rawQuery := by
    cases e with
    | evolve changes => exact congrArg (·.getD u.rawQuery) htext
    | withQuery params => rfl
  have hraw : (u.edit lower e).rawQuery = if sameMapping (decode u.rawQuery) (u.drafted e).query then u.rawQuery
      else reconcile u.rawQuery (u.drafted e).query := by
    rw [← hkept]
    rfl
  have hquery : (u.edit lower e).query = (u.drafted e).query := rfl
  rw [hkept] at h
  refine ⟨?_, fun hsame => ?_⟩
  · have hpred : (fun field => decide ((u.edit lower e).query.get (fieldName field) = u.query.get (fieldName field)))
        = untouched u.rawQuery (u.drafted e).query := by
      funext field
      rw [untouched, hquery, hu]
    rw [hpred, hraw]
    split
    · rfl
    · exact untouched_reconcile h
  · rw [hraw, if_pos]
    exact sameMapping_iff.mpr fun name => (hu name).trans (hsame name).symm

variable (lower abspath int)

/-- The CGI text and the query stay in step.  A URL comes out in step exactly if no name with
an equals sign had to be rendered for it.  So in a run of parsing, constructing and editing that
renders no such name, every URL is in step; and what an edit does not touch keeps its bytes
and its order. -/
theorem stays_in_step :
    (∀ u : XRootDURL, (u.init lower).InStep ↔ Renderable u.rawQuery u.query) ∧
    ∀ u, Reached lower abspath int u → u.InStep ∧
      ∀ e : Edit, e.KeepsText → Renderable (u.drafted e).rawQuery (u.drafted e).query → Untouched u (u.edit lower e) :=
  ⟨inStep_init_iff lower, fun _ hu => ⟨hu.inStep, fun _ htext h => hu.inStep.edit htext h⟩⟩

end

/-- `parse("root://h//f")` -/
def plain : XRootDURL := { host := "h".toList, path := "/f".toList }

/-- A parameter whose name has an equals sign is another one when it is read again. -/
theorem name_with_equals : parse Session.lower id (fun _ => none) "root://h//f".toList = .ok plain ∧
    let edited := plain.edit Session.lower (.withQuery [("a=b".toList, some "c".toList)])
    edited.query = [("a=b".toList, "c".toList)] ∧ edited.rawQuery = "a=b=c".toList ∧
    decode edited.rawQuery = [("a".toList, "b=c".toList)] ∧ ¬ edited.InStep := by
  refine ⟨by decide, by decide, by decide, by decide, fun h => ?_⟩
  exact absurd (h "a=b".toList) (by decide)

end XRootDURL

end XrdClient.Urls
