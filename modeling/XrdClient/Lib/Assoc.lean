/-
  Lib/Assoc.lean --- a dictionary that remembers its insertion order.

  The built-in dictionary of the source language: `set` on a key that is
  present replaces the value where it stands, on a new key appends; iteration
  follows that order.
-/
import Mathlib

set_option autoImplicit false

namespace XrdClient.Lib

/-- An insertion-ordered dictionary. -/
abbrev Assoc (κ α : Type) : Type := List (κ × α)

namespace Assoc

variable {κ α : Type} [DecidableEq κ]

/-- `d.get(k)`. -/
def get : Assoc κ α → κ → Option α
  | [], _ => none
  | (k', v) :: d, k => if k = k' then some v else get d k

/-- `d[k] = v`. -/
def set : Assoc κ α → κ → α → Assoc κ α
  | [], k, v => [(k, v)]
  | (k', v') :: d, k, v => if k = k' then (k, v) :: d else (k', v') :: set d k v

/-- `d.pop(k, None)`, or `del d[k]`. -/
def del (d : Assoc κ α) (k : κ) : Assoc κ α := d.filter (fun p => p.1 ≠ k)

/-- `k in d`. -/
def has (d : Assoc κ α) (k : κ) : Bool := (d.get k).isSome

@[simp] theorem get_nil (k : κ) : get ([] : Assoc κ α) k = none := rfl

theorem get_cons (k k' : κ) (v : α) (d : Assoc κ α) :
    get ((k', v) :: d) k = if k = k' then some v else get d k := rfl

theorem set_nil (k : κ) (v : α) : set ([] : Assoc κ α) k v = [(k, v)] := rfl

theorem set_cons (k k' : κ) (v v' : α) (d : Assoc κ α) :
    set ((k', v') :: d) k v = if k = k' then (k, v) :: d else (k', v') :: set d k v := rfl

@[simp] theorem get_set_self (d : Assoc κ α) (k : κ) (v : α) : get (set d k v) k = some v := by
  induction d with
  | nil => simp [set_nil, get_cons]
  | cons p d ih =>
    obtain ⟨k', v'⟩ := p
    by_cases h : k = k'
    · simp [set_cons, h, get_cons]
    · simp [set_cons, h, get_cons, ih]

theorem get_set_of_ne (d : Assoc κ α) {k j : κ} (v : α) (h : j ≠ k) :
    get (set d k v) j = get d j := by
  induction d with
  | nil => simp [set_nil, get_cons, h]
  | cons p d ih =>
    obtain ⟨k', v'⟩ := p
    by_cases hk : k = k'
    · subst hk
      simp [set_cons, get_cons, h]
    · simp [set_cons, hk, get_cons, ih]

theorem get_set (d : Assoc κ α) (k j : κ) (v : α) :
    get (set d k v) j = if j = k then some v else get d j := by
  by_cases h : j = k
  · subst h; simp
  · simp [h, get_set_of_ne d v h]

/-- Only the last of two writes to a key stays. -/
@[simp] theorem set_set (d : Assoc κ α) (k : κ) (v w : α) : set (set d k v) k w = set d k w := by
  induction d with
  | nil => simp [set_nil, set_cons]
  | cons p d ih =>
    obtain ⟨k', v'⟩ := p
    by_cases h : k = k'
    · simp [set_cons, h]
    · simp [set_cons, h, ih]

@[simp] theorem get_del_self (d : Assoc κ α) (k : κ) : get (del d k) k = none := by
  induction d with
  | nil => rfl
  | cons p d ih =>
    obtain ⟨k', v'⟩ := p
    unfold del at ih ⊢
    by_cases h : k' = k
    · simpa [h] using ih
    · have h' : k ≠ k' := fun e => h e.symm
      simpa [h, get_cons, h'] using ih

theorem get_del_of_ne (d : Assoc κ α) {k j : κ} (h : j ≠ k) : get (del d k) j = get d j := by
  induction d with
  | nil => rfl
  | cons p d ih =>
    obtain ⟨k', v'⟩ := p
    unfold del at ih ⊢
    by_cases hk : k' = k
    · subst hk
      simpa [get_cons, h] using ih
    · simp only [ne_eq, hk, not_false_eq_true, decide_true, List.filter_cons_of_pos, get_cons]
      rw [ih]

theorem get_del (d : Assoc κ α) (k j : κ) :
    get (del d k) j = if j = k then none else get d j := by
  by_cases h : j = k
  · subst h; simp
  · simp [h, get_del_of_ne d h]

/-- Removing a key forgets what was written to it. -/
theorem del_set (d : Assoc κ α) (k : κ) (v : α) : del (set d k v) k = del d k := by
  induction d with
  | nil => simp [set_nil, del]
  | cons p d ih =>
    obtain ⟨k', v'⟩ := p
    unfold del at ih ⊢
    by_cases h : k = k'
    · simp [set_cons, h]
    · simp only [set_cons, h, if_false, List.filter_cons, ih]

theorem has_eq_true {d : Assoc κ α} {k : κ} : d.has k = true ↔ ∃ v, d.get k = some v := by
  simp [has, Option.isSome_iff_exists]

theorem has_eq_false {d : Assoc κ α} {k : κ} : d.has k = false ↔ d.get k = none := by
  simp [has]

/-- A key that is found is among the entries. -/
theorem mem_of_get {d : Assoc κ α} {k : κ} {v : α} (h : d.get k = some v) : (k, v) ∈ d := by
  induction d with
  | nil => simp at h
  | cons p d ih =>
    obtain ⟨k', v'⟩ := p
    rw [get_cons] at h
    by_cases hk : k = k'
    · simp only [hk, if_true, Option.some.injEq] at h
      simp [hk, h]
    · simp only [hk, if_false] at h
      exact List.mem_cons_of_mem _ (ih h)

/-! ### Every key once -/

theorem nodup_del {d : Assoc κ α} (h : (d.map Prod.fst).Nodup) (k : κ) :
    ((del d k).map Prod.fst).Nodup :=
  (List.filter_sublist.map Prod.fst).nodup h

/-- What is among the entries after a write. -/
theorem mem_of_mem_set {d : Assoc κ α} {k : κ} {v : α} {p : κ × α} (h : p ∈ set d k v) :
    p = (k, v) ∨ p ∈ d := by
  induction d with
  | nil => exact .inl (by simpa [set_nil] using h)
  | cons q d ih =>
    obtain ⟨k', v'⟩ := q
    by_cases hk : k = k'
    · simp only [set_cons, hk, if_true, List.mem_cons] at h ⊢
      exact h.imp id .inr
    · simp only [set_cons, hk, if_false, List.mem_cons] at h ⊢
      rcases h with rfl | h
      · exact .inr (.inl rfl)
      · exact (ih h).imp id .inr

theorem mem_keys_set {d : Assoc κ α} {k j : κ} {v : α} (h : j ∈ (set d k v).map Prod.fst) :
    j = k ∨ j ∈ d.map Prod.fst := by
  induction d with
  | nil => exact .inl (by simpa [set_nil] using h)
  | cons p d ih =>
    obtain ⟨k', v'⟩ := p
    by_cases hk : k = k'
    · simp only [set_cons, hk, if_true, List.map_cons, List.mem_cons] at h ⊢
      exact h.imp id .inr
    · simp only [set_cons, hk, if_false, List.map_cons, List.mem_cons] at h ⊢
      obtain rfl | hmem := h
      · exact .inr (.inl rfl)
      · exact (ih hmem).imp id .inr

theorem nodup_set {d : Assoc κ α} (h : (d.map Prod.fst).Nodup) (k : κ) (v : α) :
    ((set d k v).map Prod.fst).Nodup := by
  induction d with
  | nil => simp [set_nil]
  | cons p d ih =>
    obtain ⟨k', v'⟩ := p
    obtain ⟨hnew, hrest⟩ := List.nodup_cons.mp h
    by_cases hk : k = k'
    · subst hk
      simp only [set_cons, if_true, List.map_cons]
      exact List.nodup_cons.mpr ⟨hnew, hrest⟩
    · simp only [set_cons, hk, if_false, List.map_cons]
      refine List.nodup_cons.mpr ⟨fun hmem => ?_, ih hrest⟩
      obtain heq | hold := mem_keys_set hmem
      · exact hk heq.symm
      · exact hnew hold

theorem has_of_mem {d : Assoc κ α} {k : κ} {v : α} (h : (k, v) ∈ d) : d.has k = true := by
  induction d with
  | nil => cases h
  | cons p d ih =>
    obtain ⟨k', v'⟩ := p
    by_cases hk : k = k'
    · simp [has, get_cons, hk]
    · have hmem : (k, v) ∈ d := by
        rcases List.mem_cons.mp h with heq | hmem
        · exact absurd (congrArg Prod.fst heq) hk
        · exact hmem
      have := ih hmem
      simpa [has, get_cons, hk] using this

theorem mem_keys_iff {d : Assoc κ α} {k : κ} : k ∈ d.map Prod.fst ↔ d.has k = true := by
  constructor
  · intro h
    obtain ⟨p, hp, rfl⟩ := List.mem_map.mp h
    exact has_of_mem hp
  · intro h
    obtain ⟨v, hv⟩ := has_eq_true.mp h
    exact List.mem_map.mpr ⟨_, mem_of_get hv, rfl⟩

theorem get_of_mem {d : Assoc κ α} (h : (d.map Prod.fst).Nodup) {k : κ} {v : α}
    (hmem : (k, v) ∈ d) : d.get k = some v := by
  induction d with
  | nil => cases hmem
  | cons p d ih =>
    obtain ⟨k', v'⟩ := p
    obtain ⟨hnew, hrest⟩ := List.nodup_cons.mp h
    rcases List.mem_cons.mp hmem with heq | hold
    · obtain ⟨rfl, rfl⟩ := Prod.mk.inj heq
      simp [get_cons]
    · have hne : k ≠ k' := by
        rintro rfl
        exact hnew (List.mem_map.mpr ⟨_, hold, rfl⟩)
      rw [get_cons, if_neg hne]
      exact ih hrest hold

/-- The entries under one key. -/
theorem filter_key {d : Assoc κ α} (h : (d.map Prod.fst).Nodup) {k : κ} {v : α}
    (hget : d.get k = some v) : (d.filter fun p => p.1 = k) = [(k, v)] := by
  induction d with
  | nil => simp at hget
  | cons p d ih =>
    obtain ⟨k', v'⟩ := p
    obtain ⟨hnew, hrest⟩ := List.nodup_cons.mp h
    rw [get_cons] at hget
    by_cases hk : k = k'
    · subst hk
      have hnone : (d.filter fun p => p.1 = k) = [] := by
        refine List.filter_eq_nil_iff.mpr fun p hp hpk => hnew ?_
        simp only [decide_eq_true_eq] at hpk
        exact List.mem_map.mpr ⟨p, hp, hpk⟩
      simp only [if_true, Option.some.injEq] at hget
      simp [hnone, hget]
    · have hne : k' ≠ k := fun e => hk e.symm
      simp only [hk, if_false] at hget
      simp [hne, ih hrest hget]

/-- A write to a new key is at the end. -/
theorem set_of_get_none {d : Assoc κ α} {k : κ} (h : d.get k = none) (v : α) :
    set d k v = d ++ [(k, v)] := by
  induction d with
  | nil => rfl
  | cons p d ih =>
    obtain ⟨k', v'⟩ := p
    have hne : k ≠ k' := by
      rintro rfl
      simp [get_cons] at h
    rw [get_cons, if_neg hne] at h
    simp only [set_cons, if_neg hne, ih h, List.cons_append]

/-- A key that is not there is nothing to remove. -/
theorem del_of_not_mem {d : Assoc κ α} {k : κ} (h : k ∉ d.map Prod.fst) : del d k = d := by
  refine List.filter_eq_self.mpr fun p hp => ?_
  have hne : p.1 ≠ k := by
    rintro rfl
    exact h (List.mem_map_of_mem hp)
  simp [hne]

/-- The entries are the one under a key, and the others. -/
theorem perm_del {d : Assoc κ α} (h : (d.map Prod.fst).Nodup) {k : κ} {v : α}
    (hget : d.get k = some v) : d.Perm ((k, v) :: del d k) := by
  induction d with
  | nil => cases hget
  | cons p d ih =>
    obtain ⟨k', v'⟩ := p
    obtain ⟨hnew, hrest⟩ := List.nodup_cons.mp h
    rw [get_cons] at hget
    by_cases hk : k = k'
    · subst hk
      rw [if_pos rfl, Option.some.injEq] at hget
      subst hget
      have : del ((k, v') :: d) k = d := by
        rw [← del_of_not_mem hnew]
        simp [del]
      rw [this]
    · rw [if_neg hk] at hget
      have hdel : del ((k', v') :: d) k = (k', v') :: del d k := by
        have hne : k' ≠ k := fun e => hk e.symm
        simp [del, hne]
      rw [hdel]
      exact ((ih hrest hget).cons _).trans (List.Perm.swap _ _ _)

/-- Nothing is there, under any key. -/
theorem eq_nil_of_get {d : Assoc κ α} (h : ∀ k, d.get k = none) : d = [] := by
  cases d with
  | nil => rfl
  | cons p d =>
    have := h p.1
    rw [show p :: d = (p.1, p.2) :: d from rfl, get_cons, if_pos rfl] at this
    cases this

end Assoc

end XrdClient.Lib
