/-
  Lib/Filed.lean --- values filed under keys, and claimed from there one at a time.

  Values under one key come out in the order they went in, and the last one stays where it is:
  a key that has had a value always has one.  So what a claim gets depends only on the order of
  the values of its own key, and a value can come out at another claim of that key than the
  one it was meant for.

  Where no claim gets more than it asks for, and what is filed under each key is no less, in
  all, than what is asked for under it, each claim gets as much as it asks for
  (`claimed_in_full`).
-/
import XrdClient.Lib.Assoc

set_option autoImplicit false

namespace XrdClient.Lib

variable {κ α : Type} [DecidableEq κ]

/-! ## Filing -/

/-- `d.setdefault(k, []).append(v)` -/
def fileOne (d : Assoc κ (List α)) (item : κ × α) : Assoc κ (List α) :=
  d.set item.1 ((d.get item.1).getD [] ++ [item.2])

/-- The values under a key. -/
def under (d : Assoc κ (List α)) (k : κ) : List α := (d.get k).getD []

theorem under_fileOne (d : Assoc κ (List α)) (item : κ × α) (k : κ) :
    under (fileOne d item) k = if k = item.1 then under d k ++ [item.2] else under d k := by
  unfold under fileOne
  rw [Assoc.get_set]
  split
  · next h => rw [h, Option.getD_some]
  · rfl

/-- The values that are filed under a key are those of that key, in their order. -/
theorem under_foldl (items : List (κ × α)) (d : Assoc κ (List α)) (k : κ) :
    under (items.foldl fileOne d) k = under d k ++ (items.filter fun item => item.1 = k).map Prod.snd := by
  induction items generalizing d with
  | nil => exact (List.append_nil _).symm
  | cons item items ih =>
    rw [List.foldl_cons, ih, under_fileOne, List.filter_cons]
    by_cases hk : item.1 = k
    · rw [if_pos hk.symm, if_pos (by simpa using hk), List.map_cons, List.append_assoc, List.singleton_append]
    · rw [if_neg fun e => hk e.symm, if_neg (by simpa using hk)]

/-! ## Claiming -/

/-- The first value under a key; the last one is left there. -/
def claim (d : Assoc κ (List α)) (k : κ) : Option (α × Assoc κ (List α)) :=
  match under d k with
  | [] => none
  | [v] => some (v, d)
  | v :: w :: rest => some (v, d.set k (w :: rest))

theorem claim_cases (d : Assoc κ (List α)) (k : κ) :
    (under d k = [] ∧ claim d k = none) ∨
      ∃ v rest d', under d k = v :: rest ∧ claim d k = some (v, d') ∧
        (∀ k', k' ≠ k → under d' k' = under d k') ∧ under d' k = if rest = [] then [v] else rest := by
  unfold claim
  rcases hunder : under d k with _ | ⟨v, _ | ⟨w, rest⟩⟩
  · exact .inl ⟨rfl, rfl⟩
  · refine .inr ⟨v, [], d, rfl, rfl, fun _ _ => rfl, ?_⟩
    rw [if_pos rfl, hunder]
  · refine .inr ⟨v, w :: rest, _, rfl, rfl, fun k' hk' => ?_, ?_⟩
    · rw [under, Assoc.get_set_of_ne _ _ hk']
      rfl
    · rw [if_neg (List.cons_ne_nil _ _), under, Assoc.get_set_self, Option.getD_some]

/-- A claim leaves something where something was. -/
theorem under_ne_nil_of_claim {d d' : Assoc κ (List α)} {k : κ} {v : α} (h : claim d k = some (v, d')) (k' : κ)
    (hk' : under d k' ≠ []) : under d' k' ≠ [] := by
  obtain ⟨-, hnone⟩ | ⟨v', rest, d₁, hunder, hsome, hothers, hhere⟩ := claim_cases d k
  · rw [hnone] at h
    cases h
  obtain ⟨rfl, rfl⟩ := Prod.mk.inj (Option.some.inj (hsome.symm.trans h))
  by_cases hkey : k' = k
  · rw [hkey, hhere]
    split
    · exact List.cons_ne_nil _ _
    · next hrest => exact hrest
  · rwa [hothers k' hkey]

/-- A claim leaves nothing that was not there. -/
theorem mem_under_of_claim {d d' : Assoc κ (List α)} {k : κ} {v : α} (h : claim d k = some (v, d')) {k' : κ} {w : α}
    (hw : w ∈ under d' k') : w ∈ under d k' := by
  obtain ⟨-, hnone⟩ | ⟨v', rest, d₁, hunder, hsome, hothers, hhere⟩ := claim_cases d k
  · rw [hnone] at h
    cases h
  obtain ⟨rfl, rfl⟩ := Prod.mk.inj (Option.some.inj (hsome.symm.trans h))
  by_cases hkey : k' = k
  · rw [hkey, hhere] at hw
    rw [hkey, hunder]
    split at hw
    · exact List.mem_singleton.mp hw ▸ List.mem_cons_self
    · exact List.mem_cons_of_mem _ hw
  · rwa [hothers k' hkey] at hw

/-- What is claimed under a key was there. -/
theorem mem_of_claim {d d' : Assoc κ (List α)} {k : κ} {v : α} (h : claim d k = some (v, d')) : v ∈ under d k := by
  obtain ⟨-, hnone⟩ | ⟨v', rest, d₁, hunder, hsome, -, -⟩ := claim_cases d k
  · rw [hnone] at h
    cases h
  obtain ⟨rfl, rfl⟩ := Prod.mk.inj (Option.some.inj (hsome.symm.trans h))
  rw [hunder]
  exact List.mem_cons_self

section

variable {ρ : Type} (key : ρ → κ) (weight : α → Nat) (ask : ρ → Nat)

/-- The claims under a key. -/
def claimsOf (claims : List ρ) (k : κ) : List ρ := claims.filter fun c => key c = k

/-- Some claims, one after another, where each must get no more than it asks for; what they
get, and what is left. -/
inductive Claimed : List ρ → Assoc κ (List α) → List α → Assoc κ (List α) → Prop where
  | nil (d : Assoc κ (List α)) : Claimed [] d [] d
  | cons {c : ρ} {claims : List ρ} {d d' d'' : Assoc κ (List α)} {v : α} {vs : List α} :
      claim d (key c) = some (v, d') → weight v ≤ ask c → Claimed claims d' vs d'' →
      Claimed (c :: claims) d (v :: vs) d''

variable {key weight ask}

theorem claimsOf_cons_self {c : ρ} {claims : List ρ} :
    claimsOf key (c :: claims) (key c) = c :: claimsOf key claims (key c) :=
  List.filter_cons_of_pos (by simp)

theorem claimsOf_cons_of_ne {c : ρ} {claims : List ρ} {k : κ} (h : k ≠ key c) :
    claimsOf key (c :: claims) k = claimsOf key claims k :=
  List.filter_cons_of_neg (by simpa using fun e => h e.symm)

/-- Where there are as many values under a key as claims, and they weigh as much as these ask
for, or more, each claim gets as much as it asks for. -/
theorem claimed_in_full {claims : List ρ} {d d' : Assoc κ (List α)} {vs : List α}
    (h : Claimed key weight ask claims d vs d')
    (hcount : ∀ k, claimsOf key claims k ≠ [] → (claimsOf key claims k).length = (under d k).length)
    (htotal : ∀ k, claimsOf key claims k ≠ [] →
      ((claimsOf key claims k).map ask).sum ≤ ((under d k).map weight).sum) :
    vs.map weight = claims.map ask ∧
      ∀ k, claimsOf key claims k ≠ [] → (under d k).map weight = (claimsOf key claims k).map ask := by
  induction h with
  | nil d => exact ⟨rfl, fun k hk => absurd rfl hk⟩
  | @cons c claims d d' d'' v vs hclaim hle hrest ih =>
    obtain ⟨-, hnone⟩ | ⟨v', rest, d₁, hunder, hsome, hothers, hhere⟩ := claim_cases d (key c)
    · rw [hnone] at hclaim
      cases hclaim
    obtain ⟨rfl, rfl⟩ := Prod.mk.inj (Option.some.inj (hsome.symm.trans hclaim))
    have hfirst : claimsOf key (c :: claims) (key c) ≠ [] := by
      rw [claimsOf_cons_self]
      exact List.cons_ne_nil _ _
    have hlen := hcount (key c) hfirst
    have hsum := htotal (key c) hfirst
    rw [claimsOf_cons_self, hunder, List.length_cons, List.length_cons] at hlen
    rw [claimsOf_cons_self, hunder, List.map_cons, List.sum_cons, List.map_cons, List.sum_cons] at hsum
    -- of the claims that are left, those under the key find what is left under it
    have hleft : claimsOf key claims (key c) ≠ [] → under d₁ (key c) = rest := fun hmore => by
      rw [hhere, if_neg fun hnil => hmore (List.length_eq_zero_iff.mp (by rw [hnil] at hlen; exact Nat.succ.inj hlen))]
    have hcount' : ∀ k, claimsOf key claims k ≠ [] → (claimsOf key claims k).length = (under d₁ k).length :=
      fun k hk => by
        by_cases hkey : k = key c
        · rw [hkey] at hk ⊢
          rw [hleft hk]
          exact Nat.succ.inj hlen
        · rw [hothers k hkey, ← claimsOf_cons_of_ne hkey]
          exact hcount k (by rwa [claimsOf_cons_of_ne hkey])
    have htotal' : ∀ k, claimsOf key claims k ≠ [] →
        ((claimsOf key claims k).map ask).sum ≤ ((under d₁ k).map weight).sum := fun k hk => by
      by_cases hkey : k = key c
      · rw [hkey] at hk ⊢
        rw [hleft hk]
        omega
      · rw [hothers k hkey, ← claimsOf_cons_of_ne hkey]
        exact htotal k (by rwa [claimsOf_cons_of_ne hkey])
    obtain ⟨hgot, hall⟩ := ih hcount' htotal'
    have hrests : rest.map weight = (claimsOf key claims (key c)).map ask := by
      by_cases hmore : claimsOf key claims (key c) = []
      · rw [hmore] at hlen ⊢
        rw [List.length_eq_zero_iff.mp (Nat.succ.inj hlen).symm]
        rfl
      · rw [← hleft hmore]
        exact hall _ hmore
    have hexact : weight v' = ask c := by
      rw [hrests] at hsum
      omega
    refine ⟨by rw [List.map_cons, List.map_cons, hexact, hgot], fun k hk => ?_⟩
    by_cases hkey : k = key c
    · rw [hkey, hunder, claimsOf_cons_self, List.map_cons, List.map_cons, hexact, hrests]
    · rw [claimsOf_cons_of_ne hkey] at hk ⊢
      rw [← hothers k hkey]
      exact hall k hk

/-- What the claims get was filed under their keys. -/
theorem Claimed.mem {claims : List ρ} {d d' : Assoc κ (List α)} {vs : List α}
    (h : Claimed key weight ask claims d vs d') : List.Forall₂ (fun c v => v ∈ under d (key c)) claims vs := by
  induction h with
  | nil d => exact .nil
  | cons hclaim hle hrest ih => exact .cons (mem_of_claim hclaim) (ih.imp fun _ _ hw => mem_under_of_claim hclaim hw)

/-- Where the values under each key are those of its claims, in their order, each claim gets
its own. -/
theorem claimed_in_order {f : ρ → α} (hask : ∀ c, weight (f c) ≤ ask c) {claims : List ρ} {d : Assoc κ (List α)}
    (horder : ∀ k, claimsOf key claims k ≠ [] → under d k = (claimsOf key claims k).map f) :
    ∃ d', Claimed key weight ask claims d (claims.map f) d' := by
  induction claims generalizing d with
  | nil => exact ⟨d, .nil d⟩
  | cons c claims ih =>
    have hhead : under d (key c) = f c :: (claimsOf key claims (key c)).map f := by
      rw [horder _ (by rw [claimsOf_cons_self]; exact List.cons_ne_nil _ _), claimsOf_cons_self, List.map_cons]
    obtain ⟨hnone, -⟩ | ⟨v, rest, d', hunder, hclaim, hothers, hhere⟩ := claim_cases d (key c)
    · rw [hhead] at hnone
      cases hnone
    obtain ⟨rfl, hrest⟩ := List.cons.inj (hhead.symm.trans hunder)
    obtain ⟨d'', hclaimed⟩ := @ih d' fun k hk => by
      by_cases hkey : k = key c
      · rw [hkey] at hk ⊢
        rw [hhere, if_neg (by rw [← hrest]; exact fun e => hk (List.map_eq_nil_iff.mp e)), hrest]
      · rw [hothers k hkey, horder k (by rwa [claimsOf_cons_of_ne hkey]), claimsOf_cons_of_ne hkey]
    exact ⟨d'', .cons hclaim (hask c) hclaimed⟩

end

end XrdClient.Lib
