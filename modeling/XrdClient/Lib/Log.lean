/-
  Lib/Log.lean --- a log of entries about many subjects, and what ends a subject.

  Some entries are the last of their subject.  A subject is `Running` while none
  of its entries is, and `Ended` when exactly one is and nothing follows it.
-/
import Mathlib

set_option autoImplicit false

namespace XrdClient.Lib

namespace Log

variable {κ ε : Type} [DecidableEq κ]

/-- The entries about one subject, in order. -/
def entries (log : List (κ × ε)) (k : κ) : List ε :=
  (log.filter fun p => p.1 = k).map Prod.snd

@[simp] theorem entries_nil (k : κ) : entries ([] : List (κ × ε)) k = [] := rfl

theorem entries_append (log more : List (κ × ε)) (k : κ) :
    entries (log ++ more) k = entries log k ++ entries more k := by
  simp [entries]

theorem mem_entries {log : List (κ × ε)} {k : κ} {e : ε} : e ∈ entries log k ↔ (k, e) ∈ log := by
  unfold entries
  rw [List.mem_map]
  constructor
  · rintro ⟨⟨j, e'⟩, hmem, rfl⟩
    obtain ⟨hlog, hj⟩ := List.mem_filter.mp hmem
    simp only [decide_eq_true_eq] at hj
    exact hj ▸ hlog
  · intro h
    exact ⟨(k, e), List.mem_filter.mpr ⟨h, by simp⟩, rfl⟩

theorem entries_eq_nil {log : List (κ × ε)} {k : κ} (h : ∀ e, (k, e) ∉ log) :
    entries log k = [] :=
  List.eq_nil_iff_forall_not_mem.mpr fun e he => h e (mem_entries.mp he)

section Last

variable (last : ε → Bool)

/-- No entry of the subject is the last. -/
def Running (log : List (κ × ε)) (k : κ) : Prop := ∀ e ∈ entries log k, last e = false

/-- One entry of the subject is the last, and nothing follows it. -/
def Ended (log : List (κ × ε)) (k : κ) : Prop :=
  ∃ before e, entries log k = before ++ [e] ∧ (∀ x ∈ before, last x = false) ∧ last e = true

variable {last} {log more : List (κ × ε)} {k : κ}

theorem Running.append (h : Running last log k) (hmore : ∀ e, (k, e) ∈ more → last e = false) :
    Running last (log ++ more) k := by
  intro e he
  rw [entries_append, List.mem_append] at he
  rcases he with he | he
  · exact h e he
  · exact hmore e (mem_entries.mp he)

theorem Ended.append (h : Ended last log k) (hmore : ∀ e, (k, e) ∉ more) :
    Ended last (log ++ more) k := by
  unfold Ended
  rw [entries_append, entries_eq_nil hmore, List.append_nil]
  exact h

theorem Running.finish (h : Running last log k) {e : ε} (hmore : entries more k = [e])
    (he : last e = true) : Ended last (log ++ more) k :=
  ⟨entries log k, e, by rw [entries_append, hmore], h, he⟩

/-- A subject that has ended does not run. -/
theorem Ended.not_running (h : Ended last log k) : ¬ Running last log k := by
  obtain ⟨before, e, heq, -, he⟩ := h
  intro hrun
  have hno := hrun e (by simp [heq])
  rw [he] at hno
  cases hno

/-- A running subject has no last entry, and one that has ended has one. -/
theorem Running.count (h : Running last log k) : (entries log k).countP last = 0 :=
  List.countP_eq_zero.mpr fun e he => by simp [h e he]

theorem Ended.count (h : Ended last log k) : (entries log k).countP last = 1 := by
  obtain ⟨before, e, heq, hbefore, he⟩ := h
  have hzero : before.countP last = 0 := List.countP_eq_zero.mpr fun x hx => by simp [hbefore x hx]
  simp [heq, hzero, he]

theorem Ended.nothing_after (h : Ended last log k) {before after : List ε} {e : ε}
    (heq : entries log k = before ++ e :: after) (he : last e = true) : after = [] := by
  obtain ⟨first, f, hlog, hfirst, hf⟩ := h
  by_contra hne
  -- an entry with something after it is among those before the last
  obtain ⟨middle, g, hafter⟩ := List.eq_nil_or_concat after |>.resolve_left hne
  rw [hlog, hafter, List.concat_eq_append, ← List.cons_append, ← List.append_assoc] at heq
  obtain ⟨hinit, -⟩ := List.append_inj' heq rfl
  have hno := hfirst e (by simp [hinit])
  rw [he] at hno
  cases hno

end Last

end Log

end XrdClient.Lib
