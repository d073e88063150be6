/-
  Session/Discipline.lean --- every connection has one owner, every share is counted.

  The accounts of a fleet are its stakes: whoever answers for a connection alone, and
  whoever has a share in a loan of it.  A `Posting` is one of the few things that can happen
  to them, and every operation of `Session/Loans` comes down to postings.  They keep the
  accounts balanced: a connection has one owner, either a stake of its own or the loan it is
  shared through, and the holders of a loan are the shares in it.
-/
import Mathlib
import XrdClient.Session.Loans

set_option autoImplicit false

namespace XrdClient.Session

/-! ## What a log says -/

/-- What has become of a connection since it was acquired. -/
inductive LoanPhase where
  | out
  | held
  | spoiled
  deriving DecidableEq

def LoanPhase.next (s : Nat) (phase : LoanPhase) : LoanEvent → LoanPhase
  | .acquired session => if session = s then .held else phase
  | .spoiled session => if session = s then .spoiled else phase
  | .pooled session => if session = s then .out else phase
  | .closed session => if session = s then .out else phase

/-- What a log says of a connection. -/
def phase (log : List LoanEvent) (s : Nat) : LoanPhase := log.foldl (LoanPhase.next s) .out

def LoanEvent.session : LoanEvent → Nat
  | .acquired session | .spoiled session | .pooled session | .closed session => session

@[simp] theorem phase_concat (log : List LoanEvent) (e : LoanEvent) (s : Nat) :
    phase (log ++ [e]) s = (phase log s).next s e := by
  simp [phase]

theorem phase_concat_of_ne {log : List LoanEvent} {e : LoanEvent} {s : Nat} (h : e.session ≠ s) :
    phase (log ++ [e]) s = phase log s := by
  rw [phase_concat]
  cases e <;> exact if_neg h

/-- A log grows by something other than a pooling, or by one of a connection that can be in use. -/
theorem pooled_concat {log : List LoanEvent} {e : LoanEvent}
    (h : ∀ before s after, log = before ++ .pooled s :: after → phase before s = .held)
    (he : ∀ s, e = .pooled s → phase log s = .held) (before : List LoanEvent) (s : Nat) (after : List LoanEvent)
    (hlog : log ++ [e] = before ++ .pooled s :: after) : phase before s = .held := by
  rcases List.eq_nil_or_concat after with rfl | ⟨after, last, rfl⟩
  · obtain ⟨rfl, hlast⟩ := List.append_inj' hlog rfl
    exact he s (by simpa using hlast)
  · rw [List.concat_eq_append, ← List.cons_append, ← List.append_assoc] at hlog
    exact h before s after (List.append_inj' hlog rfl).1

/-! ## Stakes -/

theorem countP_set_add {α : Type} (p : α → Bool) {l : List α} {i : Nat} {x : α} (h : l[i]? = some x) (y : α) :
    (l.set i y).countP p + (p x).toNat = l.countP p + (p y).toNat := by
  induction l generalizing i with
  | nil => cases h
  | cons a l ih =>
    cases i with
    | zero =>
      obtain rfl : a = x := by simpa using h
      simp only [List.set_cons_zero, List.countP_cons]
      cases p a <;> cases p y <;> simp
    | succ i =>
      have hrest := ih (i := i) (by simpa using h)
      simp only [List.set_cons_succ, List.countP_cons]
      omega

/-- What a connection with one owner is there for. -/
inductive Use where
  /-- In use, or to be pooled. -/
  | live
  /-- To be closed. -/
  | doomed
  | idle
  | gone
  deriving DecidableEq

inductive Stake where
  | sole (session : Nat) (use : Use)
  /-- A share in a loan, `spoiled` if whoever has it is about to say so. -/
  | share (session loan : Nat) (spoiled : Bool)
  deriving DecidableEq

namespace Stake

def owns (s : Nat) : Stake → Bool
  | .sole session _ => decide (session = s)
  | .share _ _ _ => false

def shares (l : Nat) : Stake → Bool
  | .sole _ _ => false
  | .share _ loan _ => decide (loan = l)

end Stake

def Loan.owns (s : Nat) (loan : Loan) : Bool := decide (loan.session = s ∧ 0 < loan.holders)

/-! ## Accounts -/

structure Accounts where
  stakes : Multiset Stake
  loans : List Loan
  made : Nat
  log : List LoanEvent

/-- What can happen to a connection with one owner, and what it leaves in the log. -/
inductive Passage : Use → Use → (Nat → List LoanEvent) → Prop where
  | take : Passage .idle .live fun s => [.acquired s]
  | spoil : Passage .live .doomed fun s => [.spoiled s]
  | pool : Passage .live .idle fun s => [.pooled s]
  | refuse : Passage .live .doomed fun _ => []
  | prune : Passage .idle .doomed fun _ => []
  | drop : Passage .idle .gone fun _ => []
  | close : Passage .doomed .gone fun s => [.closed s]

/-- Whatever becomes of a connection with one owner is noted, if at all, under its name. -/
theorem Passage.quiet {use use' : Use} {events : Nat → List LoanEvent} (how : Passage use use' events)
    (log : List LoanEvent) {s s' : Nat} (hne : s ≠ s') : phase (log ++ events s) s' = phase log s' := by
  cases how <;> first | rw [List.append_nil] | exact phase_concat_of_ne hne

theorem Passage.live {use : Use} {events : Nat → List LoanEvent} (how : Passage use .live events)
    (log : List LoanEvent) (s : Nat) : phase (log ++ events s) s = .held := by
  cases how
  rw [phase_concat]
  exact if_pos rfl

theorem Passage.pooled {use use' : Use} {events : Nat → List LoanEvent} (how : Passage use use' events)
    {log : List LoanEvent} {s : Nat} (h : ∀ before s after, log = before ++ .pooled s :: after → phase before s = .held)
    (hlive : use = .live → phase log s = .held) (before : List LoanEvent) (s' : Nat) (after : List LoanEvent)
    (hlog : log ++ events s = before ++ .pooled s' :: after) : phase before s' = .held := by
  cases how with
  | pool =>
    refine pooled_concat h (fun s' he => ?_) before s' after hlog
    obtain rfl := LoanEvent.pooled.inj he
    exact hlive rfl
  | refuse | prune | drop =>
    rw [List.append_nil] at hlog
    exact h before s' after hlog
  | take | spoil | close => exact pooled_concat h (fun s' he => by cases he) before s' after hlog

/-- One thing that happens to the accounts. -/
inductive Posting : Accounts → Accounts → Prop where
  | fresh (a : Accounts) :
      Posting a ⟨.sole a.made .live ::ₘ a.stakes, a.loans, a.made + 1, a.log ++ [.acquired a.made]⟩
  | pass {a : Accounts} {s : Nat} {use use' : Use} {rest : Multiset Stake} {events : Nat → List LoanEvent}
      (how : Passage use use' events) (at_ : a.stakes = .sole s use ::ₘ rest) :
      Posting a ⟨.sole s use' ::ₘ rest, a.loans, a.made, a.log ++ events s⟩
  | lend {a : Accounts} {s : Nat} {rest : Multiset Stake} (at_ : a.stakes = .sole s .live ::ₘ rest) :
      Posting a ⟨.share s a.loans.length false ::ₘ rest, a.loans ++ [{ session := s }], a.made, a.log⟩
  | join {a : Accounts} {l : Nat} {loan : Loan} {s : Nat} (at_ : .share s l false ∈ a.stakes)
      (open_ : a.loans[l]? = some loan) :
      Posting a ⟨.share s l false ::ₘ a.stakes,
        a.loans.set l { loan with holders := loan.holders + 1 }, a.made, a.log⟩
  | spoil {a : Accounts} {s l : Nat} {rest : Multiset Stake} (at_ : a.stakes = .share s l false ::ₘ rest) :
      Posting a ⟨.share s l true ::ₘ rest, a.loans, a.made, a.log ++ [.spoiled s]⟩
  | leave {a : Accounts} {s l : Nat} {spoiled : Bool} {loan : Loan} {rest : Multiset Stake}
      (at_ : a.stakes = .share s l spoiled ::ₘ rest) (open_ : a.loans[l]? = some loan)
      (more : 1 < loan.holders) :
      Posting a ⟨rest, a.loans.set l { loan with
        holders := loan.holders - 1, spoiled := loan.spoiled || spoiled }, a.made, a.log⟩
  | last {a : Accounts} {s l : Nat} {spoiled : Bool} {loan : Loan} {rest : Multiset Stake}
      (at_ : a.stakes = .share s l spoiled ::ₘ rest) (open_ : a.loans[l]? = some loan)
      (one : loan.holders = 1) :
      Posting a ⟨.sole s (if loan.spoiled || spoiled then .doomed else .live) ::ₘ rest,
        a.loans.set l { loan with holders := 0, spoiled := loan.spoiled || spoiled }, a.made, a.log⟩

namespace Accounts

/-- The owners of a connection. -/
def owners (a : Accounts) (s : Nat) : Nat := a.stakes.countP (·.owns s = true) + a.loans.countP (Loan.owns s)

structure Balanced (a : Accounts) : Prop where
  /-- The shares in a loan are its holders. -/
  holders : ∀ l loan, a.loans[l]? = some loan → loan.holders = a.stakes.countP (·.shares l = true)
  /-- A connection has one owner. -/
  owner : ∀ s, a.owners s = if s < a.made then 1 else 0
  /-- A share is in a loan of that connection. -/
  share : ∀ s l spoiled, .share s l spoiled ∈ a.stakes →
    ∃ loan, a.loans[l]? = some loan ∧ loan.session = s
  /-- What can be in use has not been spoiled since it was acquired. -/
  live : ∀ s, .sole s .live ∈ a.stakes → phase a.log s = .held
  /-- Nor has what is shared, unless that is noted, or is about to be. -/
  shared : ∀ l loan, a.loans[l]? = some loan → 0 < loan.holders →
    phase a.log loan.session = .held ∨
      loan.spoiled = true ∨ ∃ s, .share s l true ∈ a.stakes
  /-- Whatever was pooled had been acquired, and neither spoiled nor given away since. -/
  pooled : ∀ before s after, a.log = before ++ .pooled s :: after → phase before s = .held


variable {a b : Accounts}

/-- Somebody has a stake of their own in a connection: nobody has a share in it. -/
theorem Balanced.alone (h : a.Balanced) {s : Nat} {use : Use} {rest : Multiset Stake}
    (hat : a.stakes = .sole s use ::ₘ rest) :
    rest.countP (·.owns s = true) = 0 ∧ a.loans.countP (Loan.owns s) = 0 ∧ s < a.made := by
  have howner := h.owner s
  rw [owners, hat, Multiset.countP_cons_of_pos _ (by simp [Stake.owns])] at howner
  split at howner
  · exact ⟨by omega, by omega, by assumption⟩
  · omega

theorem Balanced.no_loan (h : a.Balanced) {s : Nat} {use : Use} {rest : Multiset Stake}
    (hat : a.stakes = .sole s use ::ₘ rest) {l : Nat} {loan : Loan} (hl : a.loans[l]? = some loan)
    (hpos : 0 < loan.holders) : loan.session ≠ s := by
  intro hs
  have hnone := List.countP_eq_zero.mp (h.alone hat).2.1 loan (List.mem_of_getElem? hl)
  exact hnone (by simp [Loan.owns, hs, hpos])

theorem Balanced.no_other (h : a.Balanced) {s : Nat} {use : Use} {rest : Multiset Stake}
    (hat : a.stakes = .sole s use ::ₘ rest) (use' : Use) : .sole s use' ∉ rest := by
  intro hmem
  exact Multiset.countP_eq_zero.mp (h.alone hat).1 _ hmem (by simp [Stake.owns])

/-- A loan somebody has a share in is held. -/
theorem Balanced.held (h : a.Balanced) {s l : Nat} {spoiled : Bool} (hat : .share s l spoiled ∈ a.stakes) :
    ∃ loan, a.loans[l]? = some loan ∧ loan.session = s ∧ 0 < loan.holders := by
  obtain ⟨loan, hl, hs⟩ := h.share s l spoiled hat
  refine ⟨loan, hl, hs, ?_⟩
  rw [h.holders l loan hl]
  exact Multiset.countP_pos.mpr ⟨_, hat, by simp [Stake.shares]⟩

/-- Two loans of one connection cannot both be held. -/
theorem Balanced.one_loan (h : a.Balanced) {l l' : Nat} {loan loan' : Loan} (hl : a.loans[l]? = some loan)
    (hl' : a.loans[l']? = some loan') (hpos : 0 < loan.holders) (hpos' : 0 < loan'.holders)
    (hs : loan.session = loan'.session) : l = l' := by
  by_contra hne
  have howner := h.owner loan.session
  have hcount := countP_set_add (Loan.owns loan.session) hl { loan with holders := 0 }
  have hother : loan' ∈ a.loans.set l { loan with holders := 0 } :=
    List.mem_of_getElem? (by rw [List.getElem?_set_ne hne]; exact hl')
  have hone : 0 < (a.loans.set l { loan with holders := 0 }).countP (Loan.owns loan.session) :=
    List.countP_pos_iff.mpr ⟨_, hother, by simp [Loan.owns, hs, hpos']⟩
  have hown : loan.owns loan.session = true := by simp [Loan.owns, hpos]
  have hfree : Loan.owns loan.session { loan with holders := 0 } = false := by simp [Loan.owns]
  rw [hown, hfree] at hcount
  simp only [Bool.toNat_true, Bool.toNat_false] at hcount
  unfold owners at howner
  split at howner <;> omega

/-! ## Postings keep the accounts balanced -/

theorem Balanced.fresh (h : a.Balanced) : Balanced
    ⟨.sole a.made .live ::ₘ a.stakes, a.loans, a.made + 1, a.log ++ [.acquired a.made]⟩ := by
  have hnobody : a.stakes.countP (·.owns a.made = true) = 0 ∧ a.loans.countP (Loan.owns a.made) = 0 := by
    have howner := h.owner a.made
    rw [if_neg (Nat.lt_irrefl _), owners] at howner
    exact ⟨by omega, by omega⟩
  refine ⟨fun l loan hl => ?_, fun s => ?_, fun s l spoiled hat => ?_, fun s hat => ?_, fun l loan hl hpos => ?_,
    pooled_concat h.pooled fun s he => by cases he⟩
  · rw [h.holders l loan hl, Multiset.countP_cons_of_neg _ (by simp [Stake.shares])]
  · have howner := h.owner s
    by_cases hs : a.made = s
    · subst hs
      have hcount : (Stake.sole a.made Use.live ::ₘ a.stakes).countP (·.owns a.made = true) = 1 := by
        rw [Multiset.countP_cons_of_pos _ (by simp [Stake.owns]), hnobody.1]
      simp only [owners, hcount, hnobody.2, Nat.lt_succ_self, if_true]
    · have hcount : (Stake.sole a.made Use.live ::ₘ a.stakes).countP (·.owns s = true) =
          a.stakes.countP (·.owns s = true) := Multiset.countP_cons_of_neg _ (by simp [Stake.owns, hs])
      simp only [owners, hcount] at howner ⊢
      rw [howner]
      congr 1
      exact propext ⟨by omega, by omega⟩
  · rcases Multiset.mem_cons.mp hat with heq | hat
    · cases heq
    · exact h.share s l spoiled hat
  · rcases Multiset.mem_cons.mp hat with heq | hat
    · obtain ⟨rfl, -⟩ := Stake.sole.inj heq
      rw [phase_concat]
      exact if_pos rfl
    · have hne : a.made ≠ s := fun hs => by
        subst hs
        exact Multiset.countP_eq_zero.mp hnobody.1 _ hat (by simp [Stake.owns])
      rw [phase_concat_of_ne (e := .acquired a.made) hne]
      exact h.live s hat
  · have hne : a.made ≠ loan.session := fun hs =>
      List.countP_eq_zero.mp hnobody.2 loan (List.mem_of_getElem? hl) (by simp [Loan.owns, hs, hpos])
    rw [phase_concat_of_ne (e := .acquired a.made) hne]
    exact (h.shared l loan hl hpos).imp id (Or.imp id fun ⟨s, hat⟩ => ⟨s, Multiset.mem_cons_of_mem hat⟩)

theorem Balanced.pass (h : a.Balanced) {s : Nat} {use use' : Use} {rest : Multiset Stake}
    {events : Nat → List LoanEvent} (how : Passage use use' events) (hat : a.stakes = .sole s use ::ₘ rest) :
    Balanced ⟨.sole s use' ::ₘ rest, a.loans, a.made, a.log ++ events s⟩ := by
  have hmem : ∀ stake ∈ rest, stake ∈ a.stakes := fun stake hin => by
    rw [hat]
    exact Multiset.mem_cons_of_mem hin
  refine ⟨fun l loan hl => ?_, fun s' => ?_, fun s' l spoiled hin => ?_, fun s' hin => ?_, fun l loan hl hpos => ?_,
    how.pooled h.pooled fun huse => h.live s (by rw [hat, huse]; exact Multiset.mem_cons_self _ _)⟩
  · rw [h.holders l loan hl, hat, Multiset.countP_cons_of_neg _ (by simp [Stake.shares]),
      Multiset.countP_cons_of_neg _ (by simp [Stake.shares])]
  · have howner := h.owner s'
    rw [owners, hat, Multiset.countP_cons] at howner
    rw [owners, Multiset.countP_cons]
    exact howner
  · rcases Multiset.mem_cons.mp hin with heq | hin
    · cases heq
    · exact h.share s' l spoiled (hmem _ hin)
  · rcases Multiset.mem_cons.mp hin with heq | hin
    · obtain ⟨rfl, rfl⟩ := Stake.sole.inj heq
      exact how.live a.log _
    · have hne : s ≠ s' := fun hs => h.no_other hat .live (hs ▸ hin)
      rw [how.quiet a.log hne]
      exact h.live s' (hmem _ hin)
  · rw [how.quiet a.log (h.no_loan hat hl hpos).symm]
    refine (h.shared l loan hl hpos).imp id (Or.imp id fun ⟨s', hin⟩ => ⟨s', ?_⟩)
    rw [hat] at hin
    rcases Multiset.mem_cons.mp hin with heq | hin
    · cases heq
    · exact Multiset.mem_cons_of_mem hin

theorem Balanced.lend (h : a.Balanced) {s : Nat} {rest : Multiset Stake} (hat : a.stakes = .sole s .live ::ₘ rest) :
    Balanced ⟨.share s a.loans.length false ::ₘ rest, a.loans ++ [{ session := s }], a.made, a.log⟩ := by
  have hmem : ∀ stake ∈ rest, stake ∈ a.stakes := fun stake hin => by
    rw [hat]
    exact Multiset.mem_cons_of_mem hin
  have hlive := h.live s (by rw [hat]; exact Multiset.mem_cons_self _ _)
  have hnew : ∀ l loan, (a.loans ++ [{ session := s }])[l]? = some loan →
      a.loans[l]? = some loan ∧ l ≠ a.loans.length ∨ loan = { session := s } ∧ l = a.loans.length := by
    intro l loan hl
    rcases Nat.lt_trichotomy l a.loans.length with hlt | rfl | hgt
    · rw [List.getElem?_append_left hlt] at hl
      exact .inl ⟨hl, Nat.ne_of_lt hlt⟩
    · rw [List.getElem?_concat_length] at hl
      exact .inr ⟨(Option.some.inj hl).symm, rfl⟩
    · rw [List.getElem?_eq_none (by simp; omega)] at hl
      cases hl
  have hold : ∀ {l loan}, a.loans[l]? = some loan → (a.loans ++ [{ session := s }])[l]? = some loan :=
    fun {l loan} hl => by
      rw [List.getElem?_append_left (List.getElem?_eq_some_iff.mp hl).1]
      exact hl
  -- nobody has a share in a loan that is not there yet
  have hnone : rest.countP (·.shares a.loans.length = true) = 0 := by
    refine Multiset.countP_eq_zero.mpr fun stake hin hshares => ?_
    cases stake with
    | sole session use => cases hshares
    | share session l spoiled =>
      obtain ⟨loan, hl, -⟩ := h.share session l spoiled (hmem _ hin)
      obtain rfl : l = a.loans.length := by simpa [Stake.shares] using hshares
      rw [List.getElem?_eq_none (Nat.le_refl _)] at hl
      cases hl
  refine ⟨fun l loan hl => ?_, fun s' => ?_, fun s' l spoiled hin => ?_, fun s' hin => ?_, fun l loan hl hpos => ?_,
    h.pooled⟩
  · rcases hnew l loan hl with ⟨hl, hne⟩ | ⟨rfl, rfl⟩
    · rw [h.holders l loan hl, hat, Multiset.countP_cons_of_neg _ (by simp [Stake.shares]),
        Multiset.countP_cons_of_neg _ (by simp [Stake.shares, hne.symm])]
    · rw [Multiset.countP_cons_of_pos _ (by simp [Stake.shares]), hnone]
  · have howner := h.owner s'
    rw [owners, hat, Multiset.countP_cons] at howner
    rw [owners, Multiset.countP_cons, List.countP_append, List.countP_singleton]
    simp only [Stake.owns, Loan.owns, Bool.false_eq_true, if_false, decide_eq_true_eq, zero_lt_one,
      and_true] at howner ⊢
    omega
  · rcases Multiset.mem_cons.mp hin with heq | hin
    · obtain ⟨rfl, rfl, -⟩ := Stake.share.inj heq
      exact ⟨_, List.getElem?_concat_length, rfl⟩
    · obtain ⟨loan, hl, hs⟩ := h.share s' l spoiled (hmem _ hin)
      exact ⟨loan, hold hl, hs⟩
  · rcases Multiset.mem_cons.mp hin with heq | hin
    · cases heq
    · exact h.live s' (hmem _ hin)
  · rcases hnew l loan hl with ⟨hl, -⟩ | ⟨rfl, -⟩
    · refine (h.shared l loan hl hpos).imp id (Or.imp id fun ⟨s', hin⟩ => ⟨s', ?_⟩)
      rw [hat] at hin
      rcases Multiset.mem_cons.mp hin with heq | hin
      · cases heq
      · exact Multiset.mem_cons_of_mem hin
    · exact .inl hlive

/-- After one loan is changed. -/
theorem set_cases {α : Type} {l : List α} {i j : Nat} {x y : α} (h : (l.set i x)[j]? = some y) :
    (j = i ∧ y = x) ∨ (j ≠ i ∧ l[j]? = some y) := by
  by_cases hji : j = i
  · subst hji
    rw [List.getElem?_set_self'] at h
    cases hlj : l[j]? with
    | none => rw [hlj] at h; cases h
    | some z =>
      rw [hlj] at h
      exact .inl ⟨rfl, (Option.some.inj h).symm⟩
  · rw [List.getElem?_set_ne (Ne.symm hji)] at h
    exact .inr ⟨hji, h⟩

/-- A loan that is changed is still there, of the same connection. -/
theorem share_set {loans : List Loan} {l l' s : Nat} {loan new : Loan} (hl : loans[l]? = some loan)
    (hnew : new.session = loan.session) (h : ∃ loan', loans[l']? = some loan' ∧ loan'.session = s) :
    ∃ loan', (loans.set l new)[l']? = some loan' ∧ loan'.session = s := by
  obtain ⟨loan', hl', hs⟩ := h
  by_cases heq : l = l'
  · subst heq
    rw [hl] at hl'
    obtain rfl := Option.some.inj hl'
    exact ⟨new, List.getElem?_set_self (List.getElem?_eq_some_iff.mp hl).1, hnew.trans hs⟩
  · exact ⟨loan', by rw [List.getElem?_set_ne heq]; exact hl', hs⟩

theorem Balanced.join (h : a.Balanced) {s l : Nat} {loan : Loan} (hat : .share s l false ∈ a.stakes)
    (hl : a.loans[l]? = some loan) :
    Balanced ⟨.share s l false ::ₘ a.stakes, a.loans.set l { loan with holders := loan.holders + 1 }, a.made, a.log⟩ := by
  have hpos : 0 < loan.holders ∧ loan.session = s := by
    obtain ⟨loan', hl', hs, hpos⟩ := h.held hat
    obtain rfl := Option.some.inj (hl.symm.trans hl')
    exact ⟨hpos, hs⟩
  refine ⟨fun l' loan' hl' => ?_, fun s' => ?_, fun s' l' spoiled hin => ?_, fun s' hin => ?_, fun l' loan' hl' hpos' => ?_,
    h.pooled⟩
  · rcases set_cases hl' with ⟨rfl, rfl⟩ | ⟨hne, hl'⟩
    · rw [Multiset.countP_cons_of_pos _ (by simp [Stake.shares])]
      exact congrArg (· + 1) (h.holders l' loan hl)
    · rw [h.holders l' loan' hl', Multiset.countP_cons_of_neg _ (by simp [Stake.shares, hne.symm])]
  · have howner := h.owner s'
    have hcount := countP_set_add (Loan.owns s') hl { loan with holders := loan.holders + 1 }
    have hsame : Loan.owns s' { loan with holders := loan.holders + 1 } = loan.owns s' := by
      simp [Loan.owns, hpos.1]
    rw [hsame] at hcount
    rw [owners] at howner
    rw [owners, Multiset.countP_cons_of_neg _ (by simp [Stake.owns])]
    simp only at hcount ⊢
    omega
  · refine share_set hl rfl ?_
    rcases Multiset.mem_cons.mp hin with heq | hin
    · obtain ⟨rfl, rfl, -⟩ := Stake.share.inj heq
      exact ⟨loan, hl, hpos.2⟩
    · exact h.share s' l' spoiled hin
  · rcases Multiset.mem_cons.mp hin with heq | hin
    · cases heq
    · exact h.live s' hin
  · have hkept : ∀ {l'}, (∃ s', Stake.share s' l' true ∈ a.stakes) →
        ∃ s', Stake.share s' l' true ∈ Stake.share s l false ::ₘ a.stakes :=
      fun ⟨s', hin⟩ => ⟨s', Multiset.mem_cons_of_mem hin⟩
    rcases set_cases hl' with ⟨rfl, rfl⟩ | ⟨-, hl'⟩
    · exact (h.shared l' loan hl hpos.1).imp id (Or.imp id hkept)
    · exact (h.shared l' loan' hl' hpos').imp id (Or.imp id hkept)

theorem Balanced.spoil (h : a.Balanced) {s l : Nat} {rest : Multiset Stake}
    (hat : a.stakes = .share s l false ::ₘ rest) :
    Balanced ⟨.share s l true ::ₘ rest, a.loans, a.made, a.log ++ [.spoiled s]⟩ := by
  have hmem : ∀ stake ∈ rest, stake ∈ a.stakes := fun stake hin => by
    rw [hat]
    exact Multiset.mem_cons_of_mem hin
  obtain ⟨loan, hl, rfl, hpos⟩ := h.held (by rw [hat]; exact Multiset.mem_cons_self _ _)
  refine ⟨fun l' loan' hl' => ?_, fun s' => ?_, fun s' l' spoiled hin => ?_, fun s' hin => ?_, fun l' loan' hl' hpos' => ?_,
    pooled_concat h.pooled fun s' he => by cases he⟩
  · rw [h.holders l' loan' hl', hat, Multiset.countP_cons, Multiset.countP_cons]
    rfl
  · have howner := h.owner s'
    rw [owners, hat, Multiset.countP_cons] at howner
    rw [owners, Multiset.countP_cons]
    exact howner
  · rcases Multiset.mem_cons.mp hin with heq | hin
    · obtain ⟨rfl, rfl, -⟩ := Stake.share.inj heq
      exact ⟨loan, hl, rfl⟩
    · exact h.share s' l' spoiled (hmem _ hin)
  · rcases Multiset.mem_cons.mp hin with heq | hin
    · cases heq
    · -- a connection that is shared has no owner besides
      obtain ⟨others, hothers⟩ := Multiset.exists_cons_of_mem (hmem _ hin)
      rw [phase_concat_of_ne (e := .spoiled loan.session) (h.no_loan hothers hl hpos)]
      exact h.live s' (hmem _ hin)
  · by_cases hll : l = l'
    · subst hll
      exact .inr (.inr ⟨loan.session, Multiset.mem_cons_self _ _⟩)
    · have hne : loan.session ≠ loan'.session := fun hs => hll (h.one_loan hl hl' hpos hpos' hs)
      rw [phase_concat_of_ne (e := .spoiled loan.session) hne]
      refine (h.shared l' loan' hl' hpos').imp id (Or.imp id fun ⟨s', hin⟩ => ⟨s', ?_⟩)
      rw [hat] at hin
      rcases Multiset.mem_cons.mp hin with heq | hin
      · cases heq
      · exact Multiset.mem_cons_of_mem hin

/-- A spoiled share that is given up is noted in the loan. -/
theorem noted {stakes rest : Multiset Stake} {s l : Nat} {spoiled before : Bool}
    (hat : stakes = .share s l spoiled ::ₘ rest) (h : before = true ∨ ∃ s', .share s' l true ∈ stakes) :
    (before || spoiled) = true ∨ ∃ s', .share s' l true ∈ rest := by
  rcases h with hb | ⟨s', hin⟩
  · exact .inl (by rw [hb, Bool.true_or])
  · rw [hat] at hin
    rcases Multiset.mem_cons.mp hin with heq | hin
    · obtain ⟨-, -, hspoiled⟩ := Stake.share.inj heq
      exact .inl (by rw [← hspoiled, Bool.or_true])
    · exact .inr ⟨s', hin⟩

theorem Balanced.leave (h : a.Balanced) {s l : Nat} {spoiled : Bool} {loan : Loan} {rest : Multiset Stake}
    (hat : a.stakes = .share s l spoiled ::ₘ rest) (hl : a.loans[l]? = some loan) (hmore : 1 < loan.holders) :
    Balanced ⟨rest, a.loans.set l { loan with holders := loan.holders - 1, spoiled := loan.spoiled || spoiled },
      a.made, a.log⟩ := by
  have hmem : ∀ stake ∈ rest, stake ∈ a.stakes := fun stake hin => by
    rw [hat]
    exact Multiset.mem_cons_of_mem hin
  refine ⟨fun l' loan' hl' => ?_, fun s' => ?_, fun s' l' spoiled' hin => share_set hl rfl (h.share s' l' spoiled' (hmem _ hin)),
    fun s' hin => h.live s' (hmem _ hin), fun l' loan' hl' hpos' => ?_, h.pooled⟩
  · rcases set_cases hl' with ⟨rfl, rfl⟩ | ⟨hne, hl'⟩
    · have hholders := h.holders l' loan hl
      rw [hat, Multiset.countP_cons_of_pos _ (by simp [Stake.shares])] at hholders
      exact Nat.sub_eq_of_eq_add hholders
    · rw [h.holders l' loan' hl', hat, Multiset.countP_cons_of_neg _ (by simp [Stake.shares, hne.symm])]
  · have howner := h.owner s'
    have hcount := countP_set_add (Loan.owns s') hl
      { loan with holders := loan.holders - 1, spoiled := loan.spoiled || spoiled }
    have hsame : Loan.owns s' { loan with holders := loan.holders - 1, spoiled := loan.spoiled || spoiled } =
        loan.owns s' := by
      simp only [Loan.owns, decide_eq_decide]
      exact and_congr_right fun _ => ⟨by omega, by omega⟩
    rw [hsame] at hcount
    rw [owners, hat, Multiset.countP_cons_of_neg _ (by simp [Stake.owns])] at howner
    rw [owners]
    simp only at hcount ⊢
    omega
  · rcases set_cases hl' with ⟨rfl, rfl⟩ | ⟨hne, hl'⟩
    · exact (h.shared l' loan hl (by omega)).imp id fun hnoted => noted hat hnoted
    · refine (h.shared l' loan' hl' hpos').imp id (Or.imp id fun ⟨s', hin⟩ => ⟨s', ?_⟩)
      rw [hat] at hin
      rcases Multiset.mem_cons.mp hin with heq | hin
      · obtain ⟨-, hll, -⟩ := Stake.share.inj heq
        exact absurd hll hne
      · exact hin

theorem Balanced.last (h : a.Balanced) {s l : Nat} {spoiled : Bool} {loan : Loan} {rest : Multiset Stake}
    (hat : a.stakes = .share s l spoiled ::ₘ rest) (hl : a.loans[l]? = some loan) (hone : loan.holders = 1) :
    Balanced ⟨.sole s (if loan.spoiled || spoiled then .doomed else .live) ::ₘ rest,
      a.loans.set l { loan with holders := 0, spoiled := loan.spoiled || spoiled }, a.made, a.log⟩ := by
  have hmem : ∀ stake ∈ rest, stake ∈ a.stakes := fun stake hin => by
    rw [hat]
    exact Multiset.mem_cons_of_mem hin
  obtain rfl : loan.session = s := by
    obtain ⟨loan', hl', hs, -⟩ := h.held (by rw [hat]; exact Multiset.mem_cons_self _ _)
    obtain rfl := Option.some.inj (hl.symm.trans hl')
    exact hs
  have hnone : rest.countP (·.shares l = true) = 0 := by
    have hholders := h.holders l loan hl
    rw [hat, Multiset.countP_cons_of_pos _ (by simp [Stake.shares])] at hholders
    omega
  refine ⟨fun l' loan' hl' => ?_, fun s' => ?_, fun s' l' spoiled' hin => share_set hl rfl ?_,
    fun s' hin => ?_, fun l' loan' hl' hpos' => ?_, h.pooled⟩
  · rw [Multiset.countP_cons_of_neg _ (by simp [Stake.shares])]
    rcases set_cases hl' with ⟨rfl, rfl⟩ | ⟨hne, hl'⟩
    · exact hnone.symm
    · rw [h.holders l' loan' hl', hat, Multiset.countP_cons_of_neg _ (by simp [Stake.shares, hne.symm])]
  · have howner := h.owner s'
    have hcount := countP_set_add (Loan.owns s') hl
      { loan with holders := 0, spoiled := loan.spoiled || spoiled }
    have hfree : Loan.owns s' { loan with holders := 0, spoiled := loan.spoiled || spoiled } = false := by
      simp [Loan.owns]
    have hheld : loan.owns s' = decide (loan.session = s') := by simp [Loan.owns, hone]
    rw [hfree, hheld] at hcount
    rw [owners, hat, Multiset.countP_cons_of_neg _ (by simp [Stake.owns])] at howner
    rw [owners, Multiset.countP_cons]
    simp only [Stake.owns, decide_eq_true_eq] at howner hcount ⊢
    by_cases hs : loan.session = s'
    · simp only [hs, decide_true, Bool.toNat_true, Bool.toNat_false, if_true] at hcount ⊢
      omega
    · simp only [hs, decide_false, Bool.toNat_false, if_false] at hcount ⊢
      omega
  · rcases Multiset.mem_cons.mp hin with heq | hin
    · cases heq
    · exact h.share s' l' spoiled' (hmem _ hin)
  · rcases Multiset.mem_cons.mp hin with heq | hin
    · -- the last one out pools it: no share in it was spoiled
      obtain ⟨rfl, huse⟩ := Stake.sole.inj heq
      rcases h.shared l loan hl (by omega) with hheld | hnoted
      · exact hheld
      · rcases noted hat hnoted with htrue | ⟨s'', hin⟩
        · rw [htrue] at huse
          cases huse
        · exact absurd (by simp [Stake.shares]) (Multiset.countP_eq_zero.mp hnone _ hin)
    · exact h.live s' (hmem _ hin)
  · rcases set_cases hl' with ⟨rfl, rfl⟩ | ⟨hne, hl'⟩
    · exact absurd hpos' (Nat.lt_irrefl 0)
    · refine (h.shared l' loan' hl' hpos').imp id (Or.imp id fun ⟨s', hin⟩ => ⟨s', Multiset.mem_cons_of_mem ?_⟩)
      rw [hat] at hin
      rcases Multiset.mem_cons.mp hin with heq | hin
      · obtain ⟨-, hll, -⟩ := Stake.share.inj heq
        exact absurd hll hne
      · exact hin

theorem Balanced.posting (h : a.Balanced) (hp : Posting a b) : b.Balanced := by
  cases hp with
  | fresh => exact h.fresh
  | pass how hat => exact h.pass how hat
  | lend hat => exact h.lend hat
  | join hat hl => exact h.join hat hl
  | spoil hat => exact h.spoil hat
  | leave hat hl hmore => exact h.leave hat hl hmore
  | last hat hl hone => exact h.last hat hl hone

/-- Any number of postings. -/
abbrev Postings : Accounts → Accounts → Prop := Relation.ReflTransGen Posting

theorem Balanced.postings (h : a.Balanced) (hp : Postings a b) : b.Balanced := by
  induction hp with
  | refl => exact h
  | tail _ hlast ih => exact ih.posting hlast

/-- With one more stake. -/
def plus (a : Accounts) (stake : Stake) : Accounts := { a with stakes := stake ::ₘ a.stakes }

end Accounts

/-! ## The accounts of a fleet -/

def Held.stake : Held → Option Stake
  | ⟨some session, none⟩ => some (.sole session .live)
  | ⟨some session, some loan⟩ => some (.share session loan false)
  | ⟨none, _⟩ => none

def Task.stake : Task → Option Stake
  | .letGo session none spoiled => some (.sole session (if spoiled then .doomed else .live))
  | .letGo session (some loan) spoiled => some (.share session loan spoiled)
  | .offer session => some (.sole session .live)
  | .close session => some (.sole session .doomed)
  | .shut _ => none

section

variable {α β : Type} (g : α → Option β) {l : List α} {i : Nat} {x : α}

theorem filterMap_split (h : l[i]? = some x) :
    (l.filterMap g : Multiset β) = (g x).toList + (l.eraseIdx i).filterMap g := by
  obtain ⟨hlt, rfl⟩ := List.getElem?_eq_some_iff.mp h
  have hperm := (List.getElem_cons_eraseIdx_perm hlt).filterMap g
  rw [← Multiset.coe_eq_coe.mpr hperm, List.filterMap_cons]
  cases g l[i] <;> rfl

theorem filterMap_set (h : l[i]? = some x) (y : α) :
    ((l.set i y).filterMap g : Multiset β) = (g y).toList + (l.eraseIdx i).filterMap g := by
  have hlt := (List.getElem?_eq_some_iff.mp h).1
  rw [filterMap_split g (List.getElem?_set_self hlt : (l.set i y)[i]? = some y), List.eraseIdx_set_eq]

theorem filterMap_concat (l : List α) (x : α) :
    ((l ++ [x]).filterMap g : Multiset β) = (g x).toList + l.filterMap g := by
  rw [List.filterMap_append, ← Multiset.coe_add, add_comm]
  cases hx : g x with
  | none => simp [hx]
  | some y => simp [hx]

end

namespace Fleet

variable {f : Fleet} {r : Nat} {k : Keeper}

def stakes (f : Fleet) : Multiset Stake :=
  (f.keepers.filterMap fun k => k.held.stake : Multiset Stake) + f.tasks.filterMap Task.stake +
    f.orphans.filterMap (fun o => Held.stake ⟨some o.1, o.2⟩) + f.idle.map (Stake.sole · .idle) +
    f.closed.map (Stake.sole · .gone) + f.dropped.map (Stake.sole · .gone) +
    f.borrowed.map fun b => Stake.sole b.2 .live

def accounts (f : Fleet) : Accounts := ⟨f.stakes, f.loans, f.made, f.log⟩

/-- The stakes of the others. -/
def others (f : Fleet) (r : Nat) : Multiset Stake := { f with keepers := f.keepers.eraseIdx r }.stakes

theorem stakes_split (h : f.keepers[r]? = some k) : f.stakes = k.held.stake.toList + f.others r := by
  unfold others stakes
  rw [filterMap_split (fun k => k.held.stake) h]
  abel

theorem stakes_set (h : f.keepers[r]? = some k) (k' : Keeper) :
    { f with keepers := f.keepers.set r k' }.stakes = k'.held.stake.toList + f.others r := by
  unfold others stakes
  rw [filterMap_set (fun k => k.held.stake) h]
  abel

theorem stakes_keeper (f : Fleet) (k : Keeper) :
    { f with keepers := f.keepers ++ [k] }.stakes = k.held.stake.toList + f.stakes := by
  unfold stakes
  rw [filterMap_concat]
  abel

theorem stakes_task (f : Fleet) (task : Task) :
    { f with tasks := f.tasks ++ [task] }.stakes = task.stake.toList + f.stakes := by
  unfold stakes
  rw [filterMap_concat]
  abel

theorem stakes_orphan (f : Fleet) (o : Nat × Option Nat) :
    { f with orphans := f.orphans ++ [o] }.stakes = (Held.stake ⟨some o.1, o.2⟩).toList + f.stakes := by
  unfold stakes
  rw [filterMap_concat]
  abel

theorem accounts_keeper (f : Fleet) {k : Keeper} {stake : Stake} (hk : k.held.stake = some stake) :
    { f with keepers := f.keepers ++ [k] }.accounts = f.accounts.plus stake := by
  have hstakes := stakes_keeper f k
  rw [hk] at hstakes
  simp only [accounts, Accounts.plus, hstakes]
  simp

theorem accounts_task (f : Fleet) {task : Task} {stake : Stake} (hk : task.stake = some stake) :
    { f with tasks := f.tasks ++ [task] }.accounts = f.accounts.plus stake := by
  have hstakes := stakes_task f task
  rw [hk] at hstakes
  simp only [accounts, Accounts.plus, hstakes]
  simp

theorem plus_stakes (f : Fleet) (stake : Stake) : (f.accounts.plus stake).stakes = stake ::ₘ f.stakes := rfl

/-- A router takes something up. -/
theorem accounts_place (h : f.keepers[r]? = some k) (hk : k.held.stake = none) {k' : Keeper} {stake : Stake}
    (hk' : k'.held.stake = some stake) :
    { f with keepers := f.keepers.set r k' }.accounts = f.accounts.plus stake := by
  have hset := stakes_set h k'
  have hsplit := stakes_split h
  rw [hk] at hsplit
  rw [hk'] at hset
  simp only [accounts, Accounts.plus, hset, hsplit]
  simp

/-! ## Every operation comes down to postings -/

open Accounts (Postings)

/-- Stakes change hands, and that is all. -/
theorem postings_of_stakes {f g : Fleet} (h : f.stakes = g.stakes)
    (hrest : (f.loans, f.made, f.log) = (g.loans, g.made, g.log)) : Postings f.accounts g.accounts := by
  simp only [Prod.mk.injEq] at hrest
  unfold accounts
  rw [h, hrest.1, hrest.2.1, hrest.2.2]

@[simp] theorem coe_some_add (x : Stake) (rest : Multiset Stake) : ((some x).toList : Multiset Stake) + rest = x ::ₘ rest := by
  simp

@[simp] theorem coe_none_add (rest : Multiset Stake) : ((none : Option Stake).toList : Multiset Stake) + rest = rest := by
  simp

theorem letGo_postings (f : Fleet) (r : Nat) (spoiled : Bool) :
    Postings f.accounts (f.letGo r spoiled).accounts := by
  unfold letGo
  split
  · exact .refl
  · rename_i k hk
    split
    · exact .refl
    · rename_i session hs
      have hsplit := stakes_split hk
      have htask := stakes_task { f with keepers := f.keepers.set r { k with held := {} } }
        (.letGo session k.held.loan spoiled)
      rw [stakes_set hk] at htask
      obtain ⟨⟨held, loan⟩, lender, lent, reconnect, aborted, alive⟩ := k
      obtain rfl : held = some session := hs
      cases loan with
      | none =>
        simp only [Held.stake, Task.stake, coe_some_add, coe_none_add] at hsplit htask
        cases spoiled with
        | false => exact postings_of_stakes (hsplit.trans htask.symm) rfl
        | true =>
          have hpass := Posting.pass (a := f.accounts) .spoil hsplit
          rw [show Stake.sole session .doomed ::ₘ f.others r = _ from htask.symm] at hpass
          exact .single hpass
      | some l =>
        simp only [Held.stake, Task.stake, coe_some_add, coe_none_add] at hsplit htask
        cases spoiled with
        | false => exact postings_of_stakes (hsplit.trans htask.symm) rfl
        | true =>
          have hspoil := Posting.spoil (a := f.accounts) hsplit
          rw [← htask] at hspoil
          exact .single hspoil

/-- A connection is in hand, to be put somewhere. -/
theorem fresh_postings (f : Fleet) : Postings f.accounts (f.fresh.2.accounts.plus (.sole f.fresh.1 .live)) :=
  .single (Posting.fresh f.accounts)

theorem stakes_idle {s : Nat} (h : s ∈ f.idle) :
    f.stakes = .sole s .idle ::ₘ { f with idle := f.idle.erase s }.stakes := by
  have hperm := (List.perm_cons_erase h).map (Stake.sole · .idle)
  unfold stakes
  rw [Multiset.coe_eq_coe.mpr hperm, List.map_cons, ← Multiset.cons_coe, ← Multiset.singleton_add,
    ← Multiset.singleton_add]
  abel

theorem stakes_dropped (f : Fleet) (s : Nat) :
    { f with dropped := f.dropped ++ [s] }.stakes = .sole s .gone ::ₘ f.stakes := by
  unfold stakes
  rw [List.map_append, ← Multiset.coe_add, ← Multiset.singleton_add]
  simp only [List.map_cons, List.map_nil, Multiset.coe_singleton]
  abel

theorem acquire_postings (f : Fleet) (found : Option Nat) :
    Postings f.accounts ((f.acquire found).2.accounts.plus (.sole (f.acquire found).1 .live)) := by
  unfold acquire
  split
  · rename_i session
    split
    · rename_i hidle
      have hat := stakes_idle hidle
      split
      · have hdrop := Posting.pass (a := f.accounts) .drop hat
        rw [← stakes_dropped, List.append_nil] at hdrop
        exact .trans (.single hdrop) (fresh_postings _)
      · exact .single (Posting.pass (a := f.accounts) .take hat)
    · exact fresh_postings f
  · exact fresh_postings f

/-- What a router is put on is a share of what it lends. -/
theorem hold_postings {session : Nat} (hk : f.keepers[r]? = some k) (hs : k.held.session = some session) :
    Postings f.accounts (f.hold r k session).2.accounts ∧
      (f.hold r k session).2.keepers[r]? = some { k with held := ⟨some session, some (f.hold r k session).1⟩ } := by
  obtain ⟨⟨held, loan⟩, lender, lent, reconnect, aborted, alive⟩ := k
  obtain rfl : held = some session := hs
  cases loan with
  | some l => exact ⟨.refl, hk⟩
  | none =>
    refine ⟨?_, List.getElem?_set_self (List.getElem?_eq_some_iff.mp hk).1⟩
    have hsplit := stakes_split hk
    have hset := stakes_set hk ⟨⟨some session, some f.loans.length⟩, lender, lent, reconnect, aborted, alive⟩
    simp only [Held.stake, coe_some_add] at hsplit hset
    have hlend := Posting.lend (a := f.accounts) hsplit
    rw [show Stake.share session f.accounts.loans.length false ::ₘ f.others r = _ from hset.symm] at hlend
    exact .single hlend

theorem mem_stakes {stake : Stake} (hk : f.keepers[r]? = some k) (hstake : k.held.stake = some stake) :
    stake ∈ f.stakes := by
  rw [stakes_split hk, hstake, coe_some_add]
  exact Multiset.mem_cons_self _ _

@[simp] theorem join_keepers (f : Fleet) (l : Nat) : (f.join l).keepers = f.keepers := by
  unfold join
  split <;> rfl

theorem hold_keepers_ne (f : Fleet) (k : Keeper) (session : Nat) {r q : Nat} (hne : q ≠ r) :
    (f.hold q k session).2.keepers[r]? = f.keepers[r]? := by
  unfold hold
  split
  · rfl
  · exact List.getElem?_set_ne hne

theorem acquire_keepers (f : Fleet) (found : Option Nat) : (f.acquire found).2.keepers = f.keepers := by
  unfold acquire
  split
  · split
    · split <;> rfl
    · rfl
  · rfl

theorem join_postings (hb : f.accounts.Balanced) {s l : Nat} (hat : .share s l false ∈ f.stakes) :
    Postings f.accounts ((f.join l).accounts.plus (.share s l false)) := by
  obtain ⟨loan, hl, -⟩ := hb.share s l false hat
  have hl' : f.loans[l]? = some loan := hl
  unfold join
  rw [hl']
  exact .single (Posting.join (a := f.accounts) hat hl)

theorem share_postings (hb : f.accounts.Balanced) {session : Nat} (hk : f.keepers[r]? = some k)
    (hs : k.held.session = some session) :
    Postings f.accounts (((f.hold r k session).2.join (f.hold r k session).1).accounts.plus
      (.share session (f.hold r k session).1 false)) := by
  obtain ⟨hhold, hheld⟩ := hold_postings hk hs
  exact hhold.trans (join_postings (hb.postings hhold) (mem_stakes hheld rfl))

/-- A router is changed, but not what it holds. -/
theorem rewrite_postings (hk : f.keepers[r]? = some k) {k' : Keeper} (hheld : k'.held = k.held) :
    Postings f.accounts { f with keepers := f.keepers.set r k' }.accounts := by
  refine postings_of_stakes ?_ rfl
  rw [stakes_split hk, stakes_set hk, hheld]

theorem place_postings {a : Accounts} {stake : Stake} {k' : Keeper} (h : Postings a (f.accounts.plus stake))
    (hk : f.keepers[r]? = some k) (hempty : k.held.stake = none) (hk' : k'.held.stake = some stake) :
    Postings a { f with keepers := f.keepers.set r k' }.accounts := by
  rw [accounts_place hk hempty hk']
  exact h

theorem dial_postings (hb : f.accounts.Balanced) (found : Option Nat) (hk : f.keepers[r]? = some k)
    (hs : k.held.session = none) : Postings f.accounts (f.dial r k found).accounts := by
  have hempty : k.held.stake = none := by
    obtain ⟨⟨held, loan⟩, lender, lent, reconnect, aborted, alive⟩ := k
    obtain rfl : held = none := hs
    rfl
  unfold dial
  split
  · have hk' : (f.acquire found).2.keepers[r]? = some k := by rw [acquire_keepers]; exact hk
    exact place_postings (acquire_postings f found) hk' hempty rfl
  · rename_i q hq
    have hheld : ({ k with lender := none } : Keeper).held = k.held := rfl
    have hforget := rewrite_postings hk hheld
    have hk' : (f.keepers.set r { k with lender := none })[r]? = some { k with lender := none } :=
      List.getElem?_set_self (List.getElem?_eq_some_iff.mp hk).1
    simp only
    split
    · exact hforget
    · rename_i lender hlender
      split
      · exact hforget
      · rename_i session hsession
        split
        · exact hforget
        · -- the lender is another router: this one has nothing to share
          have hne : q ≠ r := fun heq => by
            subst heq
            obtain rfl := Option.some.inj (hk'.symm.trans hlender)
            rw [hs] at hsession
            cases hsession
          have hshare := share_postings (hb.postings hforget) hlender hsession
          refine place_postings (hforget.trans hshare) ?_ hempty rfl (k := { k with lender := none })
          rw [join_keepers, hold_keepers_ne _ _ _ hne]
          exact hk'

theorem connect_postings (hb : f.accounts.Balanced) (r : Nat) (found : Option Nat) :
    Postings f.accounts (f.connect r found).accounts := by
  unfold connect
  split
  · exact .refl
  · rename_i k hk
    split
    · exact .refl
    · split
      · split
        · exact letGo_postings f r true
        · exact .refl
      · rename_i hs
        have hdial := dial_postings hb found hk hs
        simp only
        split
        · exact hdial.trans (letGo_postings _ r true)
        · exact hdial

theorem pin_postings (hb : f.accounts.Balanced) (r : Nat) (transfer : Bool) :
    Postings f.accounts (f.pin r transfer).accounts := by
  unfold pin
  split
  · exact .refl
  · rename_i k hk
    split
    · exact postings_of_stakes ((stakes_keeper f { reconnect := false }).trans (coe_none_add _)).symm rfl
    · rename_i session hs
      split
      · refine postings_of_stakes ?_ rfl
        have hset := stakes_set hk { k with held := {} }
        rw [stakes_keeper { f with keepers := f.keepers.set r { k with held := {} } }, hset, stakes_split hk]
        rfl
      · have hshare := share_postings hb hk hs
        rw [← accounts_keeper _ (k := { reconnect := false, held := ⟨some session, some (f.hold r k session).1⟩ }) rfl]
          at hshare
        exact hshare

theorem goLocal_postings (f : Fleet) (r cameFrom : Nat) : Postings f.accounts (f.goLocal r cameFrom).accounts := by
  unfold goLocal
  split
  · exact .refl
  · rename_i hon
    have hlet := letGo_postings f r false
    have hempty : ∀ k, (f.letGo r false).keepers[r]? = some k → k.held.stake = none := by
      intro k hk
      unfold isOn at hon
      unfold letGo at hk
      cases hkr : f.keepers[r]? with
      | none => simp [hkr] at hon
      | some k₀ =>
        have hs : k₀.held.session = some cameFrom := by simpa [hkr] using hon
        simp only [hkr, hs] at hk
        rw [List.getElem?_set_self (List.getElem?_eq_some_iff.mp hkr).1] at hk
        obtain rfl := Option.some.inj hk
        rfl
    simp only
    split
    · exact hlet
    · rename_i k hk
      exact place_postings (hlet.trans (fresh_postings _)) hk (hempty k hk) rfl

theorem abort_postings (f : Fleet) (r : Nat) : Postings f.accounts (f.abort r).accounts := by
  unfold abort
  split
  · exact .refl
  · rename_i k hk
    simp only
    refine .trans ?_ (letGo_postings _ r true)
    refine postings_of_stakes ?_ rfl
    have hset := stakes_set hk { k with aborted := true, reconnect := false }
    rw [stakes_split hk, ← show _ = (k.held.stake.toList : Multiset Stake) + f.others r from hset]
    unfold stakes
    rw [List.filterMap_append, List.filterMap_map]
    have hnone : ∀ links : List Nat, links.filterMap (Task.stake ∘ Task.shut) = [] := fun links =>
      List.filterMap_eq_nil_iff.mpr fun _ _ => rfl
    rw [hnone, List.append_nil]

theorem collect_postings (f : Fleet) (r : Nat) : Postings f.accounts (f.collect r).accounts := by
  unfold collect
  split
  · exact .refl
  · rename_i k hk
    refine postings_of_stakes ?_ rfl
    have hset := (stakes_set hk { k with held := {}, alive := false }).trans (coe_none_add _)
    rw [stakes_split hk]
    obtain ⟨⟨held, loan⟩, lender, lent, reconnect, aborted, alive⟩ := k
    cases held with
    | none => simpa [Held.stake] using hset.symm
    | some session =>
      rw [← hset]
      exact (stakes_orphan _ (session, loan)).symm

theorem borrow_postings (f : Fleet) (r : Nat) (found : Option Nat) :
    Postings f.accounts (f.borrow r found).accounts := by
  have hacquire := acquire_postings f found
  have hstakes : ∀ (g : Fleet) (b : Nat × Nat), { g with borrowed := g.borrowed ++ [b] }.accounts =
      g.accounts.plus (.sole b.2 .live) := by
    intro g b
    simp only [accounts, Accounts.plus, stakes, List.map_append, List.map_cons, List.map_nil, ← Multiset.coe_add,
      Multiset.coe_singleton, ← Multiset.singleton_add, Accounts.mk.injEq, and_true]
    abel
  rw [← hstakes _ (r, (f.acquire found).1)] at hacquire
  exact hacquire

theorem giveBack_postings (f : Fleet) (r session : Nat) (failed : Bool) :
    Postings f.accounts (f.giveBack r session failed).accounts := by
  unfold giveBack
  split
  · rename_i hin
    have hperm := (List.perm_cons_erase hin).map fun b => Stake.sole b.2 .live
    refine postings_of_stakes ?_ rfl
    unfold stakes
    rw [filterMap_concat, Multiset.coe_eq_coe.mpr hperm, List.map_cons, ← Multiset.cons_coe, ← Multiset.singleton_add]
    simp only [Task.stake, Option.toList_some, Multiset.coe_singleton]
    abel
  · exact .refl

theorem leave_postings {s l : Nat} {spoiled : Bool} (hb : (f.accounts.plus (.share s l spoiled)).Balanced) :
    Postings (f.accounts.plus (.share s l spoiled)) (f.leave s l spoiled).accounts := by
  obtain ⟨loan, hl, -, hpos⟩ := hb.held (Multiset.mem_cons_self (Stake.share s l spoiled) f.stakes)
  have hl' : f.loans[l]? = some loan := hl
  unfold leave
  rw [hl']
  simp only
  split
  · rename_i hzero
    have hone : loan.holders = 1 := by omega
    have hlast := Posting.last (a := f.accounts.plus (.share s l spoiled)) (plus_stakes _ _) hl hone
    have htask := stakes_task f (if loan.spoiled || spoiled then .close s else .offer s)
    have hstake : (if loan.spoiled || spoiled then Task.close s else .offer s).stake =
        some (.sole s (if loan.spoiled || spoiled then .doomed else .live)) := by
      cases loan.spoiled || spoiled <;> rfl
    rw [hstake, coe_some_add] at htask
    rw [← htask] at hlast
    rw [hzero]
    exact .single hlast
  · rename_i hmore
    rw [List.append_nil]
    exact .single (Posting.leave (a := f.accounts.plus (.share s l spoiled)) (plus_stakes _ _) hl (by omega))

theorem stakes_eraseTask {i : Nat} {task : Task} (h : f.tasks[i]? = some task) :
    f.stakes = task.stake.toList + { f with tasks := f.tasks.eraseIdx i }.stakes := by
  unfold stakes
  rw [filterMap_split Task.stake h]
  abel

theorem stakes_closed (f : Fleet) (s : Nat) :
    { f with closed := f.closed ++ [s] }.stakes = .sole s .gone ::ₘ f.stakes := by
  unfold stakes
  rw [List.map_append, ← Multiset.coe_add, ← Multiset.singleton_add]
  simp only [List.map_cons, List.map_nil, Multiset.coe_singleton]
  abel

theorem stakes_pooled (f : Fleet) (s : Nat) :
    { f with idle := f.idle ++ [s] }.stakes = .sole s .idle ::ₘ f.stakes := by
  unfold stakes
  rw [List.map_append, ← Multiset.coe_add, ← Multiset.singleton_add]
  simp only [List.map_cons, List.map_nil, Multiset.coe_singleton]
  abel

theorem offer_postings (f : Fleet) (session : Nat) (accepted : Bool) :
    Postings (f.accounts.plus (.sole session .live)) (f.perform (.offer session) accepted).accounts := by
  simp only [perform]
  split
  · have hpool := Posting.pass (a := f.accounts.plus (.sole session .live)) .pool (plus_stakes _ _)
    rw [show Stake.sole session .idle ::ₘ f.stakes = _ from (stakes_pooled f session).symm] at hpool
    exact .single hpool
  · have hrefuse := Posting.pass (a := f.accounts.plus (.sole session .live)) .refuse (plus_stakes _ _)
    rw [show Stake.sole session .doomed ::ₘ f.stakes = _ from
      ((stakes_task f (.close session)).trans (coe_some_add _ _)).symm, List.append_nil] at hrefuse
    exact .single hrefuse

/-- A thread goes on with what it has in hand. -/
theorem perform_postings {task : Task} (accepted : Bool) {stake : Stake} (hstake : task.stake = some stake)
    (hb : (f.accounts.plus stake).Balanced) :
    Postings (f.accounts.plus stake) (f.perform task accepted).accounts := by
  cases task with
  | letGo session loan spoiled =>
    cases loan with
    | none =>
      obtain rfl := Option.some.inj hstake
      have hnext : (if spoiled then Task.close session else .offer session).stake =
          some (.sole session (if spoiled then .doomed else .live)) := by
        cases spoiled <;> rfl
      rw [← accounts_task f hnext]
      exact .refl
    | some l =>
      obtain rfl := Option.some.inj hstake
      exact leave_postings hb
  | offer session =>
    obtain rfl := Option.some.inj hstake
    exact offer_postings f session accepted
  | close session =>
    obtain rfl := Option.some.inj hstake
    have hclose := Posting.pass (a := f.accounts.plus (.sole session .doomed)) .close (plus_stakes _ _)
    rw [show Stake.sole session .gone ::ₘ f.stakes = _ from (stakes_closed f session).symm] at hclose
    exact .single hclose
  | shut session => cases hstake

theorem task_postings (hb : f.accounts.Balanced) {i : Nat} {task : Task} (accepted : Bool) (h : f.tasks[i]? = some task) :
    Postings f.accounts (Fleet.perform { f with tasks := f.tasks.eraseIdx i } task accepted).accounts := by
  have hsplit := stakes_eraseTask h
  cases hstake : task.stake with
  | none =>
    cases task with
    | letGo session loan spoiled => cases loan <;> cases hstake
    | offer session => cases hstake
    | close session => cases hstake
    | shut session => exact postings_of_stakes (hsplit.trans (coe_none_add _)) rfl
  | some stake =>
    rw [hstake, coe_some_add] at hsplit
    have hplus : f.accounts = Accounts.plus (Fleet.accounts { f with tasks := f.tasks.eraseIdx i }) stake := by
      simp only [accounts, Accounts.plus, hsplit]
    rw [hplus] at hb ⊢
    exact perform_postings accepted hstake hb

theorem step_postings (hb : f.accounts.Balanced) (op : Op) : Postings f.accounts (f.step op).accounts := by
  cases op with
  | router => exact postings_of_stakes ((stakes_keeper f {}).trans (coe_none_add _)).symm rfl
  | lend r => exact postings_of_stakes ((stakes_keeper f { lender := some r, lent := true }).trans (coe_none_add _)).symm rfl
  | connect r found => exact connect_postings hb r found
  | pin r transfer => exact pin_postings hb r transfer
  | move r cameFrom =>
    simp only [step]
    split
    · exact letGo_postings f r false
    · exact .refl
  | returnHome r spoiled => exact letGo_postings f r spoiled
  | goLocal r cameFrom => exact goLocal_postings f r cameFrom
  | drop r failed =>
    simp only [step]
    split
    · split
      · exact letGo_postings f r true
      · exact .refl
    · exact letGo_postings f r true
  | abort r => exact abort_postings f r
  | close r => exact letGo_postings f r false
  | collect r => exact collect_postings f r
  | borrow r found => exact borrow_postings f r found
  | giveBack r session failed => exact giveBack_postings f r session failed
  | task i accepted =>
    simp only [step]
    split
    · exact task_postings hb accepted (by assumption)
    · exact .refl
  | reap =>
    simp only [step]
    split
    · exact .refl
    · rename_i session loan rest horphans
      refine postings_of_stakes ?_ rfl
      have hstake : Task.stake (.letGo session loan false) = Held.stake ⟨some session, loan⟩ := by
        cases loan <;> rfl
      unfold stakes
      rw [horphans, filterMap_concat, hstake, List.filterMap_cons]
      cases hheld : Held.stake ⟨some session, loan⟩ with
      | none => simp
      | some stake =>
        simp only [Option.toList_some, ← Multiset.cons_coe, ← Multiset.singleton_add]
        abel
  | prune session =>
    simp only [step]
    split
    · rename_i hidle
      have hprune := Posting.pass (a := f.accounts) .prune (stakes_idle hidle)
      rw [List.append_nil] at hprune
      refine .single ?_
      have htask := stakes_task { f with idle := f.idle.erase session } (.close session)
      rw [show (Task.stake (.close session)) = some (.sole session .doomed) from rfl, coe_some_add] at htask
      rw [← htask] at hprune
      exact hprune
    · exact .refl
  | lose session => exact postings_of_stakes rfl rfl

theorem empty_balanced : (accounts {}).Balanced where
  holders := fun l loan h => by simp [accounts] at h
  owner := fun s => by simp [Accounts.owners, accounts, stakes]
  share := fun s l spoiled h => by simp [accounts, stakes] at h
  live := fun s h => by simp [accounts, stakes] at h
  shared := fun l loan h => by simp [accounts] at h
  pooled := fun before s after h => by simp [accounts] at h

theorem run_balanced (ops : List Op) : (run ops).accounts.Balanced := by
  have hfold : ∀ f : Fleet, f.accounts.Balanced → (ops.foldl step f).accounts.Balanced := by
    induction ops with
    | nil => exact fun f h => h
    | cons op ops ih => exact fun f h => ih _ (h.postings (step_postings h op))
  exact hfold {} empty_balanced

end Fleet

/-! ## What that says of the routers -/

def Held.shares (l : Nat) (held : Held) : Bool := decide (held.session.isSome = true ∧ held.loan = some l)

/-- The thread is about to leave a loan. -/
def Task.shares (l : Nat) : Task → Bool
  | .letGo _ loan _ => decide (loan = some l)
  | _ => false

/-- The thread is about to leave, to pool or to close a connection. -/
def Task.gives (s : Nat) : Task → Bool
  | .letGo session _ _ => decide (session = s)
  | .offer session => decide (session = s)
  | .close session => decide (session = s)
  | .shut _ => false

def Stake.session : Stake → Nat
  | .sole session _ => session
  | .share session _ _ => session

namespace Fleet

variable {f : Fleet}

/-- The routers that share a connection through a loan, the threads that are about to leave
it, and the shares of routers that were collected. -/
def sharing (f : Fleet) (l : Nat) : Nat :=
  f.keepers.countP (fun k => k.held.shares l) + f.tasks.countP (Task.shares l) +
    f.orphans.countP (fun o => decide (o.2 = some l))

/-- A connection is pooled or closed, or a thread is about to do either. -/
def GivenUp (f : Fleet) (s : Nat) : Prop :=
  s ∈ f.idle ∨ s ∈ f.closed ∨ .offer s ∈ f.tasks ∨ .close s ∈ f.tasks

theorem Held.stake_shares (l : Nat) (held : Held) : (held.stake.map (Stake.shares l)).getD false = held.shares l := by
  obtain ⟨session, loan⟩ := held
  cases session <;> cases loan <;> simp [Held.stake, Stake.shares, Held.shares]

theorem Task.stake_shares (l : Nat) (task : Task) : (task.stake.map (Stake.shares l)).getD false = task.shares l := by
  cases task with
  | letGo session loan spoiled => cases loan <;> simp [Task.stake, Stake.shares, Task.shares]
  | offer session => rfl
  | close session => rfl
  | shut session => rfl

theorem countP_shares (f : Fleet) (l : Nat) : f.stakes.countP (·.shares l = true) = f.sharing l := by
  have hsole : ∀ (ss : List Nat) (use : Use), (ss.map (Stake.sole · use)).countP (Stake.shares l) = 0 := fun ss use =>
    List.countP_eq_zero.mpr (by simp [Stake.shares])
  have hborrowed : (f.borrowed.map fun b => Stake.sole b.2 .live).countP (Stake.shares l) = 0 := by
    rw [List.countP_map]
    exact List.countP_eq_zero.mpr fun _ _ => by simp [Stake.shares]
  have horphans : (f.orphans.countP fun o => Held.shares l ⟨some o.1, o.2⟩) =
      f.orphans.countP fun o => decide (o.2 = some l) :=
    List.countP_congr fun o _ => by simp [Held.shares]
  simp only [stakes, Multiset.countP_add, Multiset.coe_countP, Bool.decide_eq_true, List.countP_filterMap, hsole, hborrowed,
    Held.stake_shares, Task.stake_shares, horphans, sharing, Nat.add_zero]

/-- Whoever has a stake in a connection. -/
theorem mem_stakes_iff {stake : Stake} : stake ∈ f.stakes ↔
    (∃ k ∈ f.keepers, k.held.stake = some stake) ∨ (∃ task ∈ f.tasks, task.stake = some stake) ∨
      (∃ o ∈ f.orphans, Held.stake ⟨some o.1, o.2⟩ = some stake) ∨ (∃ s ∈ f.idle, .sole s .idle = stake) ∨
      (∃ s ∈ f.closed, .sole s .gone = stake) ∨ (∃ s ∈ f.dropped, .sole s .gone = stake) ∨
      ∃ b ∈ f.borrowed, .sole b.2 .live = stake := by
  simp only [stakes, Multiset.mem_add, Multiset.mem_coe, List.mem_filterMap, List.mem_map, or_assoc]

theorem Held.session_of_stake {held : Held} {stake : Stake} (h : held.stake = some stake) :
    held.session = some stake.session := by
  obtain ⟨session, loan⟩ := held
  cases session <;> cases loan <;> cases h <;> rfl

theorem Task.gives_of_stake {task : Task} {stake : Stake} (h : task.stake = some stake) :
    task.gives stake.session = true := by
  cases task with
  | letGo session loan spoiled =>
    cases loan with
    | none => cases h; exact decide_eq_true rfl
    | some l => cases h; exact decide_eq_true rfl
  | offer session => cases h; exact decide_eq_true rfl
  | close session => cases h; exact decide_eq_true rfl
  | shut session => cases h

/-- A router that holds a connection has a stake in it. -/
theorem stake_of_session {k : Keeper} {s : Nat} (hk : k ∈ f.keepers) (hs : k.held.session = some s) :
    (k.held.loan = none ∧ .sole s .live ∈ f.stakes) ∨
      ∃ l, k.held.loan = some l ∧ .share s l false ∈ f.stakes := by
  have hin : ∀ stake, k.held.stake = some stake → stake ∈ f.stakes := fun stake h =>
    mem_stakes_iff.mpr (.inl ⟨k, hk, h⟩)
  obtain ⟨⟨session, loan⟩, lender, lent, reconnect, aborted, alive⟩ := k
  obtain rfl : session = some s := hs
  cases loan with
  | none => exact .inl ⟨rfl, hin _ rfl⟩
  | some l => exact .inr ⟨l, rfl, hin _ rfl⟩

/-- What somebody other than a router has to themselves, no router holds. -/
theorem not_held (hb : f.accounts.Balanced) {s : Nat} {use : Use}
    (hat : .sole s use ∈ { f with keepers := [] }.stakes) : ∀ k ∈ f.keepers, k.held.session ≠ some s := by
  have hsplit : f.stakes = (f.keepers.filterMap fun k => k.held.stake : Multiset Stake) + { f with keepers := [] }.stakes := by
    simp only [stakes, List.filterMap_nil, Multiset.coe_nil, zero_add]
    abel
  intro k hk hs
  rcases stake_of_session hk hs with ⟨hloan, -⟩ | ⟨l, -, hshare⟩
  · have hheld : k.held.stake = some (.sole s .live) := by
      obtain ⟨⟨session, loan⟩, lender, lent, reconnect, aborted, alive⟩ := k
      obtain rfl : session = some s := hs
      obtain rfl : loan = none := hloan
      rfl
    have hrouter : 0 < (f.keepers.filterMap fun k => k.held.stake : Multiset Stake).countP (·.owns s = true) :=
      Multiset.countP_pos.mpr ⟨.sole s .live, List.mem_filterMap.mpr ⟨k, hk, hheld⟩, by simp [Stake.owns]⟩
    have hother : 0 < Multiset.countP (fun stake => stake.owns s = true) { f with keepers := [] }.stakes :=
      Multiset.countP_pos.mpr ⟨.sole s use, hat, by simp [Stake.owns]⟩
    have howner := hb.owner s
    simp only [Accounts.owners, accounts, hsplit, Multiset.countP_add] at howner
    split at howner <;> omega
  · have hin : .sole s use ∈ f.stakes := by
      rw [hsplit]
      exact Multiset.mem_add.mpr (.inr hat)
    obtain ⟨rest, hrest⟩ := Multiset.exists_cons_of_mem hin
    obtain ⟨loan, hl, hsession, hpos⟩ := hb.held (a := f.accounts) hshare
    exact hb.no_loan (a := f.accounts) hrest hl hpos hsession

theorem GivenUp.not_held {s : Nat} (hb : f.accounts.Balanced) (h : f.GivenUp s) :
    ∀ k ∈ f.keepers, k.held.session ≠ some s := by
  rcases h with hidle | hclosed | hoffer | hclose
  · exact Fleet.not_held hb (mem_stakes_iff.mpr (.inr (.inr (.inr (.inl ⟨s, hidle, rfl⟩)))))
  · exact Fleet.not_held hb (mem_stakes_iff.mpr (.inr (.inr (.inr (.inr (.inl ⟨s, hclosed, rfl⟩))))))
  · exact Fleet.not_held hb (mem_stakes_iff.mpr (.inr (.inl ⟨.offer s, hoffer, rfl⟩)))
  · exact Fleet.not_held hb (mem_stakes_iff.mpr (.inr (.inl ⟨.close s, hclose, rfl⟩)))

/-- Somebody has a stake in every connection there ever was. -/
theorem staked (hb : f.accounts.Balanced) {s : Nat} (hs : s < f.made) : ∃ stake ∈ f.stakes, stake.session = s := by
  have howner := hb.owner s
  rw [if_pos (show s < f.accounts.made from hs), Accounts.owners] at howner
  rcases Nat.eq_zero_or_pos (f.stakes.countP (·.owns s = true)) with hnone | hsome
  · have hloan : 0 < f.loans.countP (Loan.owns s) := by
      simp only [accounts] at howner
      omega
    obtain ⟨loan, hin, howns⟩ := List.countP_pos_iff.mp hloan
    obtain ⟨hsession, hpos⟩ : loan.session = s ∧ 0 < loan.holders := by simpa [Loan.owns] using howns
    obtain ⟨l, hl⟩ := List.mem_iff_getElem?.mp hin
    have hshares : 0 < f.stakes.countP (·.shares l = true) := (hb.holders l loan hl) ▸ hpos
    obtain ⟨stake, hat, hshare⟩ := Multiset.countP_pos.mp hshares
    refine ⟨stake, hat, ?_⟩
    cases stake with
    | sole session use => cases hshare
    | share session l' spoiled =>
      obtain rfl : l' = l := by simpa [Stake.shares] using hshare
      obtain ⟨loan', hl', hs'⟩ := hb.share session l' spoiled hat
      obtain rfl := Option.some.inj (hl.symm.trans hl')
      exact hs'.symm.trans hsession
  · obtain ⟨stake, hat, howns⟩ := Multiset.countP_pos.mp hsome
    refine ⟨stake, hat, ?_⟩
    cases stake with
    | sole session use => exact of_decide_eq_true howns
    | share session l spoiled => cases howns

/-- Where a connection is. -/
def Kept (f : Fleet) (s : Nat) : Prop :=
  (∃ k ∈ f.keepers, k.held.session = some s) ∨ (∃ r, (r, s) ∈ f.borrowed) ∨
    (∃ task ∈ f.tasks, task.gives s = true) ∨ s ∈ f.idle ∨ s ∈ f.dropped ∨ s ∈ f.closed ∨ ∃ loan, (s, loan) ∈ f.orphans

theorem kept (hb : f.accounts.Balanced) {s : Nat} (hs : s < f.made) : f.Kept s := by
  obtain ⟨stake, hat, rfl⟩ := staked hb hs
  rcases mem_stakes_iff.mp hat with
    ⟨k, hk, h⟩ | ⟨task, ht, h⟩ | ⟨⟨session, loan⟩, ho, h⟩ | ⟨s, hin, rfl⟩ | ⟨s, hin, rfl⟩ | ⟨s, hin, rfl⟩ | ⟨⟨r, s⟩, hin, rfl⟩
  · exact .inl ⟨k, hk, Held.session_of_stake h⟩
  · exact .inr (.inr (.inl ⟨task, ht, Task.gives_of_stake h⟩))
  · obtain rfl : session = stake.session := Option.some.inj (Held.session_of_stake h)
    exact .inr (.inr (.inr (.inr (.inr (.inr ⟨loan, ho⟩)))))
  · exact .inr (.inr (.inr (.inl hin)))
  · exact .inr (.inr (.inr (.inr (.inr (.inl hin)))))
  · exact .inr (.inr (.inr (.inr (.inl hin))))
  · exact .inr (.inl ⟨r, hin⟩)

/-- While a loan is held, the routers on its connection are those that share it. -/
theorem only_sharers (hb : f.accounts.Balanced) {l : Nat} {loan : Loan} (hl : f.loans[l]? = some loan)
    (hpos : 0 < loan.holders) {k : Keeper} (hk : k ∈ f.keepers) (hs : k.held.session = some loan.session) :
    k.held.loan = some l := by
  rcases stake_of_session hk hs with ⟨-, hsole⟩ | ⟨l', hloan, hshare⟩
  · obtain ⟨rest, hrest⟩ := Multiset.exists_cons_of_mem hsole
    exact absurd rfl (hb.no_loan (a := f.accounts) hrest hl hpos)
  · obtain ⟨loan', hl', hsession, hpos'⟩ := hb.held (a := f.accounts) hshare
    obtain rfl := hb.one_loan hl' hl hpos' hpos hsession
    exact hloan

/-- After any operations of any routers, in any order. -/
theorem loans_disciplined (ops : List Op) :
    (∀ l loan, (run ops).loans[l]? = some loan → loan.holders = (run ops).sharing l) ∧
    (∀ l loan, (run ops).loans[l]? = some loan → 0 < loan.holders →
      ∀ k ∈ (run ops).keepers, k.held.session = some loan.session → k.held.loan = some l) ∧
    (∀ s, (run ops).GivenUp s → ∀ k ∈ (run ops).keepers, k.held.session ≠ some s) ∧
    (∀ before s after, (run ops).log = before ++ .pooled s :: after → phase before s = .held) ∧
    (∀ s < (run ops).made, (run ops).Kept s) := by
  have hb := run_balanced ops
  refine ⟨fun l loan hl => ?_, fun l loan hl hpos k hk hs => only_sharers hb hl hpos hk hs,
    fun s hs => hs.not_held hb, hb.pooled, fun s hs => kept hb hs⟩
  rw [← countP_shares]
  exact hb.holders l loan hl

/-- A file's router is collected: the filesystem is the only one left on the connection, and
its loan has two holders until the pool reaps. -/
theorem orphans_still_hold : ¬ ∀ (ops : List Op) (l : Nat) (loan : Loan), (run ops).loans[l]? = some loan →
    loan.holders = (run ops).keepers.countP fun k => decide (k.held.session = some loan.session) := by
  intro h
  have hcount := h [.router, .connect 0 none, .pin 0 false, .collect 1] 0 ⟨0, 2, false⟩ (by decide)
  revert hcount
  decide

end Fleet

end XrdClient.Session
