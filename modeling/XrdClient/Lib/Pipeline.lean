/-
  Lib/Pipeline.lean --- requests in flight, and which reply is to which of them.

  Requests go out on ids that are used again.  A reply names the id alone, and comes
  in parts, of which one is the last.  Two readings of the same traffic:

      the server's     the k-th last part on an id is over for the k-th request on it
                       (`answers`)
      the client's     a table from the ids that are owed an answer to the request
                       that it is owed for (`Matched`)

  They agree as long as a request only goes out on an id that nothing is owed on, and
  a reply is only taken on one that something is owed on, whatever the order of the
  two kinds of step.
-/
import Mathlib
import XrdClient.Lib.Assoc

set_option autoImplicit false

namespace XrdClient.Lib

/-- A part of the answer on `id`; `closing` is the verdict that comes with the last one. -/
structure Reply (ι τ α : Type) where
  id : ι
  closing : Option τ
  data : List α

/-- A request's whole answer. -/
structure Answer (ρ τ α : Type) where
  request : ρ
  verdict : τ
  data : List α

namespace Pipeline

variable {ι ρ τ α : Type} [DecidableEq ι]

/-! ## The server's reading -/

/-- The requests on one id, in order. -/
def requestsOn (i : ι) (asked : List (ι × ρ)) : List ρ :=
  (asked.filter fun a => a.1 = i).map Prod.snd

/-- How many answers on one id are over. -/
def overs (i : ι) (replies : List (Reply ι τ α)) : Nat :=
  replies.countP fun p => decide (p.id = i) && p.closing.isSome

/-- One part of an answer behind what came on the id before. -/
def gather (i : ι) (got : List α) (p : Reply ι τ α) : List α :=
  if p.id = i then if p.closing.isSome then [] else got ++ p.data else got

/-- What has come on one id since its last answer was over. -/
def gathered (i : ι) (replies : List (Reply ι τ α)) : List α := replies.foldl (gather i) []

/-- The answer that `p` completes, behind `before`. -/
def answer (asked : List (ι × ρ)) (before : List (Reply ι τ α)) (p : Reply ι τ α) :
    Option (Answer ρ τ α) :=
  match p.closing, (requestsOn p.id asked)[overs p.id before]? with
  | some verdict, some request => some ⟨request, verdict, gathered p.id before ++ p.data⟩
  | _, _ => none

/-- The answers completed by some replies behind `before`. -/
def answersFrom (asked : List (ι × ρ)) :
    List (Reply ι τ α) → List (Reply ι τ α) → List (Answer ρ τ α)
  | _, [] => []
  | before, p :: rest => (answer asked before p).toList ++ answersFrom asked (before ++ [p]) rest

/-- The answers, in the order in which they are completed. -/
def answers (asked : List (ι × ρ)) (replies : List (Reply ι τ α)) : List (Answer ρ τ α) :=
  answersFrom asked [] replies

@[simp] theorem requestsOn_nil (i : ι) : requestsOn i ([] : List (ι × ρ)) = [] := rfl

theorem requestsOn_append (i : ι) (asked more : List (ι × ρ)) :
    requestsOn i (asked ++ more) = requestsOn i asked ++ requestsOn i more := by
  simp [requestsOn]

theorem requestsOn_snoc_self (i : ι) (asked : List (ι × ρ)) (request : ρ) :
    requestsOn i (asked ++ [(i, request)]) = requestsOn i asked ++ [request] := by
  simp [requestsOn]

theorem requestsOn_snoc_of_ne {i j : ι} (h : j ≠ i) (asked : List (ι × ρ)) (request : ρ) :
    requestsOn i (asked ++ [(j, request)]) = requestsOn i asked := by
  simp [requestsOn, h]

theorem overs_snoc (i : ι) (replies : List (Reply ι τ α)) (p : Reply ι τ α) :
    overs i (replies ++ [p]) = overs i replies + if p.id = i ∧ p.closing.isSome then 1 else 0 := by
  simp only [overs, List.countP_append, List.countP_singleton, Bool.and_eq_true,
    decide_eq_true_eq]

theorem overs_snoc_of_ne {i : ι} (replies : List (Reply ι τ α)) {p : Reply ι τ α} (h : p.id ≠ i) :
    overs i (replies ++ [p]) = overs i replies := by
  simp [overs_snoc, h]

theorem gathered_snoc (i : ι) (replies : List (Reply ι τ α)) (p : Reply ι τ α) :
    gathered i (replies ++ [p]) = gather i (gathered i replies) p := by
  simp [gathered]

theorem gathered_snoc_of_ne {i : ι} (replies : List (Reply ι τ α)) {p : Reply ι τ α}
    (h : p.id ≠ i) : gathered i (replies ++ [p]) = gathered i replies := by
  simp [gathered_snoc, gather, h]

theorem answersFrom_append (asked : List (ι × ρ)) (first : List (Reply ι τ α)) :
    ∀ before second : List (Reply ι τ α), answersFrom asked before (first ++ second) =
      answersFrom asked before first ++ answersFrom asked (before ++ first) second := by
  induction first with
  | nil => intro before second; simp [answersFrom]
  | cons p first ih =>
    intro before second
    simp only [List.cons_append, answersFrom, ih, List.append_assoc, List.nil_append]

/-- One reply more completes one answer more at the most. -/
theorem answers_snoc (asked : List (ι × ρ)) (replies : List (Reply ι τ α)) (p : Reply ι τ α) :
    answers asked (replies ++ [p]) = answers asked replies ++ (answer asked replies p).toList := by
  simp [answers, answersFrom_append, answersFrom]

/-- The answers that are over stay as they are. -/
theorem answers_prefix (asked : List (ι × ρ)) (replies more : List (Reply ι τ α)) :
    answers asked replies <+: answers asked (replies ++ more) := by
  unfold answers
  rw [answersFrom_append]
  exact List.prefix_append _ _

theorem overs_le_append (i : ι) (replies more : List (Reply ι τ α)) :
    overs i replies ≤ overs i (replies ++ more) := by
  unfold overs
  rw [List.countP_append]
  exact Nat.le_add_right _ _

/-- A request more is not answered by what came before it, if the answers that did
were to requests before it. -/
theorem answers_more (asked more : List (ι × ρ)) (replies : List (Reply ι τ α))
    (h : ∀ i, overs i replies ≤ (requestsOn i asked).length) :
    answers (asked ++ more) replies = answers asked replies := by
  induction replies using List.reverseRecOn with
  | nil => rfl
  | append_singleton replies p ih =>
    have hbefore : ∀ i, overs i replies ≤ (requestsOn i asked).length := fun i =>
      Nat.le_trans (overs_le_append i replies [p]) (h i)
    rw [answers_snoc, answers_snoc, ih hbefore]
    congr 2
    unfold answer
    cases hover : p.closing with
    | none => rfl
    | some verdict =>
      -- the reply is over for a request, and the request is one of the first
      have hlt : overs p.id replies < (requestsOn p.id asked).length := by
        have := h p.id
        rw [overs_snoc] at this
        simp only [hover, Option.isSome_some, and_self, if_true] at this
        omega
      rw [requestsOn_append, List.getElem?_append_left hlt]

/-- What comes with the last part of an answer. -/
theorem verdict_of_answers {asked : List (ι × ρ)} {replies : List (Reply ι τ α)} {a : Answer ρ τ α}
    (ha : a ∈ answers asked replies) : ∃ p ∈ replies, p.closing = some a.verdict := by
  induction replies using List.reverseRecOn with
  | nil => cases ha
  | append_singleton replies p ih =>
    rw [answers_snoc] at ha
    rcases List.mem_append.mp ha with ha | ha
    · obtain ⟨q, hq, hclosing⟩ := ih ha
      exact ⟨q, List.mem_append_left _ hq, hclosing⟩
    · refine ⟨p, by simp, ?_⟩
      rw [Option.mem_toList] at ha
      unfold answer at ha
      split at ha
      · next verdict request hclosing _ =>
        obtain rfl := Option.some.inj ha
        exact hclosing
      · cases ha

/-- An answer that begins with a part is over for the request that the part is for. -/
theorem answers_over {asked : List (ι × ρ)} {before : List (Reply ι τ α)} {p : Reply ι τ α}
    {request : ρ} {verdict : τ} (hclosing : p.closing = some verdict)
    (hrequest : (requestsOn p.id asked)[overs p.id before]? = some request) (rest : List (Reply ι τ α)) :
    ⟨request, verdict, gathered p.id before ++ p.data⟩ ∈ answers asked (before ++ p :: rest) := by
  have hlast : answers asked (before ++ [p]) =
      answers asked before ++ [⟨request, verdict, gathered p.id before ++ p.data⟩] := by
    simp [answers_snoc, answer, hclosing, hrequest]
  have hprefix := answers_prefix asked (before ++ [p]) rest
  rw [List.append_assoc, List.singleton_append] at hprefix
  exact hprefix.subset (by simp [hlast])

/-- An answer that is over takes up what came on its id before. -/
theorem answers_extend {asked : List (ι × ρ)} {i : ι} {request : ρ} : ∀ rest before : List (Reply ι τ α),
    (requestsOn i asked)[overs i before]? = some request →
    overs i before < overs i (before ++ rest) →
    ∃ a ∈ answers asked (before ++ rest), a.request = request ∧ gathered i before <+: a.data := by
  intro rest
  induction rest with
  | nil =>
    intro before _ hover
    rw [List.append_nil] at hover
    exact absurd hover (Nat.lt_irrefl _)
  | cons p rest ih =>
    intro before hrequest hover
    have hsplit : before ++ p :: rest = (before ++ [p]) ++ rest := by simp
    by_cases hid : p.id = i
    · subst hid
      cases hclosing : p.closing with
      | some verdict => exact ⟨_, answers_over hclosing hrequest rest, rfl, List.prefix_append _ _⟩
      | none =>
        have hsame : overs p.id (before ++ [p]) = overs p.id before := by simp [overs_snoc, hclosing]
        rw [hsplit] at hover ⊢
        obtain ⟨a, ha, hfor, hdata⟩ := ih (before ++ [p]) (hsame ▸ hrequest) (hsame ▸ hover)
        refine ⟨a, ha, hfor, List.IsPrefix.trans ?_ hdata⟩
        rw [gathered_snoc, gather, if_pos rfl, hclosing]
        exact List.prefix_append _ _
    · have hsame := overs_snoc_of_ne before hid
      rw [hsplit] at hover ⊢
      obtain ⟨a, ha, hfor, hdata⟩ := ih (before ++ [p]) (hsame ▸ hrequest) (hsame ▸ hover)
      rw [gathered_snoc_of_ne before hid] at hdata
      exact ⟨a, ha, hfor, hdata⟩

/-- The same with a part of it in hand. -/
theorem answers_part {asked : List (ι × ρ)} {before rest : List (Reply ι τ α)} {p : Reply ι τ α}
    {request : ρ} (hrequest : (requestsOn p.id asked)[overs p.id before]? = some request)
    (hover : overs p.id before < overs p.id (before ++ p :: rest)) :
    ∃ a ∈ answers asked (before ++ p :: rest),
      a.request = request ∧ gathered p.id before ++ p.data <+: a.data := by
  cases hclosing : p.closing with
  | some verdict => exact ⟨_, answers_over hclosing hrequest rest, rfl, List.prefix_rfl⟩
  | none =>
    have hsame : overs p.id (before ++ [p]) = overs p.id before := by simp [overs_snoc, hclosing]
    have hsplit : before ++ p :: rest = (before ++ [p]) ++ rest := by simp
    rw [hsplit] at hover ⊢
    obtain ⟨a, ha, hfor, hdata⟩ := answers_extend rest (before ++ [p]) (hsame ▸ hrequest) (hsame ▸ hover)
    refine ⟨a, ha, hfor, ?_⟩
    rw [gathered_snoc, gather, if_pos rfl, hclosing] at hdata
    exact hdata

/-- As many answers as replies at the most. -/
theorem length_answers_le (asked : List (ι × ρ)) (replies : List (Reply ι τ α)) :
    (answers asked replies).length ≤ replies.length := by
  induction replies using List.reverseRecOn with
  | nil => exact Nat.le_refl _
  | append_singleton replies p ih =>
    have hone : (answer asked replies p).toList.length ≤ 1 := by
      cases answer asked replies p <;> simp
    rw [answers_snoc, List.length_append, List.length_append]
    exact Nat.add_le_add ih hone

/-- The next element of a plan is behind those before it. -/
theorem prefix_snoc {plan first : List ρ} (h : first <+: plan) {x : ρ}
    (hx : plan[first.length]? = some x) : first ++ [x] <+: plan := by
  obtain ⟨rest, rfl⟩ := h
  rw [List.getElem?_append_right (Nat.le_refl _), Nat.sub_self] at hx
  cases rest with
  | nil => cases hx
  | cons y rest =>
    obtain rfl : y = x := by simpa using hx
    exact ⟨rest, by simp⟩

/-! ## The client's reading -/

/-- The table of a client that has sent `asked` and taken `replies`: it holds the
request that an id is owed an answer for, and `done` is what it has seen answered. -/
structure Matched (asked : List (ι × ρ)) (replies : List (Reply ι τ α)) (owed : Assoc ι ρ)
    (done : List (Answer ρ τ α)) : Prop where
  nodup : (owed.map Prod.fst).Nodup
  count : ∀ i, (requestsOn i asked).length =
    overs i replies + if (owed.get i).isSome then 1 else 0
  request : ∀ i request, owed.get i = some request →
    (requestsOn i asked)[overs i replies]? = some request
  clear : ∀ i, owed.get i = none → gathered i replies = []
  answered : answers asked replies = done
  perm : (asked.map Prod.snd).Perm (done.map Answer.request ++ owed.map Prod.snd)

theorem Matched.nil : Matched ([] : List (ι × ρ)) ([] : List (Reply ι τ α)) [] [] :=
  ⟨List.nodup_nil, fun i => by simp [overs], nofun, fun i _ => rfl, rfl, List.Perm.refl _⟩

section

variable {asked : List (ι × ρ)} {replies : List (Reply ι τ α)} {owed : Assoc ι ρ}
  {done : List (Answer ρ τ α)}

/-- Every answer that is over is one to a request that went out. -/
theorem Matched.overs_le (h : Matched asked replies owed done) (i : ι) :
    overs i replies ≤ (requestsOn i asked).length := by
  rw [h.count i]
  exact Nat.le_add_right _ _

/-- A request goes out on an id that nothing is owed on. -/
theorem Matched.ask (h : Matched asked replies owed done) {i : ι} (hfree : owed.get i = none)
    (request : ρ) :
    Matched (asked ++ [(i, request)]) replies (owed.set i request) done := by
  refine ⟨Assoc.nodup_set h.nodup i request, fun j => ?_, fun j request' howed => ?_,
    fun j howed => ?_, ?_, ?_⟩
  · have hcount := h.count j
    by_cases hj : j = i
    · subst hj
      rw [requestsOn_snoc_self, List.length_append, hcount, hfree]
      simp
    · rw [requestsOn_snoc_of_ne (fun e => hj e.symm), hcount, Assoc.get_set_of_ne _ _ hj]
  · by_cases hj : j = i
    · subst hj
      rw [Assoc.get_set_self, Option.some.injEq] at howed
      have hcount := h.count j
      rw [hfree] at hcount
      have hlen : (requestsOn j asked).length = overs j replies := by simpa using hcount
      rw [requestsOn_snoc_self, ← hlen, List.getElem?_concat_length, howed]
    · rw [Assoc.get_set_of_ne _ _ hj] at howed
      rw [requestsOn_snoc_of_ne (fun e => hj e.symm)]
      exact h.request j request' howed
  · by_cases hj : j = i
    · subst hj
      rw [Assoc.get_set_self] at howed
      cases howed
    · rw [Assoc.get_set_of_ne _ _ hj] at howed
      exact h.clear j howed
  · rw [answers_more asked [(i, request)] replies h.overs_le]
    exact h.answered
  · rw [Assoc.set_of_get_none hfree, List.map_append, List.map_append, ← List.append_assoc]
    exact h.perm.append_right _

/-- A part that is not the last one. -/
theorem Matched.part (h : Matched asked replies owed done) {p : Reply ι τ α} {request : ρ}
    (howed : owed.get p.id = some request) (hover : p.closing = none) :
    Matched asked (replies ++ [p]) owed done := by
  have hovers : ∀ i, overs i (replies ++ [p]) = overs i replies := fun i => by
    simp [overs_snoc, hover]
  refine ⟨h.nodup, fun i => by rw [hovers, h.count i], fun i request' hi => ?_, fun i hi => ?_, ?_,
    h.perm⟩
  · rw [hovers]
    exact h.request i request' hi
  · have hne : p.id ≠ i := by
      rintro rfl
      rw [howed] at hi
      cases hi
    rw [gathered_snoc_of_ne _ hne]
    exact h.clear i hi
  · rw [answers_snoc, h.answered]
    simp [answer, hover]

/-- The last part of an answer is over for the request that the table holds. -/
theorem Matched.last (h : Matched asked replies owed done) {p : Reply ι τ α} {request : ρ}
    {verdict : τ} (howed : owed.get p.id = some request) (hover : p.closing = some verdict) :
    Matched asked (replies ++ [p]) (owed.del p.id)
      (done ++ [⟨request, verdict, gathered p.id replies ++ p.data⟩]) := by
  refine ⟨Assoc.nodup_del h.nodup _, fun i => ?_, fun i request' hi => ?_, fun i hi => ?_, ?_, ?_⟩
  · have hcount := h.count i
    by_cases heq : i = p.id
    · subst heq
      rw [howed] at hcount
      rw [overs_snoc, hcount]
      simp [hover]
    · rw [overs_snoc_of_ne _ (fun e => heq e.symm), hcount, Assoc.get_del_of_ne _ heq]
  · have hne : i ≠ p.id := by
      rintro rfl
      rw [Assoc.get_del_self] at hi
      cases hi
    rw [Assoc.get_del_of_ne _ hne] at hi
    rw [overs_snoc_of_ne _ (fun e => hne e.symm)]
    exact h.request i request' hi
  · by_cases heq : i = p.id
    · subst heq
      simp [gathered_snoc, gather, hover]
    · rw [Assoc.get_del_of_ne _ heq] at hi
      rw [gathered_snoc_of_ne _ (fun e => heq e.symm)]
      exact h.clear i hi
  · rw [answers_snoc, h.answered]
    simp [answer, hover, h.request p.id request howed]
  · have hout := (Assoc.perm_del h.nodup howed).map Prod.snd
    refine h.perm.trans ((hout.append_left _).trans ?_)
    rw [List.map_append, List.map_singleton, List.append_assoc]
    exact List.Perm.refl _

/-- With nothing owed, what was asked is what was answered. -/
theorem Matched.complete (h : Matched asked replies [] done) :
    (asked.map Prod.snd).Perm (done.map Answer.request) := by
  simpa using h.perm

/-- With nothing owed, what comes behind answers nothing more. -/
theorem Matched.answers_append (h : Matched asked replies [] done) (more : List (Reply ι τ α)) :
    answers asked (replies ++ more) = done := by
  induction more using List.reverseRecOn with
  | nil => rw [List.append_nil, h.answered]
  | append_singleton more p ih =>
    have hnone : (requestsOn p.id asked)[overs p.id (replies ++ more)]? = none := by
      refine List.getElem?_eq_none (Nat.le_trans (Nat.le_of_eq ?_) (overs_le_append p.id replies more))
      simpa using h.count p.id
    rw [← List.append_assoc, answers_snoc, ih]
    simp [answer, hnone]

/-- What a part adds to an answer that is not over. -/
theorem gathered_part {p : Reply ι τ α} (hover : p.closing = none) :
    gathered p.id (replies ++ [p]) = gathered p.id replies ++ p.data := by
  simp [gathered_snoc, gather, hover]

end

end Pipeline

end XrdClient.Lib
