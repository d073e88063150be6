/-
  Proto/Agreed.lean --- the decoders the session machine runs are decoders of the family.

  `Responses` states them without what they could raise, which is what the machine's proofs
  need.  Here each is shown to be the one of `Decoders`, with its errors taken for what they
  are: the two readings of a field agree, and so does what comes behind it (`agree_unpack`).
-/
import XrdClient.Proto.Hostile

set_option autoImplicit false

namespace XrdClient.Proto.Decoders

open XrdClient.Lib
open XrdClient.Proto.Cursor

section

variable {β : Type} {r r' : Reader}

/-- A read, as the machine's decoders read. -/
theorem view_eq (n : Int) (r : Reader) : view n r = match r.take n with
    | .ok (bs, r') => (.ok bs, r')
    | .error e => (.error (.protocol e), r) := by
  rw [view, Act.bind_of_ok (show Act.get r = (.ok r, r) from rfl), Reader.take]
  split
  · rfl
  · split <;> rfl

theorem unpack_eq (width : Nat) (r : Reader) : unpack width r = match r.unsigned width with
    | .ok (n, r') => (.ok n, r')
    | .error e => (.error (.protocol e), r) := by
  have hview := view_eq width r
  unfold Reader.unsigned
  by_cases hlong : r.buf.length < r.pos + width
  · rw [Reader.take_error r width hlong] at hview ⊢
    exact Act.bind_of_error hview _
  · rw [Reader.take_ok r width (Nat.not_lt.mp hlong)] at hview ⊢
    rw [unpack, Act.bind_of_ok hview, if_pos]
    · rfl
    · rw [List.length_take, List.length_drop]
      omega

theorem unsigned_pos {width n : Nat} (h : r.unsigned width = .ok (n, r')) : r'.pos ≤ r'.buf.length := by
  by_cases hlong : r.buf.length < r.pos + width
  · rw [Reader.unsigned_error r width hlong] at h
    cases h
  · rw [Reader.unsigned_ok r width (Nat.not_lt.mp hlong)] at h
    cases h
    exact Nat.not_lt.mp hlong

/-- The two readings agree when what comes behind a field agrees, wherever that leaves them. -/
theorem agree_unpack {width : Nat} {k : Nat → Op β} {own : Nat × Reader → Except ProtocolError β}
    (h : ∀ n r', r'.pos ≤ r'.buf.length → ((k n) r').1 = (own (n, r')).mapError .protocol) :
    ((unpack width >>= k) r).1 = (r.unsigned width >>= own).mapError .protocol := by
  rw [Act.bind_apply, unpack_eq]
  rcases hread : r.unsigned width with e | ⟨n, r'⟩
  · rfl
  · exact h n r' (unsigned_pos hread)

theorem agree_i32 {k : Int → Op β} {own : Int × Reader → Except ProtocolError β}
    (h : ∀ n r', r'.pos ≤ r'.buf.length → ((k n) r').1 = (own (n, r')).mapError .protocol) :
    ((i32 >>= k) r).1 = (r.i32 >>= own).mapError .protocol := by
  rw [Act.bind_apply, i32, unpackSigned, Act.bind_apply, unpack_eq, Reader.i32]
  rcases hread : r.unsigned 4 with e | ⟨n, r'⟩
  · rfl
  · exact h _ r' (unsigned_pos hread)

theorem agree_skip {n : Nat} {k : Unit → Op β} {own : Bytes × Reader → Except ProtocolError β}
    (h : ∀ bs r', ((k ()) r').1 = (own (bs, r')).mapError .protocol) :
    ((skip n >>= k) r).1 = (r.take n >>= own).mapError .protocol := by
  rw [Act.bind_apply, skip, Act.bind_apply, view_eq]
  rcases r.take n with e | ⟨bs, r'⟩
  · rfl
  · exact h bs r'

theorem run_rest (k : Bytes → Op β) (h : r.pos ≤ r.buf.length) :
    ((rest >>= k) r).1 = (k r.rest { r with pos := r.buf.length }).1 := by
  have hleft : (r.buf.length : Int) - r.pos = ((r.buf.length - r.pos : Nat) : Int) := by omega
  have hend : r.pos + (r.buf.length - r.pos) = r.buf.length := Nat.add_sub_cancel' h
  have hall : (r.buf.drop r.pos).take (r.buf.length - r.pos) = r.buf.drop r.pos := by
    rw [← List.length_drop, List.take_length]
  have hrest : rest r = (.ok r.rest, { r with pos := r.buf.length }) := by
    show view ((r.buf.length : Int) - r.pos) r = _
    rw [hleft, view_eq, Reader.take_ok r _ (Nat.le_of_eq hend), hend, hall]
    rfl
  rw [Act.bind_of_ok hrest]

end

variable (data : Bytes)

theorem parseError_eq : parseError data = (Proto.parseError data).mapError .protocol :=
  agree_i32 fun _ _ _ => rfl

theorem parseWait_eq : parseWait data = (Proto.parseWait data).mapError .protocol :=
  agree_i32 fun _ _ _ => rfl

theorem parseWaitresp_eq : parseWaitresp data = (Proto.parseWaitresp data).mapError .protocol :=
  agree_i32 fun _ _ _ => rfl

theorem parseAttn_eq : parseAttn data = (Proto.parseAttn data).mapError .protocol :=
  agree_i32 fun _ _ hr => run_rest _ hr

theorem parseBind_eq : parseBind data = (Proto.parseBind data).mapError .protocol := by
  refine agree_unpack fun pathid r _ => ?_
  dsimp only
  split <;> rfl

theorem parseStatus_eq : parseStatus data = (Proto.parseStatus data).mapError .protocol := by
  refine agree_unpack fun crc r _ => agree_unpack fun streamid r _ => agree_unpack fun requestid r _ => ?_
  refine agree_unpack fun resptype r _ => agree_skip fun _ r => agree_i32 fun dlen r hr => ?_
  exact run_rest _ hr

/-- Where there is no separator, there is no token to trim. -/
theorem parseRedirect_eq : parseRedirect data = (Proto.parseRedirect data).mapError .protocol := by
  refine agree_i32 fun port r hr => (run_rest _ hr).trans ?_
  dsimp only
  obtain ⟨-, heq⟩ | ⟨head, tail, -, -, heq⟩ :=
    partitionAt_cases '?' ((decodeReplace r.rest).takeWhile fun c => !endsTarget c)
  · rw [heq]
    dsimp only
    split <;> rfl
  · rw [heq]
    dsimp only
    split <;> rfl

/-- However short the body is, what is left of it is what it has of an id. -/
theorem parseLogin_eq : parseLogin data = .ok (Proto.parseLogin data) := by
  have hmin : min (SESSION_ID_LEN : Int) ((data.length : Int) - (0 : Nat)) =
      ((min SESSION_ID_LEN data.length : Nat) : Int) := by omega
  have hfits : (Reader.mk data 0 .login).pos + min SESSION_ID_LEN data.length ≤ data.length := by
    rw [Nat.zero_add]
    exact Nat.min_le_right _ _
  have hsessid : (data.drop 0).take (min SESSION_ID_LEN data.length) = data.take SESSION_ID_LEN :=
    List.take_eq_take_min.symm
  have hrest : data.drop (0 + min SESSION_ID_LEN data.length) = data.drop SESSION_ID_LEN := by
    rw [Nat.zero_add]
    exact List.drop_eq_drop_min.symm
  show ((view (min (SESSION_ID_LEN : Int) ((data.length : Int) - (0 : Nat))) >>= fun sessid =>
    rest >>= fun sec => pure (LoginInfo.mk sessid (textOf sec))) ⟨data, 0, .login⟩).1 = _
  rw [hmin, Act.bind_apply, view_eq, Reader.take_ok _ _ hfits]
  refine (run_rest _ hfits).trans ?_
  show Except.ok (LoginInfo.mk ((data.drop 0).take _) (decodeReplace (untilNul (data.drop _)))) = _
  rw [hsessid, hrest]
  rfl

/-- Of the six bytes the record begins with, none is missed. -/
theorem item_eq {reqs : Bytes} {i : Nat} (h : i < reqs.length) : item reqs i = .ok (reqs.getD i 0) := by
  rw [item, List.getD_eq_getElem?_getD, List.getElem?_eq_getElem h]
  rfl

theorem head_eq_iff (bs : Bytes) : bs.take 1 = [secReqsTag] ↔ bs.head? = some secReqsTag := by
  cases bs <;> simp

theorem findSecReqs_eq (trailer : Bytes) :
    findSecReqs trailer = .ok (Proto.findSecReqs trailer) := by
  unfold findSecReqs Proto.findSecReqs
  simp only [head_eq_iff]
  split
  · rfl
  by_cases hshort : trailer.length < 4
  · rw [if_pos hshort, if_neg]
    omega
  · rw [if_neg hshort, item_eq (by omega)]
    have hlong : 4 ≤ trailer.length := Nat.not_lt.mp hshort
    simp only [hlong, true_and]
    rfl

theorem overridesFrom_eq (reqs : Bytes) (count : Nat) : ∀ (pos : Nat) (overrides : Assoc Nat Nat),
    overridesFrom reqs count pos overrides = .ok (secOverrides count (reqs.drop pos) overrides) := by
  induction count with
  | zero =>
    intro pos overrides
    cases reqs.drop pos <;> rfl
  | succ count ih =>
    intro pos overrides
    unfold overridesFrom
    by_cases hshort : reqs.length < pos + 2
    · rw [if_pos hshort]
      have hlen : (reqs.drop pos).length < 2 := by
        rw [List.length_drop]
        omega
      match reqs.drop pos, hlen with
      | [], _ => rfl
      | [_], _ => rfl
    · rw [if_neg hshort, item_eq (by omega), item_eq (by omega)]
      have hpair : reqs.drop pos = reqs.getD pos 0 :: reqs.getD (pos + 1) 0 :: reqs.drop (pos + 2) := by
        have hcons : ∀ i < reqs.length, reqs.drop i = reqs.getD i 0 :: reqs.drop (i + 1) := by
          intro i hi
          rw [List.drop_eq_getElem_cons hi, List.getD_eq_getElem?_getD, List.getElem?_eq_getElem hi]
          rfl
        rw [hcons pos (by omega), hcons (pos + 1) (by omega)]
      rw [hpair]
      exact ih (pos + 2) _

theorem protocolOf_eq (version : Int) (flags : Nat) {reqs : Bytes} (hlong : 6 ≤ reqs.length) :
    protocolOf version flags (some reqs) = .ok {
      version := version
      flags := flags
      securityVersion := (reqs.getD 2 0).toNat
      securityOptions := (reqs.getD 3 0).toNat
      securityLevel := (reqs.getD 4 0).toNat
      securityOverrides := secOverrides (reqs.getD 5 0).toNat (reqs.drop 6) [] } := by
  rw [protocolOf, item_eq (by omega), item_eq (by omega), item_eq (by omega), item_eq (by omega)]
  show (overridesFrom reqs (reqs.getD 5 0).toNat 6 [] >>= _) = _
  rw [overridesFrom_eq]
  rfl

theorem parseProtocol_eq : parseProtocol data = (Proto.parseProtocol data).mapError .protocol := by
  refine agree_i32 fun version r _ => agree_unpack fun flags r hr => (run_rest _ hr).trans ?_
  have hreqs := findSecReqs_spec (List.infix_refl r.rest)
  rw [findSecReqs_eq] at hreqs ⊢
  dsimp only
  rcases hfound : Proto.findSecReqs r.rest with _ | reqs
  · rfl
  · have hlong : 6 ≤ reqs.length := (hreqs reqs hfound).2
    show (Act.ofExcept (protocolOf version flags (some reqs)) _).1 = _
    rw [protocolOf_eq version flags hlong]
    rfl

end XrdClient.Proto.Decoders
