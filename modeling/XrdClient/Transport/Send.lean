/-
  Transport/Send.lean --- buffers, handed to a socket piece by piece.

  Source: `byte_view` and `coalesce` of `transport/base.py`; `_iov_max`, `_advance` and
  `send_buffers` of `transport/sync.py`.

  THE VIEWS.  `len` of a view counts the items of its first dimension, and a slice takes such
  items; the socket counts bytes.  `byte_view` makes the two the same where it casts, and leaves
  a view of format `B` as it is, whatever its shape.

  THE KERNEL.  `sendmsg` takes what it likes of what it is offered, one byte at least; how
  much may depend on how often it was called and on what it was offered.  A `Kernel` is any
  such behaviour.

  `delivers_iff` says which buffers are delivered: those whose views count their bytes.
-/
import XrdClient.Lib.Bytes
import XrdClient.Lib.Loop

set_option autoImplicit false

namespace XrdClient.Transport

open XrdClient.Lib

/-! ## Buffers and views -/

/-- What a send takes: `bytes`, a `bytearray`, or a `memoryview` of anything, whose items lie one
behind the other, as a socket demands. -/
structure Buffer where
  format : Text
  itemsize : Nat
  shape : List Nat
  bytes : Bytes
  size : bytes.length = itemsize * shape.prod
  bytewise : format = ['B'] → itemsize = 1

/-- `bytes`, or a `bytearray`. -/
def Buffer.ofBytes (bytes : Bytes) : Buffer where
  format := ['B']
  itemsize := 1
  shape := [bytes.length]
  bytes := bytes
  size := by simp
  bytewise := fun _ => rfl

/-- A view as `len` and a slice have it: how many items there are, and of how many bytes each. -/
structure View where
  rows : Nat
  width : Nat
  bytes : Bytes
  size : bytes.length = rows * width

/-- `view.cast("B")` -/
def View.flat (bytes : Bytes) : View := ⟨bytes.length, 1, bytes, (Nat.mul_one _).symm⟩

/-- `byte_view`, and `len` of what it gives; `none` where one of them raises `TypeError`: there is
no length without a dimension, and no cast of a shape with a zero in it. -/
def byteView (b : Buffer) : Option View :=
  if hformat : b.format = ['B'] then
    match hshape : b.shape with
    | [] => none
    | rows :: rest => some ⟨rows, rest.prod, b.bytes, by
        rw [b.size, b.bytewise hformat, hshape, List.prod_cons, Nat.one_mul]⟩
  else if b.shape.length ≠ 1 ∧ 0 ∈ b.shape then none
  else some (.flat b.bytes)

/-- `view[n:]` -/
def View.drop (v : View) (n : Nat) : View where
  rows := v.rows - n
  width := v.width
  bytes := v.bytes.drop (n * v.width)
  size := by rw [List.length_drop, v.size, ← Nat.sub_mul]

/-- The bytes of `view[:n]`. -/
def View.take (v : View) (n : Nat) : Bytes := v.bytes.take (n * v.width)

/-- `len` counts the bytes. -/
def View.Flat (v : View) : Prop := v.rows = v.bytes.length

instance (v : View) : Decidable v.Flat := inferInstanceAs (Decidable (_ = _))

/-- The view that a send makes of a buffer counts its bytes: the first dimension of one that it
takes as it is does, and any other can be cast. -/
def Buffer.CountsBytes (b : Buffer) : Prop :=
  if b.format = ['B'] then b.shape.head? = some b.bytes.length else b.shape.length = 1 ∨ 0 ∉ b.shape

instance (b : Buffer) : Decidable b.CountsBytes := by
  unfold Buffer.CountsBytes
  infer_instance

theorem byteView_bytes {b : Buffer} {v : View} (h : byteView b = some v) : v.bytes = b.bytes := by
  unfold byteView at h
  repeat' split at h
  all_goals cases h
  all_goals rfl

theorem countsBytes_iff {b : Buffer} : b.CountsBytes ↔ ∃ v, byteView b = some v ∧ v.Flat := by
  unfold Buffer.CountsBytes byteView
  by_cases hformat : b.format = ['B']
  · rw [if_pos hformat, dif_pos hformat]
    split
    · next hshape => simp [hshape]
    · next rows rest hshape => simp [hshape, View.Flat]
  · rw [if_neg hformat, dif_neg hformat]
    split
    · next hzero =>
      exact ⟨fun h => (h.elim hzero.1 fun h => h hzero.2).elim, nofun⟩
    · next hzero =>
      refine ⟨fun _ => ⟨_, rfl, rfl⟩, fun _ => ?_⟩
      by_contra h
      rw [not_or, not_not] at h
      exact hzero h

namespace View

theorem take_append_drop (v : View) (n : Nat) : v.take n ++ (v.drop n).bytes = v.bytes :=
  List.take_append_drop _ _

theorem bytes_nil {v : View} (h : v.rows = 0) : v.bytes = [] :=
  List.length_eq_zero_iff.mp (by rw [v.size, h, Nat.zero_mul])

/-- Where `len` counts the bytes, so does a slice. -/
theorem Flat.drop_bytes {v : View} (h : v.Flat) (n : Nat) : (v.drop n).bytes = v.bytes.drop n := by
  show v.bytes.drop (n * v.width) = v.bytes.drop n
  obtain hnone | hsome := Nat.eq_zero_or_pos v.rows
  · rw [bytes_nil hnone, List.drop_nil, List.drop_nil]
  · have hwidth : v.width = 1 := by
      have hsize : v.rows * v.width = v.rows * 1 := by rw [← v.size, Nat.mul_one, h]
      exact Nat.eq_of_mul_eq_mul_left hsome hsize
    rw [hwidth, Nat.mul_one]

theorem Flat.drop {v : View} (h : v.Flat) (n : Nat) : (v.drop n).Flat := by
  rw [Flat, h.drop_bytes, List.length_drop, ← h]
  rfl

theorem Flat.length_take {v : View} (h : v.Flat) (n : Nat) : (v.take n).length ≤ n := by
  have hsplit := congrArg List.length (v.take_append_drop n)
  rw [List.length_append, h.drop_bytes, List.length_drop] at hsplit
  omega

end View

/-- The bytes of some buffers. -/
def joined (buffers : List Buffer) : Bytes := (buffers.map Buffer.bytes).flatten

/-- The bytes of some views. -/
def bytesOf (views : List View) : Bytes := (views.map View.bytes).flatten

/-! ## The vectored send -/

/-- `_iov_max`; `limit` is what `sysconf` says, if it says something. -/
def iovMax (limit : Option Int) : Nat :=
  match limit with
  | none => 16
  | some limit => (max 16 (min limit 1024)).toNat

theorem iovMax_pos (limit : Option Int) : 0 < iovMax limit := by
  unfold iovMax
  split <;> omega

/-- `_advance` -/
def advance : List View → Nat → List View
  | [], _ => []
  | view :: views, sent =>
      if sent < view.rows then view.drop sent :: views else advance views (sent - view.rows)

/-- How much `sendmsg` takes, by how often it was called and what it is offered. -/
structure Kernel where
  took : Nat → List Bytes → Nat
  took_pos : ∀ {call : Nat} {offered : List Bytes}, offered.flatten ≠ [] → 0 < took call offered
  took_le : ∀ (call : Nat) (offered : List Bytes), took call offered ≤ offered.flatten.length

/-- One that takes so many bytes at a time. -/
def Kernel.taking (n : Nat) (hn : 0 < n) : Kernel where
  took := fun _ offered => min n offered.flatten.length
  took_pos := fun h => Nat.lt_min.mpr ⟨hn, List.length_pos_of_ne_nil h⟩
  took_le := fun _ _ => Nat.min_le_right _ _

instance : Inhabited Kernel where
  default := .taking 1 Nat.one_pos

/-- `list(map(byte_view, buffers))` -/
def byteViews : List Buffer → Option (List View)
  | [] => some []
  | buffer :: buffers => do
      let view ← byteView buffer
      let views ← byteViews buffers
      pure (view :: views)

/-- `while views: views = _advance(views, sock.sendmsg(views[:_IOV_MAX]))`: what each call takes, if
the loop ends in so many turns. -/
def sendViews (limit : Option Int) (kernel : Kernel) : Nat → Nat → List View → Option (List Bytes)
  | _, _, [] => some []
  | 0, _, _ :: _ => none
  | fuel + 1, calls, views =>
      let offered := (views.take (iovMax limit)).map View.bytes
      let sent := kernel.took calls offered
      (sendViews limit kernel fuel (calls + 1) (advance views sent)).map (offered.flatten.take sent :: ·)

/-- The send loop, with what it starts from: `[view for view in map(byte_view, buffers) if view]` -/
def sendLoop (limit : Option Int) (kernel : Kernel) (fuel : Nat) (buffers : List Buffer) : Option (List Bytes) :=
  (byteViews buffers).bind fun views => sendViews limit kernel fuel 0 (views.filter fun view => view.rows ≠ 0)

/-! ## Pieces of a size -/

/-- `coalesce`, inside a buffer: the stage, which is not full, and what is left of the view. -/
structure Coalescing (size : Nat) where
  stage : Bytes
  room : stage.length < size
  view : View

/-- `while at < end`, with `view` for what is behind `at`. -/
def coalesceLoop (size : Nat) : Loop (Coalescing size) Bytes where
  turn s :=
    if s.view.rows = 0 then none
    else if s.stage = [] ∧ size ≤ s.view.rows then
      some ([s.view.take size], { s with view := s.view.drop size })
    else
      let take := min (size - s.stage.length) s.view.rows
      let stage := s.stage ++ s.view.take take
      if hfull : size ≤ stage.length then
        some ([stage], ⟨[], Nat.lt_of_le_of_lt (Nat.zero_le _) s.room, s.view.drop take⟩)
      else some ([], ⟨stage, Nat.not_le.mp hfull, s.view.drop take⟩)
  measure s := s.view.rows
  turn_lt := by
    intro s s' out h
    have hroom := s.room
    have hdrop : ∀ n, (s.view.drop n).rows = s.view.rows - n := fun _ => rfl
    split at h
    · cases h
    split at h
    · cases h
      show (s.view.drop size).rows < s.view.rows
      rw [hdrop]
      omega
    · dsimp only at h
      split at h <;> cases h <;> rw [hdrop] <;> omega

/-- `coalesce`, with some bytes staged: the pieces, and whether it comes to its end. -/
def coalesceFrom (size : Nat) : (stage : Bytes) → stage.length < size → List Buffer → List Bytes × Bool
  | stage, _, [] => (if stage = [] then [] else [stage], true)
  | stage, room, buffer :: buffers =>
      match byteView buffer with
      | none => ([], false)
      | some view =>
          let (pieces, s) := (coalesceLoop size).run ⟨stage, room, view⟩
          let (rest, ended) := coalesceFrom size s.stage s.room buffers
          (pieces ++ rest, ended)

/-- `coalesce`.  Of a size that is not positive it makes no end of empty pieces. -/
def coalesce (buffers : List Buffer) (size : Nat) (hsize : 0 < size) : List Bytes × Bool :=
  coalesceFrom size [] hsize buffers

/-! ## The send -/

def TLS_PIECE : Nat := 64 <<< 10

theorem TLS_PIECE_pos : 0 < TLS_PIECE := by decide

/-- `send_buffers`: what each call hands the socket, if the send ends.  `sendall` hands it all. -/
def sendBuffers (limit : Option Int) (kernel : Kernel) (tls : Bool) (fuel : Nat) (buffers : List Buffer) :
    Option (List Bytes) :=
  match buffers with
  | [buffer] => some [buffer.bytes]
  | buffers =>
      if tls then
        let (pieces, ended) := coalesce buffers TLS_PIECE TLS_PIECE_pos
        if ended then some pieces else none
      else sendLoop limit kernel fuel buffers

/-- Whatever the kernel takes at a time, the send loop ends and the socket has the buffers, in order
and once, and so it has of a send; and pieces of a size are that size at most, and the buffers as
well. -/
structure Delivers (buffers : List Buffer) : Prop where
  loop : ∀ limit kernel, ∃ fuel out, sendLoop limit kernel fuel buffers = some out ∧ out.flatten = joined buffers
  send : ∀ limit kernel tls, ∃ fuel out,
    sendBuffers limit kernel tls fuel buffers = some out ∧ out.flatten = joined buffers
  pieces : ∀ (size : Nat) (hsize : 0 < size), (coalesce buffers size hsize).2 = true ∧
    (coalesce buffers size hsize).1.flatten = joined buffers ∧
    ∀ piece ∈ (coalesce buffers size hsize).1, piece.length ≤ size

/-! ## Views that count their bytes -/

theorem advance_cons (view : View) (views : List View) (sent : Nat) :
    advance (view :: views) sent =
      if sent < view.rows then view.drop sent :: views else advance views (sent - view.rows) := rfl

/-- What is left is what was there, less what was sent. -/
theorem bytesOf_advance {views : List View} (h : ∀ view ∈ views, view.Flat) (sent : Nat) :
    bytesOf (advance views sent) = (bytesOf views).drop sent := by
  induction views generalizing sent with
  | nil => exact List.drop_nil.symm
  | cons view views ih =>
    obtain ⟨hview, hviews⟩ := List.forall_mem_cons.mp h
    have hlen : view.rows = view.bytes.length := hview
    rw [advance_cons, bytesOf, bytesOf, List.map_cons, List.flatten_cons, List.drop_append]
    split
    · next hin =>
      have hnone : sent - view.bytes.length = 0 := by omega
      rw [List.map_cons, List.flatten_cons, hview.drop_bytes, hnone, List.drop_zero]
    · next hout =>
      have hgone : view.bytes.drop sent = [] := List.drop_eq_nil_of_le (by omega)
      rw [← bytesOf, ih hviews, hgone, List.nil_append, hlen]
      rfl

theorem flat_advance {views : List View} (h : ∀ view ∈ views, view.Flat) (sent : Nat) :
    ∀ view ∈ advance views sent, view.Flat := by
  induction views generalizing sent with
  | nil => exact nofun
  | cons view views ih =>
    obtain ⟨hview, hviews⟩ := List.forall_mem_cons.mp h
    rw [advance_cons]
    split
    · exact List.forall_mem_cons.mpr ⟨hview.drop sent, hviews⟩
    · exact ih hviews (sent - view.rows)

theorem rows_advance {views : List View} (h : ∀ view ∈ views, view.rows ≠ 0) (sent : Nat) :
    ∀ view ∈ advance views sent, view.rows ≠ 0 := by
  induction views generalizing sent with
  | nil => exact nofun
  | cons view views ih =>
    obtain ⟨-, hviews⟩ := List.forall_mem_cons.mp h
    rw [advance_cons]
    split
    · next hin => exact List.forall_mem_cons.mpr ⟨Nat.sub_ne_zero_of_lt hin, hviews⟩
    · exact ih hviews (sent - view.rows)

/-- What is offered is the beginning of what is to be sent. -/
theorem prefix_take_bytesOf (views : List View) (most : Nat) :
    ((views.take most).map View.bytes).flatten <+: bytesOf views := by
  conv_rhs => rw [← List.take_append_drop most views, bytesOf, List.map_append, List.flatten_append]
  exact List.prefix_append _ _

/-- Whatever is to be sent, some of it is offered. -/
theorem offered_ne_nil {view : View} {views : List View} (hflat : view.Flat) (hrows : view.rows ≠ 0) {most : Nat}
    (hmost : 0 < most) : (((view :: views).take most).map View.bytes).flatten ≠ [] := by
  obtain ⟨most, rfl⟩ := Nat.exists_eq_succ_of_ne_zero (Nat.ne_of_gt hmost)
  rw [List.take_succ_cons, List.map_cons, List.flatten_cons]
  refine List.append_ne_nil_of_left_ne_nil (fun hnil => hrows ?_) _
  rw [hflat, hnil, List.length_nil]

/-- The loop ends, with nothing left to send and each byte where it belongs. -/
theorem sendViews_flat (limit : Option Int) (kernel : Kernel) : ∀ (fuel calls : Nat) (views : List View),
    (bytesOf views).length ≤ fuel → (∀ view ∈ views, view.Flat) → (∀ view ∈ views, view.rows ≠ 0) →
    ∃ out, sendViews limit kernel fuel calls views = some out ∧ out.flatten = bytesOf views := by
  intro fuel
  induction fuel with
  | zero =>
    intro calls views hfuel hflat hrows
    cases views with
    | nil => exact ⟨[], rfl, rfl⟩
    | cons view views =>
      have hpos := Nat.pos_of_ne_zero (hrows view List.mem_cons_self)
      have hlen : view.rows = view.bytes.length := hflat view List.mem_cons_self
      rw [bytesOf, List.map_cons, List.flatten_cons, List.length_append] at hfuel
      omega
  | succ fuel ih =>
    intro calls views hfuel hflat hrows
    cases views with
    | nil => exact ⟨[], rfl, rfl⟩
    | cons view views =>
      generalize hviews : view :: views = all at hfuel hflat hrows
      have hsome : ((all.take (iovMax limit)).map View.bytes).flatten ≠ [] := by
        rw [← hviews] at hflat hrows ⊢
        exact offered_ne_nil (hflat view List.mem_cons_self) (hrows view List.mem_cons_self) (iovMax_pos limit)
      have hpos := @Kernel.took_pos kernel calls _ hsome
      have htook := kernel.took_le calls ((all.take (iovMax limit)).map View.bytes)
      obtain ⟨rest, hrest⟩ := prefix_take_bytesOf all (iovMax limit)
      have hleft := bytesOf_advance hflat (kernel.took calls ((all.take (iovMax limit)).map View.bytes))
      have hlen := congrArg List.length hrest
      rw [List.length_append] at hlen
      obtain ⟨out, hout, hbytes⟩ := ih (calls + 1)
        (advance all (kernel.took calls ((all.take (iovMax limit)).map View.bytes)))
        (by rw [hleft, List.length_drop]; omega) (flat_advance hflat _) (rows_advance hrows _)
      refine ⟨((all.take (iovMax limit)).map View.bytes).flatten.take
        (kernel.took calls ((all.take (iovMax limit)).map View.bytes)) :: out, ?_, ?_⟩
      · rw [← hviews] at hout ⊢
        rw [sendViews]
        · simp only [hout, Option.map_some]
        · exact nofun
      · rw [List.flatten_cons, hbytes, hleft]
        conv_lhs => rw [← @List.take_append_of_le_length _ _ rest _ htook, hrest]
        exact List.take_append_drop _ _

theorem bytesOf_filter (views : List View) :
    bytesOf (views.filter fun view => view.rows ≠ 0) = bytesOf views := by
  induction views with
  | nil => rfl
  | cons view views ih =>
    have hcons : bytesOf (view :: views) = view.bytes ++ bytesOf views := rfl
    rw [List.filter_cons, hcons, ← ih]
    by_cases hrows : view.rows = 0
    · rw [if_neg (by simp [hrows]), View.bytes_nil hrows, List.nil_append]
    · rw [if_pos (by simp [hrows])]
      rfl

theorem byteViews_flat {buffers : List Buffer} (h : ∀ buffer ∈ buffers, buffer.CountsBytes) :
    ∃ views, byteViews buffers = some views ∧ bytesOf views = joined buffers ∧ ∀ view ∈ views, view.Flat := by
  induction buffers with
  | nil => exact ⟨[], rfl, rfl, nofun⟩
  | cons buffer buffers ih =>
    obtain ⟨hbuffer, hbuffers⟩ := List.forall_mem_cons.mp h
    obtain ⟨view, hview, hflat⟩ := countsBytes_iff.mp hbuffer
    obtain ⟨views, hviews, hbytes, hflats⟩ := ih hbuffers
    refine ⟨view :: views, ?_, ?_, List.forall_mem_cons.mpr ⟨hflat, hflats⟩⟩
    · rw [byteViews, hview, hviews]
      rfl
    · rw [bytesOf, joined, List.map_cons, List.map_cons, List.flatten_cons, List.flatten_cons, byteView_bytes hview]
      exact congrArg (buffer.bytes ++ ·) hbytes

theorem sendLoop_flat {buffers : List Buffer} (h : ∀ buffer ∈ buffers, buffer.CountsBytes) (limit : Option Int)
    (kernel : Kernel) : ∃ fuel out, sendLoop limit kernel fuel buffers = some out ∧ out.flatten = joined buffers := by
  obtain ⟨views, hviews, hbytes, hflat⟩ := byteViews_flat h
  obtain ⟨out, hout, hsent⟩ := sendViews_flat limit kernel _ 0 (views.filter fun view => view.rows ≠ 0) (Nat.le_refl _)
    (fun view hview => hflat view (List.mem_of_mem_filter hview))
    (fun view hview => by simpa using List.of_mem_filter hview)
  exact ⟨_, out, by rw [sendLoop, hviews]; exact hout, by rw [hsent, bytesOf_filter, hbytes]⟩

/-! ## What one piece takes -/

/-- What one turn puts out, and what it leaves, is what it had; a piece of a view that counts its
bytes is of the size at most. -/
theorem coalesceLoop_turn {size : Nat} {s s' : Coalescing size} {out : List Bytes}
    (h : (coalesceLoop size).turn s = some (out, s')) :
    out.flatten ++ (s'.stage ++ s'.view.bytes) = s.stage ++ s.view.bytes ∧
      (s.view.Flat → s'.view.Flat ∧ ∀ piece ∈ out, piece.length ≤ size) := by
  have hroom := s.room
  have hturn : (if s.view.rows = 0 then none else _) = some (out, s') := h
  split at hturn
  · cases hturn
  split at hturn
  · next hwhole =>
    cases hturn
    refine ⟨?_, fun hflat => ⟨hflat.drop size, fun piece hpiece => ?_⟩⟩
    · show [s.view.take size].flatten ++ (s.stage ++ (s.view.drop size).bytes) = s.stage ++ s.view.bytes
      rw [List.flatten_singleton, hwhole.1, List.nil_append, List.nil_append, View.take_append_drop]
    · rw [List.mem_singleton.mp hpiece]
      exact hflat.length_take size
  · dsimp only at hturn
    have hjoin : ∀ n, s.stage ++ s.view.take n ++ (s.view.drop n).bytes = s.stage ++ s.view.bytes := fun n => by
      rw [List.append_assoc, View.take_append_drop]
    split at hturn
    · next hfull =>
      cases hturn
      refine ⟨?_, fun hflat => ⟨hflat.drop _, fun piece hpiece => ?_⟩⟩
      · rw [List.flatten_singleton, List.nil_append, hjoin]
      · have htake := hflat.length_take (min (size - s.stage.length) s.view.rows)
        rw [List.mem_singleton.mp hpiece, List.length_append]
        omega
    · cases hturn
      exact ⟨by rw [List.flatten_nil, List.nil_append, hjoin], fun hflat => ⟨hflat.drop _, nofun⟩⟩

theorem coalesceLoop_stop {size : Nat} {s : Coalescing size} (h : (coalesceLoop size).turn s = none) :
    s.view.rows = 0 := by
  by_contra hne
  have hturn : (if s.view.rows = 0 then none else _) = none := h
  rw [if_neg hne] at hturn
  split at hturn
  · cases hturn
  · dsimp only at hturn
    split at hturn <;> cases hturn

theorem coalesceLoop_run {size : Nat} (s : Coalescing size) :
    ((coalesceLoop size).run s).1.flatten ++ ((coalesceLoop size).run s).2.stage = s.stage ++ s.view.bytes ∧
      (s.view.Flat → ∀ piece ∈ ((coalesceLoop size).run s).1, piece.length ≤ size) := by
  refine (coalesceLoop size).run_induction
    (P := fun s => ((coalesceLoop size).run s).1.flatten ++ ((coalesceLoop size).run s).2.stage =
      s.stage ++ s.view.bytes ∧ (s.view.Flat → ∀ piece ∈ ((coalesceLoop size).run s).1, piece.length ≤ size)) ?_ ?_ s
  · intro s hstop
    rw [(coalesceLoop size).run_of_none hstop, View.bytes_nil (coalesceLoop_stop hstop), List.append_nil]
    exact ⟨rfl, fun _ => nofun⟩
  · intro s s' out hturn ih
    obtain ⟨hbytes, hsize⟩ := coalesceLoop_turn hturn
    rw [(coalesceLoop size).run_of_some hturn]
    refine ⟨?_, fun hflat piece hpiece => ?_⟩
    · rw [List.flatten_append, List.append_assoc, ih.1, hbytes]
    · rcases List.mem_append.mp hpiece with hpiece | hpiece
      · exact (hsize hflat).2 piece hpiece
      · exact ih.2 (hsize hflat).1 piece hpiece

/-- Pieces of one byte are slices of one item. -/
theorem coalesceLoop_one (s : Coalescing 1) (hrows : s.view.rows ≠ 0)
    (hpieces : ∀ piece ∈ ((coalesceLoop 1).run s).1, piece.length ≤ 1) : s.view.width ≤ 1 := by
  have hstage : s.stage = [] := List.length_eq_zero_iff.mp (Nat.lt_one_iff.mp s.room)
  have hturn : (coalesceLoop 1).turn s = some ([s.view.take 1], { s with view := s.view.drop 1 }) :=
    (if_neg hrows).trans (if_pos ⟨hstage, Nat.one_le_iff_ne_zero.mpr hrows⟩)
  rw [(coalesceLoop 1).run_of_some hturn] at hpieces
  have hfirst := hpieces (s.view.take 1) List.mem_cons_self
  have hwidth : s.view.width ≤ s.view.bytes.length := by
    rw [s.view.size]
    exact Nat.le_mul_of_pos_left _ (Nat.pos_of_ne_zero hrows)
  rw [View.take, List.length_take, Nat.one_mul, Nat.min_eq_left hwidth] at hfirst
  exact hfirst

theorem coalesceFrom_flat {size : Nat} {buffers : List Buffer} (h : ∀ buffer ∈ buffers, buffer.CountsBytes) :
    ∀ (stage : Bytes) (room : stage.length < size), (coalesceFrom size stage room buffers).2 = true ∧
      (coalesceFrom size stage room buffers).1.flatten = stage ++ joined buffers ∧
      ∀ piece ∈ (coalesceFrom size stage room buffers).1, piece.length ≤ size := by
  induction buffers with
  | nil =>
    intro stage room
    rw [coalesceFrom, joined, List.map_nil, List.flatten_nil, List.append_nil]
    refine ⟨rfl, ?_⟩
    dsimp only
    split
    · next hnil => exact ⟨hnil.symm, nofun⟩
    · refine ⟨List.flatten_singleton, fun piece hpiece => ?_⟩
      rw [List.mem_singleton.mp hpiece]
      exact Nat.le_of_lt room
  | cons buffer buffers ih =>
    intro stage room
    obtain ⟨hbuffer, hbuffers⟩ := List.forall_mem_cons.mp h
    obtain ⟨view, hview, hflat⟩ := countsBytes_iff.mp hbuffer
    obtain ⟨hbytes, hsize⟩ := coalesceLoop_run ⟨stage, room, view⟩
    rw [coalesceFrom, hview]
    dsimp only
    obtain ⟨hended, hrest, hrests⟩ := ih hbuffers _ ((coalesceLoop size).run ⟨stage, room, view⟩).2.room
    refine ⟨hended, ?_, fun piece hpiece => ?_⟩
    · rw [List.flatten_append, hrest, ← List.append_assoc, hbytes, byteView_bytes hview, List.append_assoc, joined,
        joined, List.map_cons, List.flatten_cons]
    · rcases List.mem_append.mp hpiece with hpiece | hpiece
      · exact hsize hflat piece hpiece
      · exact hrests piece hpiece

/-! ## Views that do not -/

/-- Where every piece of one byte is one, no item is longer. -/
theorem coalesceFrom_one {buffers : List Buffer} : ∀ (stage : Bytes) (room : stage.length < 1),
    (coalesceFrom 1 stage room buffers).2 = true →
    (∀ piece ∈ (coalesceFrom 1 stage room buffers).1, piece.length ≤ 1) →
    ∀ buffer ∈ buffers, ∃ view, byteView buffer = some view ∧ view.bytes.length ≤ view.rows := by
  induction buffers with
  | nil => exact fun _ _ _ _ => nofun
  | cons buffer buffers ih =>
    intro stage room hended hpieces
    rw [coalesceFrom] at hended hpieces
    cases hview : byteView buffer with
    | none =>
      rw [hview] at hended
      cases hended
    | some view =>
      rw [hview] at hended hpieces
      dsimp only at hended hpieces
      refine List.forall_mem_cons.mpr ⟨⟨view, hview, ?_⟩, ih _ _ hended fun piece hpiece =>
        hpieces piece (List.mem_append_right _ hpiece)⟩
      rw [view.size]
      by_cases hrows : view.rows = 0
      · rw [hrows, Nat.zero_mul]
      · have hwidth := coalesceLoop_one ⟨stage, room, view⟩ hrows fun piece hpiece =>
          hpieces piece (List.mem_append_left _ hpiece)
        exact (Nat.mul_le_mul_left _ hwidth).trans (Nat.mul_one _).le

/-- A call of `sendmsg` takes no more items off the views than it takes bytes. -/
theorem rows_le_advance (views : List View) (sent : Nat) :
    (views.map View.rows).sum ≤ sent + ((advance views sent).map View.rows).sum := by
  induction views generalizing sent with
  | nil => exact Nat.zero_le _
  | cons view views ih =>
    rw [advance_cons, List.map_cons, List.sum_cons]
    split
    · rw [List.map_cons, List.sum_cons]
      show _ ≤ sent + (view.rows - sent + _)
      omega
    · have := ih (sent - view.rows)
      omega

/-- A loop that ends has handed over a byte at least for every item. -/
theorem rows_le_sendViews (limit : Option Int) (kernel : Kernel) : ∀ (fuel calls : Nat) (views : List View)
    (out : List Bytes), sendViews limit kernel fuel calls views = some out →
    (views.map View.rows).sum ≤ out.flatten.length := by
  intro fuel
  induction fuel with
  | zero =>
    intro calls views out hout
    cases views with
    | nil => exact Nat.zero_le _
    | cons view views => cases hout
  | succ fuel ih =>
    intro calls views out hout
    cases views with
    | nil => exact Nat.zero_le _
    | cons view views =>
      rw [sendViews] at hout
      · obtain ⟨rest, hrest, rfl⟩ := Option.map_eq_some_iff.mp hout
        have hbehind := ih _ _ _ hrest
        have hrows := rows_le_advance (view :: views)
          (kernel.took calls (((view :: views).take (iovMax limit)).map View.bytes))
        rw [List.flatten_cons, List.length_append, List.length_take, Nat.min_eq_left (kernel.took_le _ _)]
        omega
      · exact nofun

theorem sum_rows_filter (views : List View) :
    ((views.filter fun view => view.rows ≠ 0).map View.rows).sum = (views.map View.rows).sum := by
  induction views with
  | nil => rfl
  | cons view views ih =>
    rw [List.filter_cons, List.map_cons, List.sum_cons, ← ih]
    by_cases hrows : view.rows = 0
    · rw [if_neg (by simp [hrows]), hrows, Nat.zero_add]
    · rw [if_pos (by simp [hrows]), List.map_cons, List.sum_cons]

/-- Where no view has more bytes than items, nor all of them more items than bytes, each counts its
bytes. -/
theorem countsBytes_of_rows {buffers : List Buffer}
    (hviews : ∀ buffer ∈ buffers, ∃ view, byteView buffer = some view ∧ view.bytes.length ≤ view.rows)
    {views : List View} (h : byteViews buffers = some views) :
    (joined buffers).length ≤ (views.map View.rows).sum ∧
      ((views.map View.rows).sum ≤ (joined buffers).length → ∀ buffer ∈ buffers, buffer.CountsBytes) := by
  induction buffers generalizing views with
  | nil => exact ⟨Nat.zero_le _, fun _ => nofun⟩
  | cons buffer buffers ih =>
    obtain ⟨⟨view, hview, hle⟩, hrest⟩ := List.forall_mem_cons.mp hviews
    rw [byteViews, hview] at h
    obtain ⟨views', hviews', h⟩ := Option.bind_eq_some_iff.mp (show (byteViews buffers).bind _ = _ from h)
    cases h
    obtain ⟨hsum, hcounts⟩ := ih hrest hviews'
    have hbytes := byteView_bytes hview
    rw [joined, List.map_cons, List.flatten_cons, ← joined, List.length_append, List.map_cons, List.sum_cons, ← hbytes]
    refine ⟨by omega, fun hall => List.forall_mem_cons.mpr ⟨countsBytes_iff.mpr ⟨view, hview, ?_⟩, hcounts (by omega)⟩⟩
    rw [View.Flat]
    omega

/-- Buffers are delivered exactly if every view of them counts its bytes. -/
theorem delivers_iff (buffers : List Buffer) : Delivers buffers ↔ ∀ buffer ∈ buffers, buffer.CountsBytes := by
  constructor
  · intro h
    obtain ⟨hended, -, hpieces⟩ := h.pieces 1 Nat.one_pos
    have hviews := coalesceFrom_one [] Nat.one_pos hended hpieces
    obtain ⟨fuel, out, hout, hbytes⟩ := h.loop none default
    obtain ⟨views, hbyteViews, hout⟩ := Option.bind_eq_some_iff.mp hout
    have hrows := rows_le_sendViews none default fuel 0 _ out hout
    rw [sum_rows_filter, hbytes] at hrows
    exact (countsBytes_of_rows hviews hbyteViews).2 hrows
  · intro h
    have hpieces : ∀ (size : Nat) (hsize : 0 < size), (coalesce buffers size hsize).2 = true ∧
        (coalesce buffers size hsize).1.flatten = joined buffers ∧
        ∀ piece ∈ (coalesce buffers size hsize).1, piece.length ≤ size := fun size hsize =>
      coalesceFrom_flat h [] hsize
    refine ⟨sendLoop_flat h, fun limit kernel tls => ?_, hpieces⟩
    unfold sendBuffers
    split
    · next buffer => exact ⟨0, _, rfl, by simp [joined]⟩
    · cases tls with
      | true =>
        obtain ⟨hended, hbytes, -⟩ := hpieces TLS_PIECE TLS_PIECE_pos
        refine ⟨0, (coalesce buffers TLS_PIECE TLS_PIECE_pos).1, ?_, hbytes⟩
        dsimp only
        rw [if_pos rfl, if_pos hended]
      | false => exact sendLoop_flat h limit kernel

/-! ## A view of three rows -/

/-- `memoryview(bytes(12)).cast("B", [3, 4])` -/
def grid : Buffer := ⟨['B'], 1, [3, 4], List.replicate 12 0, rfl, fun _ => rfl⟩

/-- A kernel that takes five bytes of it has the loop end there, and of pieces of eight bytes the first
is twelve. -/
theorem grid_is_cut : ¬ Delivers [grid, .ofBytes [1]] ∧
    sendBuffers none (.taking 5 (by decide)) false 1 [grid, .ofBytes [1]] = some [List.replicate 5 0] ∧
    coalesce [grid, .ofBytes [1]] 8 (by decide) = ([List.replicate 12 0, [1]], true) := by
  refine ⟨fun h => absurd ((delivers_iff _).mp h grid List.mem_cons_self) ?_, ?_, ?_⟩
  all_goals decide +kernel

end XrdClient.Transport
